import QScope.DottedNames
import QScope.Tokens

/-! # Namespaces: the commands and calls that switch to another one -/
namespace QScope.Namespaces
open CharacterClasses

/-- A namespace name after its leading dot: word characters and dots behind an ASCII letter. -/
def isPath : Text → Bool
  | [] => false
  | c :: t => isNameStart c && t.all fun d => isWordChar d || d == '.'

/-- The namespace that `d .name` switches to; a dot alone is the root, which has no name. -/
def switched? : Text → Option (Option Text)
  | 'd' :: t =>
    if t.head?.any isBlank then
      match Texts.trimLeft t with
      | ['.'] => some none
      | '.' :: name => if isPath name then some (some name) else none
      | _ => none
    else none
  | _ => none

/-- The switch in a system command line. -/
def ofCommand? (line : Text) : Option (Option Text) :=
  match Texts.trim line with
  | '\\' :: t => switched? t
  | _ => none

/-- The switch in the argument of a system call, quotes included. -/
def ofString? : Text → Option (Option Text)
  | '"' :: t => if t.getLast? = some '"' then switched? t.dropLast else none
  | _ => none

/-- The namespace after a command or, outside any lambda, after a system call. -/
def after (ns : Option Text) (inLambda : Bool) (t : Token) (following : Option Token) :
    Option Text :=
  match t.kind with
  | .command => (ofCommand? t.image).getD ns
  | .keyword =>
    match following with
    | some u =>
      if t.image = "system".toList ∧ inLambda = false ∧ u.kind = .string then
        (ofString? u.image).getD ns
      else ns
    | none => ns
  | _ => ns

/-- The namespace of a token: an identifier with a leading dot carries its own. -/
def ofToken (ns : Option Text) (t : Token) : Option Text :=
  if t.kind = .identifier ∧ t.image.head? = some '.' then (DottedNames.split t.image).1 else ns

end QScope.Namespaces
