import QScope.Annotating
import QScope.Diagnostics

/-! # Linting: lexical errors, reserved names, escapes, dated literals, use of locals -/
namespace QScope.Linting

inductive Rule
  | lexerError | assignReservedWord | invalidEscape
  | unusedParam | unusedVar | declaredAfterUse | deprecatedDatetime
deriving DecidableEq

namespace Rule

def all : List Rule :=
  [lexerError,assignReservedWord,invalidEscape,unusedParam,unusedVar,declaredAfterUse,
    deprecatedDatetime]

def code : Rule → Text
  | lexerError => "LEXER_ERROR".toList
  | assignReservedWord => "ASSIGN_RESERVED_WORD".toList
  | invalidEscape => "INVALID_ESCAPE".toList
  | unusedParam => "UNUSED_PARAM".toList
  | unusedVar => "UNUSED_VAR".toList
  | declaredAfterUse => "DECLARED_AFTER_USE".toList
  | deprecatedDatetime => "DEPRECATED_DATETIME".toList

end Rule

/-- What can be wrong with a token. -/
inductive Problem
  | lexical (error : LexicalError)
  | reservedWord (word : Text)
  | reservedNamespace (ns : Text)
  | invalidEscape (escape : Text)
  | deprecatedDatetime
  | unusedParam (name : Text)
  | unusedVar (name : Text)
  | readBeforeAssigned (name : Text) (assigned : Position)
deriving DecidableEq

namespace Problem

def rule : Problem → Rule
  | lexical _ => .lexerError
  | reservedWord _ | reservedNamespace _ => .assignReservedWord
  | invalidEscape _ => .invalidEscape
  | deprecatedDatetime => .deprecatedDatetime
  | unusedParam _ => .unusedParam
  | unusedVar _ => .unusedVar
  | readBeforeAssigned _ _ => .declaredAfterUse

def severity : Problem → Severity
  | lexical _ | reservedWord _ => .error
  | _ => .warning

def quoted (t : Text) : Text := '\'' :: t ++ ['\'']

def message : Problem → Text
  | lexical e => e.message
  | reservedWord word => "assignment to reserved word ".toList ++ quoted word
  | reservedNamespace ns => "assignment into reserved namespace ".toList ++ quoted ('.' :: ns)
  | invalidEscape escape => "invalid escape sequence ".toList ++ quoted escape
  | deprecatedDatetime => "datetime literals are deprecated".toList
  | unusedParam name => "unused parameter ".toList ++ quoted name
  | unusedVar name => "unused variable ".toList ++ quoted name
  | readBeforeAssigned name _ => quoted name ++ " used before it is assigned".toList

def label : Problem → Text
  | reservedWord _ => "built-in name".toList
  | unusedParam _ => "never read in this lambda".toList
  | unusedVar _ => "assigned here, never read".toList
  | readBeforeAssigned _ _ => "reads the global of the same name".toList
  | _ => []

def notes : Problem → List Text
  | deprecatedDatetime =>
    ["use a timestamp literal instead, e.g. 2024.01.01D12:30:00".toList]
  | readBeforeAssigned name p =>
    [quoted name ++ " becomes local at line ".toList ++ Texts.integer p.line ++
      ", column ".toList ++ Texts.integer p.column]
  | _ => []

end Problem

structure Finding where
  token : AnnotatedToken
  problem : Problem
deriving DecidableEq

/-- The name under which findings are published. -/
def source : Text := "qlint".toList

def Finding.diagnostic (f : Finding) : Diagnostic :=
  ⟨f.problem.severity,f.problem.rule.code,f.problem.message,[⟨f.token.span,f.problem.label⟩],
    f.problem.notes⟩

/-- A reserved word in front of a plain or double colon. -/
def reservedWord? (t : AnnotatedToken) (following : Option AnnotatedToken) : Option Problem :=
  if t.kind = .keyword ∧ following.any (fun u => u.kind == .colon || u.kind == .doubleColon) then
    some (.reservedWord t.image)
  else none

/-- Namespaces of the language itself, which no text should assign into. -/
def reservedNamespaces : List Text := ["q","Q"].map String.toList

def reservedNamespace? (t : AnnotatedToken) : Option Problem :=
  if t.isAssigned then
    match DottedNames.split t.image with
    | (some ns,_) => if reservedNamespaces.contains ns then some (.reservedNamespace ns) else none
    | (none,_) => none
  else none

def isEscapeLetter (c : Char) : Bool := "ntr\\\"".toList.contains c

/-- The first backslash of a string body that opens no escape, with the character after it. An
escape is a backslash with one of five letters or with three octal digits. -/
def badEscape? : Text → Option Text
  | [] => none
  | '\\' :: t =>
    match t with
    | [] => some ['\\']
    | c :: u =>
      if isEscapeLetter c then badEscape? u
      else match u with
        | d :: e :: v =>
          if [c,d,e].all CharacterClasses.isOctalDigit then badEscape? v else some ['\\',c]
        | _ => some ['\\',c]
  | _ :: t => badEscape? t

/-- What stands between the quotes of a string. -/
def body (image : Text) : Text := (image.drop 1).dropLast

def invalidEscape? (t : AnnotatedToken) : Option Problem :=
  if (t.kind = .string ∨ t.kind = .character) ∧ t.error = none then
    (badEscape? (body t.image)).map .invalidEscape
  else none

/-- Literals of date and time in one floating number: those with a `T`, or of type `z`. -/
def deprecatedDatetime? (t : AnnotatedToken) : Option Problem :=
  if t.kind = .number ∧ t.error = none ∧ (t.image.getLast? = some 'z' ∨ t.image.contains 'T') then
    some .deprecatedDatetime
  else none

/-- The lambda and the name that a token reads or writes there. -/
def usageKey? (t : AnnotatedToken) : Option (Nat × Text) :=
  if t.isIdentifier && !t.isQualified then t.scope.map (·,t.image) else none

def definesLocal (t : AnnotatedToken) : Bool := t.defines && !t.flags.global

/-- What is wrong with the use of one name in its lambda, said at the token concerned: a first
definition that nothing reads, or a first read in front of it. -/
def usage? (tokens : List AnnotatedToken) (t : AnnotatedToken) : Option Problem :=
  (usageKey? t).bind fun key =>
    let uses := tokens.filter fun u => usageKey? u == some key
    match uses.filter definesLocal,uses.filter (!definesLocal ·) with
    | [],_ => none
    | first :: _,[] =>
      if t.index = first.index then
        some (if first.flags.param then .unusedParam t.image else .unusedVar t.image)
      else none
    | first :: _,read :: _ =>
      if t.index = read.index ∧ read.index < first.index ∧ first.flags.param = false then
        some (.readBeforeAssigned t.image first.span.start)
      else none

/-- The problems of one token, in the order they are reported. -/
def problems (tokens : List AnnotatedToken) (t : AnnotatedToken)
    (following : Option AnnotatedToken) : List Problem :=
  [t.error.map .lexical,reservedWord? t following,reservedNamespace? t,invalidEscape? t,
    deprecatedDatetime? t,usage? tokens t].filterMap id

/-- Every element with the one after it. -/
def followed {α : Type} : List α → List (α × Option α)
  | [] => []
  | a :: as => (a,as.head?) :: followed as

/-- The findings in the order of their tokens, except those of disabled rules. -/
def lint (disabled : List Text) (tokens : List AnnotatedToken) : List Finding :=
  (followed tokens).flatMap fun (t,following) =>
    ((problems tokens t following).filter fun p => !disabled.contains p.rule.code).map (⟨t,·⟩)

end QScope.Linting
