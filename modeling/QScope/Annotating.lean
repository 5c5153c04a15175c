import QScope.Assignments
import QScope.Lexing

/-! # Annotating: every token with its scope, its namespace and its part in an assignment -/
namespace QScope

/-- What is known of an identifier's binding at its place. -/
structure Flags where
  assigned : Bool
  amended : Bool
  lambda : Bool
  param : Bool
  global : Bool
deriving DecidableEq

namespace Flags

def labels (f : Flags) : List Text :=
  ([(f.assigned,"ASSIGNED"),(f.amended,"AMENDED"),(f.lambda,"LAMBDA"),(f.param,"PARAM"),
    (f.global,"GLOBAL")].filter (·.1)).map (·.2.toList)

end Flags

/-- A token with the index of its lambda's brace, its namespace, the token it is tied to (the
target of a colon, the value of a target), the members of its group and its rank in it. A token
outside any group has no members and rank zero. -/
structure AnnotatedToken extends Token where
  scope : Option Nat
  ns : Option Text
  tangled : Option Nat
  group : List Nat
  order : Nat
  flags : Flags
deriving DecidableEq

namespace AnnotatedToken

def isIdentifier (t : AnnotatedToken) : Bool := t.kind == .identifier

def isAssigned (t : AnnotatedToken) : Bool := t.isIdentifier && t.flags.assigned

/-- Assignments and parameters define a binding; amending one only changes it. -/
def defines (t : AnnotatedToken) : Bool := t.isAssigned && !t.flags.amended

def isQualified (t : AnnotatedToken) : Bool := t.isIdentifier && DottedNames.isQualified t.image

/-- The name as it is written in a namespace. -/
def nameIn (t : AnnotatedToken) (viewer : Option Text) : Text :=
  if t.isIdentifier then DottedNames.relative t.image t.ns viewer
  else DottedNames.prefixed t.image t.ns viewer

/-- The name as it is written in the root namespace, the same for every spelling. -/
def canonicalName (t : AnnotatedToken) : Text := t.nameIn none

/-- `image@line:column#index`, which no two tokens of a text share. -/
def label (t : AnnotatedToken) : Text :=
  t.image ++ '@' :: Texts.integer t.span.start.line ++ ':' :: Texts.integer t.span.start.column ++
    '#' :: Texts.decimal t.index

end AnnotatedToken

namespace Annotating
open Assignments BracketLayout

/-- A token's annotations, from its place and from the assignment that it is a target or the colon
of. -/
def annotated (made : List Assignment) (i : Nat) (t : Token) (p : Place) : AnnotatedToken :=
  let own := made.find? (·.target.members.contains i)
  let members := (own.map (·.target.shared)).getD []
  { t with
    index := i
    scope := p.scope
    ns := p.ns
    tangled := match own with
      | some a => a.value
      | none => (made.find? (·.colon == i)).bind (·.target.members.head?)
    group := members
    order := if members.isEmpty then 0 else members.idxOf i + 1
    flags := ⟨p.param || own.isSome,own.any (·.amends),own.any (·.lambda),p.param,
      own.any (·.global)⟩ }

/-- The tokens numbered from zero and annotated, in a text that begins in the namespace `ns`. -/
def annotateIn (ns : Option Text) (tokens : List Token) : List AnnotatedToken :=
  let found := places 0 (.start ns) tokens
  let made := assignments tokens found
  ((tokens.zip found).zipIdx).map fun ((t,p),i) => annotated made i t p

def annotate (tokens : List Token) : List AnnotatedToken := annotateIn none tokens

def parse (file text : Text) : List AnnotatedToken := annotate (Lexing.tokenize file text)

/-- The label of the token at an index, for the tokens that others refer to. -/
def labelAt (tokens : List AnnotatedToken) (i : Nat) : Text := (tokens[i]?.map (·.label)).getD []

/-- The annotations of a token on one line; absent ones are left out. -/
def describe (tokens : List AnnotatedToken) (t : AnnotatedToken) : Text :=
  let tagged (tag : String) (values : Text) : Text := tag.toList ++ values
  Texts.words <| [
    [t.kind.label],
    (t.ns.filter (!·.isEmpty)).toList.map fun ns => '(' :: ns ++ [')'],
    t.error.toList.map fun e => tagged "E=" e.code,
    if t.order = 0 then [] else [tagged "O=" (Texts.decimal t.order)],
    t.tangled.toList.map fun i => tagged "T=" (labelAt tokens i),
    t.scope.toList.map fun i => tagged "S=" (labelAt tokens i),
    if t.group.isEmpty then [] else [tagged "A=" (Texts.words (t.group.map (labelAt tokens)))],
    if t.flags.labels.isEmpty then [] else [tagged "F=" (Texts.join ['|'] t.flags.labels)]].flatten

/-- A token's label and description on one line. -/
def dump (tokens : List AnnotatedToken) (t : AnnotatedToken) : Text :=
  Texts.words [t.label,describe tokens t]

end Annotating
end QScope
