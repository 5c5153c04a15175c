import QScope.Annotating

/-! # Resolution: the binding that each name refers to, and the names that refer to one binding

A name in a lambda is local when that very lambda assigns it or lists it as a parameter. Any other
name is global in its namespace; the lambdas in between are never searched. -/
namespace QScope.Resolution

/-- A local name of the lambda with a given brace, or a global by its canonical name. -/
inductive Binding
  | inLambda (brace : Nat) (name : Text)
  | inNamespace (name : Text)
deriving DecidableEq

/-- Whether a binding can be seen from a scope: globals from all, locals from their own lambda. -/
def Binding.visibleFrom (scope : Option Nat) : Binding → Bool
  | inLambda brace _ => scope == some brace
  | inNamespace _ => true

/-- The lambda and the name that a token has if it is local. -/
def localKey? (t : AnnotatedToken) : Option (Nat × Text) :=
  if t.isQualified then none else t.scope.map (·,t.image)

/-- The locals and the globals that the tokens of a text define. -/
structure Bindings where
  locals : List (Nat × Text)
  globals : List Text

namespace Bindings

/-- The local binding of an identifier, if its lambda defines the name. -/
def local? (defined : List (Nat × Text)) (t : AnnotatedToken) : Option Binding :=
  match localKey? t with
  | some (brace,name) => if defined.contains (brace,name) then some (.inLambda brace name) else none
  | none => none

/-- A definition with a double colon in a lambda is not local, unless the same lambda has a local
of that name. -/
def ofTokens (tokens : List AnnotatedToken) : Bindings :=
  let definitions := tokens.filter (·.defines)
  let locals := (definitions.filter (!·.flags.global)).filterMap localKey?
  ⟨locals,(definitions.filter (local? locals · |>.isNone)).map (·.canonicalName)⟩

def resolve (b : Bindings) (t : AnnotatedToken) : Option Binding :=
  if t.isIdentifier then
    match local? b.locals t with
    | some binding => some binding
    | none =>
      let name := t.canonicalName
      if b.globals.contains name then some (.inNamespace name) else none
  else none

end Bindings

inductive Search | definition | reference | rename | completion
deriving DecidableEq

def Search.all : List Search := [definition,reference,rename,completion]

def Search.label : Search → Text
  | definition => "definition".toList
  | reference => "reference".toList
  | rename => "rename".toList
  | completion => "completion".toList

/-- The first item of every key, leaving out the keys already seen. -/
def firsts {κ α : Type} [DecidableEq κ] (seen : List κ) : List (κ × α) → List α
  | [] => []
  | (k,a) :: rest => if k ∈ seen then firsts seen rest else a :: firsts (k :: seen) rest

/-- The first definition of every binding visible from a scope. -/
def visible (b : Bindings) (tokens : List AnnotatedToken) (scope : Option Nat) :
    List AnnotatedToken :=
  firsts [] <| (tokens.filter (·.defines)).filterMap fun t =>
    match b.resolve t with
    | some binding => if binding.visibleFrom scope then some (binding,t) else none
    | none => none

/-- The tokens that a search from `source` finds, in order. A source that is no name or has no
binding finds nothing. -/
def find (search : Search) (tokens : List AnnotatedToken) (source : AnnotatedToken) :
    List AnnotatedToken :=
  if source.isIdentifier then
    let b := Bindings.ofTokens tokens
    match search with
    | .completion => visible b tokens source.scope
    | .definition | .reference | .rename =>
      match b.resolve source with
      | none => []
      | some binding =>
        let occurrences := tokens.filter fun t => b.resolve t == some binding
        if search = .definition then occurrences.filter (·.defines) else occurrences
  else []

/-- The token at a position, or else the one that ends just before it. -/
def tokenAt (tokens : List AnnotatedToken) (p : Position) : Option AnnotatedToken :=
  (tokens.find? (·.span.contains p)).or <|
    tokens.find? fun t => t.span.stop.line == p.line && t.span.stop.column + 1 == p.column

/-- What takes the place of an occurrence when its binding is renamed. -/
def replacement (t : AnnotatedToken) (newName : Text) : Text :=
  if t.isIdentifier then DottedNames.replacement t.image newName else newName

end QScope.Resolution
