import QScope.BracketLayout

/-! # Assignments: the targets, the value and the manner of each assigning colon -/
namespace QScope.Assignments
open BracketLayout

/-- What stands before an assigning colon: a name, an item `x[i]` of a named value, or a group
`(a;b)` of names. -/
inductive Target
  | name (index : Nat)
  | item (index : Nat)
  | group (indices : List Nat)
deriving DecidableEq

namespace Target

def members : Target → List Nat
  | name i => [i]
  | item i => [i]
  | group is => is

def isItem : Target → Bool
  | item _ => true
  | name _ | group _ => false

/-- The names that share one value. -/
def shared : Target → List Nat
  | group is => is
  | name _ | item _ => []

end Target

/-- One assignment: the index of its colon, its target, the index of the first token of its value,
and how it binds. An amending one changes a part of a value that is there; a global one binds
beyond the lambda it stands in; the value may be a function literal. -/
structure Assignment where
  colon : Nat
  target : Target
  value : Option Nat
  amends : Bool
  global : Bool
  lambda : Bool
deriving DecidableEq

/-- The indices of the names in `a;b;c`, the first of which has index `i`. -/
def names? (i : Nat) : List Kind → Option (List Nat)
  | [.identifier] => some [i]
  | .identifier :: .semicolon :: kinds => (names? (i + 2) kinds).map (i :: ·)
  | _ => none

def kindAt (tokens : List Token) (i : Nat) : Option Kind := tokens[i]?.map (·.kind)

/-- The target that ends with the token at index `i`. A colon joined to an operator takes no
group. -/
def target? (tokens : List Token) (places : List Place) (joined : Bool) (i : Nat) :
    Option Target :=
  let opener := places[i]?.bind (·.opener)
  match kindAt tokens i, opener with
  | some .identifier,_ => some (.name i)
  | some .closeBracket,some (j + 1) =>
    if kindAt tokens j = some .identifier then some (.item j) else none
  | some .closeParen,some j =>
    let inside := ((tokens.take i).drop (j + 1)).map (·.kind)
    match names? (j + 1) inside with
    | some (a :: b :: more) => if joined then none else some (.group (a :: b :: more))
    | _ => none
  | _,_ => none

/-- The assignment made by the colon `t` at index `i`, whose place is `p`. -/
def assignment? (tokens : List Token) (places : List Place) (i : Nat) (t : Token) (p : Place) :
    Option Assignment :=
  match p.admits,i with
  | true,k + 1 =>
    (target? tokens places (t.kind == .amend) k).map fun target =>
      ⟨i,target,if i + 1 < tokens.length then some (i + 1) else none,
        t.kind == .amend || target.isItem,
        t.kind == .doubleColon && p.scope.isSome && !target.isItem,
        kindAt tokens (i + 1) == some .openBrace⟩
  | _,_ => none

def assignments (tokens : List Token) (places : List Place) : List Assignment :=
  ((tokens.zip places).zipIdx).filterMap fun ((t,p),i) => assignment? tokens places i t p

end QScope.Assignments
