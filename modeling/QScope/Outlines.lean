import QScope.Annotating

/-! # Outlines: top-level assignments with the locals of their lambdas below -/
namespace QScope

/-- A sequence of trees. -/
inductive Forest (α : Type)
  | empty
  | tree (root : α) (children rest : Forest α)

namespace Forest

def map {α β : Type} (f : α → β) : Forest α → Forest β
  | empty => empty
  | tree a children rest => tree (f a) (map f children) (map f rest)

/-- The roots before their children, each with its depth. -/
def preorder {α : Type} (depth : Nat) : Forest α → List (Nat × α)
  | empty => []
  | tree a children rest => (depth,a) :: preorder (depth + 1) children ++ preorder depth rest

theorem preorder_map {α β : Type} (f : α → β) (depth : Nat) (t : Forest α) :
    (t.map f).preorder depth = (t.preorder depth).map fun (n,a) => (n,f a) := by
  induction t generalizing depth with
  | empty => rfl
  | tree a children rest hc hr => simp [map,preorder,hc,hr]

/-- The most nodes from a root down to a node below it. -/
def height {α : Type} : Forest α → Nat
  | empty => 0
  | tree _ children rest => max (height children + 1) (height rest)

def ofList {α : Type} : List α → Forest α
  | [] => empty
  | a :: as => tree a empty (ofList as)

end Forest

namespace Outlines

/-- The names assigned in one scope among the given tokens; below a name that is assigned a lambda,
those assigned in it, which all come later. -/
def ofScope (scope : Option Nat) : List AnnotatedToken → Forest AnnotatedToken
  | [] => .empty
  | t :: ts =>
    if t.isAssigned ∧ t.scope = scope then
      .tree t (if t.flags.lambda then ofScope t.tangled ts else .empty) (ofScope scope ts)
    else ofScope scope ts

def outline (tokens : List AnnotatedToken) : Forest AnnotatedToken := ofScope none tokens

/-- One line of a printed outline. -/
def line (depth : Nat) (t : AnnotatedToken) : Text :=
  List.replicate (2 * depth) ' ' ++ t.canonicalName ++
    (if t.flags.lambda then " function" else " variable").toList ++
    (if t.flags.amended then " (amend)" else "").toList ++
    ' ' :: Texts.integer t.span.start.line ++ ':' :: Texts.integer t.span.start.column

def lines (tokens : List AnnotatedToken) : List Text :=
  ((outline tokens).preorder 0).map fun (depth,t) => line depth t

/-- The lines before the first that is nested too deep to be printed. -/
def linesWithin (levels : Nat) (tokens : List AnnotatedToken) : List Text :=
  (((outline tokens).preorder 0).takeWhile fun (depth,_) => depth < levels).map
    fun (depth,t) => line depth t

end Outlines
end QScope
