import QScope.Namespaces

/-! # Bracket layout: the lambda, the brackets and the namespace that each token stands in -/
namespace QScope.BracketLayout

/-- What an open round or square bracket holds. A round one directly followed by a square one is a
table literal and the square one holds its keys; a square one directly after the brace of a lambda
holds parameters. -/
inductive Role | paren | table | keys | bracket | params
deriving DecidableEq

def Role.isRound : Role → Bool
  | paren | table => true
  | keys | bracket | params => false

/-- The brackets open in one lambda, innermost first, each with the index of its token; and the
number of brackets around the column list of a query, while one is open. Outside any lambda there
is no brace. -/
structure Frame where
  brace : Option Nat
  brackets : List (Nat × Role)
  columns : Option Nat
deriving DecidableEq

namespace Frame

def fresh (brace : Option Nat) : Frame := ⟨brace,[],none⟩

def top? (f : Frame) : Option Role := f.brackets.head?.map (·.2)

def push (f : Frame) (i : Nat) (role : Role) : Frame := {f with brackets := (i,role) :: f.brackets}

/-- The brackets from the nearest one of a shape outwards. -/
def fromNearest (f : Frame) (round : Bool) : List (Nat × Role) :=
  f.brackets.dropWhile fun b => b.2.isRound != round

/-- The index of the nearest open bracket of a shape. -/
def nearest? (f : Frame) (round : Bool) : Option Nat := (f.fromNearest round).head?.map (·.1)

/-- Closes the nearest bracket of a shape and all that were opened after it; without one nothing
happens. A column list ends with the bracket around it. -/
def close (f : Frame) (round : Bool) : Frame :=
  match f.fromNearest round with
  | [] => f
  | _ :: rest => {f with brackets := rest, columns := f.columns.filter (· ≤ rest.length)}

def openColumns (f : Frame) : Frame := {f with columns := some f.brackets.length}

/-- A `from` ends the column list of its own level. -/
def closeColumns (f : Frame) : Frame := {f with columns := f.columns.filter (· != f.brackets.length)}

/-- A semicolon ends the column list of its own level, too. -/
def separate (f : Frame) : Frame := {f with columns := f.columns.filter (· < f.brackets.length)}

/-- Colons define columns, not names, directly inside a table literal, its keys or a column list;
and there are none to assign in a parameter list. -/
def admitsAssignment (f : Frame) : Bool :=
  (match f.top? with
    | some .table | some .keys | some .params => false
    | some .paren | some .bracket | none => true) &&
  f.columns.all (· < f.brackets.length)

/-- The role of a round bracket, from the token after it. -/
def roundRole (following : Option Token) : Role :=
  if following.any (·.kind == .openBracket) then .table else .paren

/-- The role of a square bracket at index `i`. -/
def squareRole (f : Frame) (i : Nat) : Role :=
  if f.brace.any (· + 1 == i) then .params
  else match f.brackets.head? with
    | some (j,.table) => if j + 1 = i then .keys else .bracket
    | _ => .bracket

end Frame

/-- The frame of the innermost open lambda, those around it from the inside out, and the current
namespace. -/
structure Layout where
  inner : Frame
  outer : List Frame
  ns : Option Text
deriving DecidableEq

/-- What the layout says about one token: the brace of its lambda, its namespace, whether it is a
parameter, whether a colon here assigns, and the partner of a closing bracket. -/
structure Place where
  scope : Option Nat
  ns : Option Text
  param : Bool
  admits : Bool
  opener : Option Nat
deriving DecidableEq

namespace Layout

def start (ns : Option Text) : Layout := ⟨.fresh none,[],ns⟩

/-- A new statement leaves every lambda and bracket; only the namespace goes on. -/
def enter (s : Layout) (t : Token) : Layout := if t.startsStatement then start s.ns else s

/-- The layout behind the token at index `i`. -/
def move (s : Layout) (i : Nat) (t : Token) (following : Option Token) : Layout :=
  let ns := Namespaces.after s.ns (!s.outer.isEmpty) t following
  match t.kind with
  | .openBrace => ⟨.fresh (some i),s.inner :: s.outer,ns⟩
  | .closeBrace =>
    match s.outer with
    | [] => s
    | f :: fs => ⟨f,fs,ns⟩
  | .openParen => ⟨s.inner.push i (Frame.roundRole following),s.outer,ns⟩
  | .openBracket => ⟨s.inner.push i (s.inner.squareRole i),s.outer,ns⟩
  | .closeParen => ⟨s.inner.close true,s.outer,ns⟩
  | .closeBracket => ⟨s.inner.close false,s.outer,ns⟩
  | .semicolon => ⟨s.inner.separate,s.outer,ns⟩
  | .keyword =>
    if Keywords.queries.contains t.image then ⟨s.inner.openColumns,s.outer,ns⟩
    else if t.image = "from".toList then ⟨s.inner.closeColumns,s.outer,ns⟩
    else ⟨s.inner,s.outer,ns⟩
  | _ => ⟨s.inner,s.outer,ns⟩

/-- A closing brace stands in the lambda around its own. -/
def scope (s : Layout) (t : Token) : Option Nat :=
  if t.kind = .closeBrace then (s.outer.headD s.inner).brace else s.inner.brace

/-- The bracket that a token closes. -/
def opener? (s : Layout) (t : Token) : Option Nat :=
  match t.kind with
  | .closeParen => s.inner.nearest? true
  | .closeBracket => s.inner.nearest? false
  | _ => none

def place (s : Layout) (t : Token) : Place :=
  ⟨s.scope t,
    Namespaces.ofToken s.ns t,
    t.kind == .identifier && s.inner.top? == some .params,
    t.kind.isAssign && s.inner.admitsAssignment,
    s.opener? t⟩

end Layout

/-- The places of tokens that begin at index `i` in a layout. -/
def places (i : Nat) (s : Layout) : List Token → List Place
  | [] => []
  | t :: ts => (s.enter t).place t :: places (i + 1) ((s.enter t).move i t ts.head?) ts

theorem places_length (i : Nat) (s : Layout) (ts : List Token) :
    (places i s ts).length = ts.length := by
  fun_induction places i s ts <;> simp_all

end QScope.BracketLayout
