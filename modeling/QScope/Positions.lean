import QScope.Obstacles

/-! # Positions and spans: one-based lines and columns, both ends inclusive -/
namespace QScope

/-- A line and a column, both counted from one; a column counts code points. -/
structure Position where
  line : Int
  column : Int
deriving DecidableEq

namespace Position

def origin : Position := ⟨1,1⟩

/-- The position that follows a character: only a newline ends a line. -/
def after (p : Position) (c : Char) : Position :=
  if c = '\n' then ⟨p.line + 1,1⟩ else ⟨p.line,p.column + 1⟩

def advance (p : Position) (t : Text) : Position := t.foldl after p

theorem advance_append (p : Position) (s t : Text) :
    p.advance (s ++ t) = (p.advance s).advance t := List.foldl_append

instance : LE Position := ⟨fun p q => p.line < q.line ∨ (p.line = q.line ∧ p.column ≤ q.column)⟩

instance (p q : Position) : Decidable (p ≤ q) :=
  inferInstanceAs (Decidable (p.line < q.line ∨ (p.line = q.line ∧ p.column ≤ q.column)))

/-- Whether an editor can name a zero-based position. -/
def isAddressable (p : Position) : Bool :=
  [p.line,p.column].all fun n => 0 ≤ n && n ≤ Limits.coordinate

end Position

/-- A stretch of a file, from the position of its first character to that of its last. -/
structure Span where
  file : Text
  start : Position
  stop : Position
deriving DecidableEq

namespace Span

def contains (s : Span) (p : Position) : Bool := s.start ≤ p && p ≤ s.stop

/-- `file:line:column` of the first character. -/
def location (s : Span) : Text :=
  s.file ++ ':' :: Texts.integer s.start.line ++ ':' :: Texts.integer s.start.column

end Span

/-- Zero-based lines and characters, the end exclusive. -/
structure Range where
  start : Position
  stop : Position
deriving DecidableEq

namespace Range

/-- A one-based coordinate; one that is absent or zero counts as the first. -/
def coordinate (n : Option Int) : Int :=
  match n with
  | none => 1
  | some n => if n = 0 then 1 else n

def ofCoordinates (startLine startColumn endLine endColumn : Option Int) : Range :=
  ⟨⟨coordinate startLine - 1,coordinate startColumn - 1⟩,
    ⟨coordinate endLine - 1,coordinate endColumn⟩⟩

/-- A range for an editor, which must be able to name both ends. -/
def addressable (r : Range) : Except Obstacle Range :=
  if r.start.isAddressable && r.stop.isAddressable then .ok r else .error .coordinate

end Range

def Span.range (s : Span) : Range :=
  .ofCoordinates (some s.start.line) (some s.start.column) (some s.stop.line) (some s.stop.column)

end QScope
