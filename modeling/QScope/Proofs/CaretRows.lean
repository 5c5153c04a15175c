import QScope.SourceExcerpts

/-! # Caret rows: where the carets of a place stand below its line

The row of the source has a margin with a number in it, the row of the carets an empty one, and the
two margins have different widths. So the carets begin to the left of the first character of the
place, by two columns or more. -/
namespace QScope

/-- A place within one line, in columns that the line has. -/
structure Span.IsWithin (s : Span) (line : Text) : Prop where
  single : s.start.line = s.stop.line
  first : 1 ≤ s.start.column
  ordered : s.start.column ≤ s.stop.column
  last : s.stop.column ≤ line.length

namespace Texts

/-- A run at the end of a text in which its character does not stand before. -/
theorem getElem?_append_replicate {c : Char} {front : Text} (h : c ∉ front) (n k : Nat) :
    (front ++ List.replicate n c)[k]? = some c ↔ front.length ≤ k ∧ k < front.length + n := by
  by_cases hk : front.length ≤ k
  · rw [List.getElem?_append_right hk,List.getElem?_replicate]
    simp only [Option.ite_none_right_eq_some,and_true]
    omega
  · have hne : (front ++ List.replicate n c)[k]? ≠ some c := by
      rw [List.getElem?_append_left (Nat.lt_of_not_le hk)]
      intro hc
      exact h (List.mem_of_getElem? hc)
    simp [hne,hk]

end Texts

namespace Diagnostics
open Texts

/-- The row with the line of a place, without colours. -/
def sourceText (s : Span) (line : Text) : Text := writeRow false (sourceRow s.start.line line)

/-- The row with the carets of a place, without colours. -/
def caretText (severity : Severity) (s : Span) : Text := writeRow false (caretRow severity s)

/-- A row of the source holds the line from some offset on. Below it there is a caret for each
character of the place and no other, and each stands some number of columns to the left of its
character. -/
def Underlines (source carets line : Text) (s : Span) (shift : Nat) : Prop :=
  ∃ offset : Nat, source.drop offset = line ∧ ∀ k : Nat, carets[k]? = some '^' ↔
    s.start.column ≤ (k + shift : Int) - offset + 1 ∧ (k + shift : Int) - offset + 1 ≤ s.stop.column

/-- How much wider the margin with a number is than the empty one. -/
def caretShift (number : Int) : Nat := max 4 (integer number).length - 2

/-- The carets of a place begin to the left of its first character, so far and no other distance. -/
structure CaretsShifted (source carets line : Text) (s : Span) : Prop where
  apart : 2 ≤ caretShift s.start.line
  stand : ∀ shift, Underlines source carets line s shift ↔ shift = caretShift s.start.line

section
variable {severity : Severity} {s : Span} {line : Text} {d : Diagnostic} {l : Label}

def caretMargin : Text := spaces 5 ++ ['|',' ']

def sourceMargin (number : Int) : Text :=
  spaces 2 ++ flushRight 4 (integer number) ++ [' ','|',' ']

theorem length_sourceMargin (number : Int) :
    (sourceMargin number).length = caretMargin.length + caretShift number := by
  simp only [sourceMargin,caretMargin,caretShift,spaces,flushRight,List.length_append,
    List.length_replicate,List.length_cons,List.length_nil]
  omega

theorem sourceText_eq (s : Span) (line : Text) :
    sourceText s line = sourceMargin s.start.line ++ line := by
  simp [sourceText,sourceMargin,sourceRow,writeRow,Piece.write,plain,margin]

theorem caretText_eq (severity : Severity) (s : Span) :
    caretText severity s =
      caretMargin ++ spaces (indent s) ++ List.replicate (caretCount s).toNat '^' := by
  simp [caretText,caretMargin,caretRow,emptyMargin,writeRow,Piece.write,plain,margin,spaces]

/-- Carets stand from the first column of the place to its last, behind the empty margin. -/
theorem getElem?_caretText (severity : Severity) (hs : s.IsWithin line) (k : Nat) :
    (caretText severity s)[k]? = some '^' ↔
      s.start.column ≤ (k : Int) - caretMargin.length + 1 ∧
        (k : Int) - caretMargin.length + 1 ≤ s.stop.column := by
  have hfront : '^' ∉ caretMargin ++ spaces (indent s) := by
    simp [caretMargin,spaces]
  have hfirst := hs.first
  have hordered := hs.ordered
  rw [caretText_eq,getElem?_append_replicate hfront]
  simp only [List.length_append,spaces,List.length_replicate,indent,caretCount]
  omega

theorem underlines_sourceText (severity : Severity) (hs : s.IsWithin line) :
    Underlines (sourceText s line) (caretText severity s) line s (caretShift s.start.line) := by
  refine ⟨(sourceMargin s.start.line).length,?_,fun k => ?_⟩
  · rw [sourceText_eq,List.drop_left]
  · rw [getElem?_caretText severity hs,length_sourceMargin]
    omega

/-- The first caret and the last settle the distance. -/
theorem caretsShifted (severity : Severity) (hs : s.IsWithin line) :
    CaretsShifted (sourceText s line) (caretText severity s) line s where
  apart := by
    rw [caretShift]
    omega
  stand shift := by
    have hfirst := hs.first
    have hordered := hs.ordered
    have hlast := hs.last
    constructor
    · rintro ⟨offset,hsource,hcarets⟩
      have hoffset : offset = caretMargin.length + caretShift s.start.line := by
        have hlength := congrArg List.length hsource
        rw [sourceText_eq,List.length_drop,List.length_append,length_sourceMargin] at hlength
        omega
      have hk : ∀ k : Nat, (s.start.column ≤ (k : Int) - caretMargin.length + 1 ∧
          (k : Int) - caretMargin.length + 1 ≤ s.stop.column) ↔
          s.start.column ≤ (k + shift : Int) - offset + 1 ∧
            (k + shift : Int) - offset + 1 ≤ s.stop.column := fun k =>
        (getElem?_caretText severity hs k).symm.trans (hcarets k)
      have hstart := (hk (caretMargin.length + (s.start.column - 1).toNat)).mp (by omega)
      have hstop := (hk (caretMargin.length + (s.stop.column - 1).toNat)).mp (by omega)
      omega
    · rintro rfl
      exact underlines_sourceText severity hs

/-- The rows of a place in one line begin with its location and go on with the line and the
carets. -/
theorem labelRows_within (severity : Severity) (hs : l.span.IsWithin line) :
    ∃ below, (labelRows severity (some line) l).map (writeRow false) =
      ("  --> ".toList ++ l.span.location) :: "     |".toList :: sourceText l.span line ::
        caretText severity l.span :: below := by
  have hrows : ∃ below, labelRows severity (some line) l =
      [plain (spaces 2),margin "-->".toList,plain (' ' :: l.span.location)] :: emptyMargin ::
        sourceRow l.span.start.line line :: caretRow severity l.span :: below := by
    rw [labelRows,if_pos hs.single]
    exact ⟨_,rfl⟩
  obtain ⟨below,hrows⟩ := hrows
  refine ⟨below.map (writeRow false),?_⟩
  simp [hrows,writeRow,Piece.write,plain,margin,emptyMargin,sourceText,caretText,spaces]

end
end Diagnostics

open Diagnostics

/-- In what a plain renderer displays, the carets of a place begin two columns or more to the left of
its first character. -/
theorem carets_shifted {r : Renderer} {d : Diagnostic} {l : Label} {line text : Text}
    (hcolor : r.color = false) (hl : l ∈ d.labels) (hline : r.line? l.span = some line)
    (hs : l.span.IsWithin line) (ht : r.display d = .ok text) :
    (∃ above below, text = Texts.join ['\n'] (above ++ ("  --> ".toList ++ l.span.location) ::
      "     |".toList :: sourceText l.span line :: caretText d.severity l.span :: below)) ∧
      CaretsShifted (sourceText l.span line) (caretText d.severity l.span) line l.span := by
  refine ⟨?_,caretsShifted d.severity hs⟩
  have htext : text = r.write d := by
    rw [Renderer.display] at ht
    split at ht
    · cases ht
    · exact (Except.ok.inj ht).symm
  obtain ⟨front,behind,hlabels⟩ := List.append_of_mem hl
  obtain ⟨below,hrows⟩ := labelRows_within d.severity hs
  rw [htext,Renderer.write,Diagnostics.write,hcolor,rows,hlabels]
  simp only [List.flatMap_append,List.flatMap_cons,List.map_cons,List.map_append,hline,hrows]
  simp only [List.cons_append,List.append_assoc]
  exact ⟨_ :: _,_,rfl⟩

def countLabel : Label := ⟨⟨"main.q".toList,⟨1,1⟩,⟨1,5⟩⟩,"built-in name".toList⟩

def countDiagnostic : Diagnostic where
  severity := .error
  code := "ASSIGN_RESERVED_WORD".toList
  message := "assignment to reserved word 'count'".toList
  labels := [countLabel]
  notes := []

def countTree : FileTree := ⟨[(["main.q".toList],.file "count:1".toList)],[]⟩

/-- A renderer that knows the one line of the file. -/
def countRenderer : Renderer := (Renderer.start false).learnAll countTree countDiagnostic

theorem countLabel_isWithin : countLabel.span.IsWithin "count:1".toList :=
  ⟨by decide,by decide,by decide,by decide⟩

theorem line?_countRenderer : countRenderer.line? countLabel.span = some "count:1".toList := by
  decide

theorem carets_shifted_count :
    ∃ text, countRenderer.display countDiagnostic = .ok text ∧
      (∃ above below, text = Texts.join ['\n'] (above ++ "  --> main.q:1:1".toList ::
        "     |".toList :: "     1 | count:1".toList :: "     | ^^^^^".toList :: below)) ∧
      CaretsShifted "     1 | count:1".toList "     | ^^^^^".toList "count:1".toList
        countLabel.span ∧ caretShift 1 = 2 := by
  have ht : countRenderer.display countDiagnostic = .ok (countRenderer.write countDiagnostic) := rfl
  obtain ⟨hrows,hcarets⟩ := carets_shifted rfl (List.mem_singleton_self countLabel)
    line?_countRenderer countLabel_isWithin ht
  exact ⟨_,ht,hrows,hcarets,by decide⟩

/-- The carets of a place are not exactly below its characters. -/
theorem carets_not_below :
    ¬∀ (r : Renderer) (d : Diagnostic) (l : Label) (line text : Text), r.color = false →
      l ∈ d.labels → r.line? l.span = some line → l.span.IsWithin line → r.display d = .ok text →
      Underlines (sourceText l.span line) (caretText d.severity l.span) line l.span 0 := by
  intro h
  have hbelow := h countRenderer countDiagnostic countLabel "count:1".toList _ rfl
    (List.mem_singleton_self countLabel) line?_countRenderer countLabel_isWithin rfl
  have hshift := ((caretsShifted .error countLabel_isWithin).stand 0).mp hbelow
  exact absurd hshift (by decide)

end QScope
