import QScope.Proofs.FileSnapshots
import QScope.Proofs.LineEnds
import QScope.Proofs.LineSplitting
import QScope.Proofs.LintVerdicts

/-! # Source rows: the line that a finding is shown with, and the line that its token starts in

Tokens number lines by newlines, and files are cut at other characters too. The row of a finding
holds the line of its token up to the first of these, but only while none of them stands in a line
before. -/
namespace QScope

namespace Texts

/-- The line of a text with a given number, from one newline to the next. -/
def lineNumbered? (t : Text) (number : Int) : Option Text :=
  if number ≤ 0 then none else (split '\n' t)[number.toNat - 1]?

/-- The lines in front of the one with a given number. -/
def linesBefore (t : Text) (number : Int) : List Text := (split '\n' t).take (number.toNat - 1)

section
variable {s t : Text}

/-- The position behind a beginning of a text is in the line that goes on there. -/
theorem lineNumbered?_append (s t : Text) :
    lineNumbered? (s ++ t) (Position.origin.advance s).line =
      some (behindLast '\n' s ++ firstLine t) := by
  rw [Position.origin_advance,← getElem?_split,lineNumbered?,if_neg (by simp)]
  simp

theorem firstLine_isPrefix (h : s <+: t) : firstLine s <+: firstLine t := by
  obtain ⟨u,rfl⟩ := h
  by_cases hs : '\n' ∈ s
  · simp [firstLine_append_of_mem hs]
  · rw [firstLine_append hs,firstLine_of_notMem hs]
    exact List.prefix_append _ _

end
end Texts

namespace Renderer
variable {tree : FileTree} {d : Diagnostic} {s : Span}

/-- A fresh renderer looks into the files as they are. -/
theorem line?_learnAll_start (color : Bool) (h : s.file ∈ d.files) :
    ((start color).learnAll tree d).line? s = Snapshot.line? (SourceLines.ofFile tree) s := by
  change Snapshot.line? (((start color).learnAll tree d).overlay fun _ => []) s = _
  rw [Snapshot.line?,overlay_learnAll,if_pos h]
  rfl

end Renderer

namespace Linting
open Annotating Lexing Texts SourceLines

/-- The fourth row that a fresh renderer writes of a finding is the one of the source, with the
given line. -/
def ShowsSource (color : Bool) (tree : FileTree) (f : Finding) (shown : Text) : Prop :=
  (Diagnostics.rows ((Renderer.start color).learnAll tree f.diagnostic).line? f.diagnostic)[3]? =
    some (Diagnostics.sourceRow f.token.span.start.line shown)

instance (color : Bool) (tree : FileTree) (f : Finding) (shown : Text) :
    Decidable (ShowsSource color tree f shown) :=
  inferInstanceAs (Decidable (_ = _))

/-- The line that the token of a finding starts in, and what is shown of the file. With newlines only
in front, that is the line up to its first line end; behind another line end it is a part of a line
before. -/
structure Excerpted (color : Bool) (tree : FileTree) (t : Text) (f : Finding) (line shown : Text) :
    Prop where
  numbered : lineNumbered? t f.token.span.start.line = some line
  stands : firstLine f.token.image <+: line.drop (f.token.span.start.column - 1).toNat
  row : ShowsSource color tree f shown
  intact : (∀ l ∈ linesBefore t f.token.span.start.line, ∀ c ∈ l, isLineEnd c = false) →
    shown = firstPart line
  own : (∀ l ∈ linesBefore t f.token.span.start.line, ∀ c ∈ l, isLineEnd c = false) →
    (shown = line ↔ ∀ c ∈ line, isLineEnd c = false)
  displaced : (∃ l ∈ linesBefore t f.token.span.start.line, ∃ c ∈ l, isLineEnd c = true) →
    ∃ l ∈ linesBefore t f.token.span.start.line, shown <:+: l

section
variable {tree : FileTree} {name t shown : Text}
  {s : Nat × Nat} {f : Finding} {x : AnnotatedToken}

/-- No token begins with a newline. -/
theorem getElem?_slice_ne (hs : s ∈ slices t) : t[s.1]? ≠ some '\n' := by
  obtain ⟨y,hy,ht,rfl⟩ := mem_slices.mp hs
  intro hn
  rw [shape_of_newline (found_of_mem hy) hn] at ht
  cases ht

/-- The first line of an image stands in the line of its token, at the column of the token. -/
theorem exists_line (hx : x ∈ parse name t) :
    ∃ line, lineNumbered? t x.span.start.line = some line ∧ line ≠ [] ∧
      firstLine x.image <+: line.drop (x.span.start.column - 1).toNat := by
  obtain ⟨s,hs,hd⟩ := exists_described (tokenize_described name t) (toToken_mem_tokenize hx)
  obtain ⟨hlt,hle⟩ := slices_within hs
  have hstart : x.span.start = Position.origin.advance (t.take s.1) :=
    hd.start.trans (Position.origin_advance_take t s.1).symm
  have hnumbered := lineNumbered?_append (t.take s.1) (t.drop s.1)
  rw [List.take_append_drop,← hstart] at hnumbered
  refine ⟨_,hnumbered,?_,?_⟩
  · have hhead : (t.drop s.1).head? ≠ some '\n' := by
      rw [List.head?_drop]
      exact getElem?_slice_ne hs
    cases hdrop : t.drop s.1 with
    | nil =>
      have hlength := congrArg List.length hdrop
      simp only [List.length_drop,List.length_nil] at hlength
      omega
    | cons c rest =>
      rw [hdrop,List.head?_cons] at hhead
      have hc : c ≠ '\n' := fun hc => hhead (congrArg some hc)
      simp [firstLine,hc]
  · have hcolumn : (x.span.start.column - 1).toNat = (behindLast '\n' (t.take s.1)).length := by
      rw [hstart,Position.origin_advance]
      simp
    have himage : x.image <+: t.drop s.1 := by
      have h : x.image = (t.take s.2).drop s.1 := hd.image
      rw [h,List.drop_take]
      exact List.take_prefix _ _
    rw [hcolumn,List.drop_left]
    exact firstLine_isPrefix himage

/-- The rows of a finding, with the line that its span starts on. -/
theorem rows_finding {found : Span → Option Text} (h : found f.token.span = some shown) :
    (Diagnostics.rows found f.diagnostic)[3]? =
      some (Diagnostics.sourceRow f.token.span.start.line shown) := by
  simp [Diagnostics.rows,Diagnostics.labelRows,Finding.diagnostic,h]

/-- What a fresh renderer finds is the line of the file with the same number. -/
theorem line?_of_finding (color : Bool) (hfile : tree.fileNamed? name = some t) (hcr : '\r' ∉ t)
    (hx : f.token ∈ parse name t) :
    ((Renderer.start color).learnAll tree f.diagnostic).line? f.token.span =
      if f.token.span.start.line ≤ 0 then none
      else (SourceLines.lines t)[f.token.span.start.line.toNat - 1]? := by
  have hmem : f.token.span.file ∈ f.diagnostic.files := List.mem_singleton_self _
  obtain ⟨s,-,hd⟩ := exists_described (tokenize_described name t) (toToken_mem_tokenize hx)
  have hname : f.token.span.file = name := hd.file
  rw [Renderer.line?_learnAll_start color hmem,Snapshot.line?,hname,ofFile,hfile]
  simp only [newlines_eq_self hcr]

end

/-- A finding is shown with a line of its file, and with its own where newlines alone end lines. -/
theorem lint_excerpted (color : Bool) {tree : FileTree} {disabled : List Text} {name t : Text}
    {f : Finding} (hfile : tree.fileNamed? name = some t) (hcr : '\r' ∉ t)
    (hf : f ∈ lint disabled (parse name t)) :
    ∃ line shown, Excerpted color tree t f line shown := by
  have hx := token_mem_of_mem_lint hf
  obtain ⟨line,hline,hne,hstands⟩ := exists_line hx
  have hfound := line?_of_finding color hfile hcr hx
  have hsplit := hline
  rw [lineNumbered?] at hsplit
  split at hsplit
  · cases hsplit
  rename_i hpos
  rw [if_neg hpos] at hfound
  by_cases hi : ∀ l ∈ linesBefore t f.token.span.start.line, ∀ c ∈ l, isLineEnd c = false
  · rw [getElem?_lines_of_intact hsplit hne hi] at hfound
    refine ⟨line,firstPart line,hline,hstands,rows_finding hfound,fun _ => rfl,fun _ => ?_,?_⟩
    · constructor
      · intro h c hc
        rw [← h] at hc
        simpa using List.mem_takeWhile_imp hc
      · exact firstPart_of_intact
    · rintro ⟨l,hl,c,hc,he⟩
      rw [hi l hl c hc] at he
      cases he
  · have hd : ∃ l ∈ linesBefore t f.token.span.start.line, ∃ c ∈ l, isLineEnd c = true := by
      simpa using hi
    obtain ⟨shown,hshown,hpart⟩ := exists_of_displaced hsplit hd
    rw [hshown] at hfound
    exact ⟨line,shown,hline,hstands,rows_finding hfound,fun h => absurd h hi,
      fun h => absurd h hi,fun _ => hpart⟩

/-- A form feed in a comment, and an error in the line below. -/
def formFeedText : Text := "/ a\x0cb\ncount:1".toList

def formFeedTree : FileTree := ⟨[(["main.q".toList],.file formFeedText)],[]⟩

/-- The error is shown with what stands behind the form feed. -/
theorem lint_excerpted_formFeed :
    formFeedTree.fileNamed? "main.q".toList = some formFeedText ∧ '\r' ∉ formFeedText ∧
      ∃ f ∈ lint [] (parse "main.q".toList formFeedText), ∃ shown,
        ShowsSource false formFeedTree f shown ∧ shown <:+: "/ a\x0cb".toList := by
  have hfile : formFeedTree.fileNamed? "main.q".toList = some formFeedText := by decide
  have hcr : '\r' ∉ formFeedText := by decide
  obtain ⟨f,hf,hbefore⟩ : ∃ f ∈ lint [] (parse "main.q".toList formFeedText),
      linesBefore formFeedText f.token.span.start.line = ["/ a\x0cb".toList] := by
    decide +kernel
  obtain ⟨line,shown,h⟩ := lint_excerpted false hfile hcr hf
  have hpart := h.displaced
  rw [hbefore] at hpart
  obtain ⟨l,hl,hshown⟩ := hpart ⟨_,List.mem_singleton_self _,'\x0c',by decide,by decide⟩
  rw [List.mem_singleton.mp hl] at hshown
  exact ⟨hfile,hcr,f,hf,shown,h.row,hshown⟩

/-- The line that is shown is not always the one that the token starts in. -/
theorem other_line_shown :
    ¬∀ (tree : FileTree) (name t : Text) (f : Finding), tree.fileNamed? name = some t → '\r' ∉ t →
      f ∈ lint [] (parse name t) → ∃ line, lineNumbered? t f.token.span.start.line = some line ∧
        ShowsSource false tree f line := by
  intro h
  obtain ⟨f,hf,hline,hshown⟩ : ∃ f ∈ lint [] (parse "main.q".toList formFeedText),
      lineNumbered? formFeedText f.token.span.start.line = some "count:1".toList ∧
        ¬ShowsSource false formFeedTree f "count:1".toList := by
    decide +kernel
  obtain ⟨line,hl,hs⟩ := h formFeedTree "main.q".toList formFeedText f (by decide) (by decide) hf
  obtain rfl := Option.some.inj (hline.symm.trans hl)
  exact hshown hs

end Linting
end QScope
