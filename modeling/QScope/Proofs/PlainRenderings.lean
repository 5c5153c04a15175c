import QScope.Proofs.FileSnapshots
import QScope.Proofs.LineEnds

/-! # Plain renderings: a coloured rendering is a plain one with sequences for a terminal in it

Where no escape character is said or read, deleting these sequences from what a coloured renderer
displays gives what a plain renderer displays, however the files change in between. -/
namespace QScope

namespace Texts

/-- No sequence for a terminal opens in the text. -/
def NoEscape (t : Text) : Prop := '\x1b' ∉ t

instance (t : Text) : Decidable (NoEscape t) := inferInstanceAs (Decidable (_ ∉ t))

/-- The text without its sequences from an escape character and a bracket to the next `m`. A sequence
that has no end stays. -/
def uncolored : Text → Text
  | [] => []
  | c :: t =>
    if c = '\x1b' ∧ t.head? = some '[' ∧ 'm' ∈ t then uncolored ((t.dropWhile (· != 'm')).drop 1)
    else c :: uncolored t
termination_by t => t.length
decreasing_by
  · have h := (List.dropWhile_suffix (· != 'm') (l := t)).length_le
    simp only [List.length_drop,List.length_cons]
    omega
  · simp

section
variable {s t : Text}

@[simp] theorem uncolored_nil : uncolored [] = [] := by rw [uncolored]

theorem uncolored_cons {c : Char} (hc : c ≠ '\x1b') (t : Text) :
    uncolored (c :: t) = c :: uncolored t := by
  rw [uncolored,if_neg fun h => hc h.1]

theorem uncolored_append (hs : NoEscape s) (t : Text) :
    uncolored (s ++ t) = s ++ uncolored t := by
  induction s with
  | nil => rfl
  | cons c s ih =>
    simp only [NoEscape,List.mem_cons,not_or] at hs
    rw [List.cons_append,uncolored_cons (Ne.symm hs.1),ih hs.2,List.cons_append]

@[simp] theorem noEscape_nil : NoEscape [] := List.not_mem_nil

@[simp] theorem noEscape_cons {c : Char} : NoEscape (c :: t) ↔ c ≠ '\x1b' ∧ NoEscape t := by
  simp [NoEscape,eq_comm]

@[simp] theorem noEscape_append : NoEscape (s ++ t) ↔ NoEscape s ∧ NoEscape t := by
  simp [NoEscape]

@[simp] theorem noEscape_replicate {n : Nat} {c : Char} (hc : c ≠ '\x1b') :
    NoEscape (List.replicate n c) := fun h => hc (List.eq_of_mem_replicate h).symm

@[simp] theorem noEscape_decimal (n : Nat) : NoEscape (decimal n) := by
  intro h
  have hd := Nat.isDigit_of_mem_toDigits (by decide) (by decide) h
  exact absurd hd (by decide)

@[simp] theorem noEscape_integer (n : Int) : NoEscape (integer n) := by
  cases n <;> simp [integer]

@[simp] theorem noEscape_flushRight (width : Nat) : NoEscape (flushRight width t) ↔ NoEscape t := by
  simp [flushRight]

end
end Texts

namespace Diagnostics
open Texts

/-- The texts of a row are plain. -/
def PlainRow (row : List Piece) : Prop := ∀ p ∈ row, NoEscape p.text

section
variable {p : Piece} {row : List Piece} {severity : Severity}

/-- A sequence with its parameters counts for nothing. -/
theorem uncolored_escape {parameters : String} (h : 'm' ∉ parameters.toList) (t : Text) :
    uncolored (escape parameters ++ t) = uncolored t := by
  have hdrop : ('[' :: (parameters.toList ++ 'm' :: t)).dropWhile (· != 'm') = 'm' :: t := by
    rw [List.dropWhile_cons_of_pos (by decide),List.dropWhile_append_of_pos]
    · exact List.dropWhile_cons_of_neg (by decide)
    · intro c hc
      exact bne_iff_ne.mpr fun hm => h (hm ▸ hc)
  have hescape : escape parameters ++ t = '\x1b' :: '[' :: (parameters.toList ++ 'm' :: t) := by
    simp [escape]
  rw [hescape,uncolored,if_pos (by simp),hdrop,List.drop_one,List.tail_cons]

theorem uncolored_opening (style : Style) (t : Text) :
    uncolored (style.opening ++ t) = uncolored t := by
  cases style with
  | alert severity => cases severity <;> exact uncolored_escape (by decide) t
  | bold => exact uncolored_escape (by decide) t
  | margin => exact uncolored_escape (by decide) t

/-- A piece is written between two sequences, or between none. -/
theorem uncolored_writePiece (hp : NoEscape p.text) (t : Text) :
    uncolored (p.write true ++ t) = p.write false ++ uncolored t := by
  obtain ⟨style,text⟩ := p
  cases style with
  | none => exact uncolored_append hp t
  | some style =>
    change uncolored ((style.opening ++ text ++ closing) ++ t) = text ++ uncolored t
    rw [List.append_assoc,List.append_assoc,uncolored_opening,uncolored_append hp,closing,
      uncolored_escape (by decide)]

theorem uncolored_writeRow (h : PlainRow row) (t : Text) :
    uncolored (writeRow true row ++ t) = writeRow false row ++ uncolored t := by
  induction row with
  | nil => rfl
  | cons p row ih =>
    obtain ⟨hp,hrow⟩ := List.forall_mem_cons.mp h
    simp only [writeRow,List.flatMap_cons,List.append_assoc] at ih ⊢
    rw [uncolored_writePiece hp,ih hrow]

theorem uncolored_join {rows : List (List Piece)} (h : ∀ row ∈ rows, PlainRow row) :
    uncolored (join ['\n'] (rows.map (writeRow true))) = join ['\n'] (rows.map (writeRow false)) := by
  induction rows with
  | nil => exact uncolored_nil
  | cons row rows ih =>
    obtain ⟨hrow,hrows⟩ := List.forall_mem_cons.mp h
    have ih := ih hrows
    cases rows with
    | nil =>
      have hone := uncolored_writeRow hrow []
      rw [List.append_nil,uncolored_nil,List.append_nil] at hone
      simpa [join] using hone
    | cons below rows =>
      simp only [List.map_cons,join,List.intercalate_cons_cons,List.append_assoc] at ih ⊢
      rw [uncolored_writeRow hrow,List.singleton_append,uncolored_cons (by decide),ih]
      simp

end

section
variable {severity : Severity} {line : Option Text} {l : Label} {d : Diagnostic}

@[simp] theorem noEscape_spaces (n : Int) : NoEscape (spaces n) :=
  noEscape_replicate (by decide)

@[simp] theorem noEscape_label (severity : Severity) : NoEscape severity.label := by
  cases severity <;> decide

theorem plainRow_header (hc : NoEscape d.code) (hm : NoEscape d.message) : PlainRow (header d) := by
  simp [PlainRow,header,hc,hm]

theorem plainRow_noteRow {note : Text} (h : NoEscape note) : PlainRow (noteRow note) := by
  simp [PlainRow,noteRow,plain,margin,h]

theorem plainRow_sourceRow (number : Int) {line : Text} (h : NoEscape line) :
    PlainRow (sourceRow number line) := by
  simp [PlainRow,sourceRow,plain,margin,h]

theorem plainRow_caretRow (severity : Severity) (s : Span) : PlainRow (caretRow severity s) := by
  simp [PlainRow,caretRow,emptyMargin,plain,margin]

/-- What a label says stands behind the margin of a row of its own. -/
theorem plainRow_labelRows (hf : NoEscape l.span.file) (hm : NoEscape l.message)
    (hl : ∀ t ∈ line, NoEscape t) : ∀ row ∈ labelRows severity line l, PlainRow row := by
  have hlocation : NoEscape l.span.location := by simp [Span.location,hf]
  intro row hrow
  simp only [labelRows,List.mem_append,List.mem_cons,List.not_mem_nil,or_false,List.mem_map,
    Option.mem_toList] at hrow
  obtain (((rfl | rfl) | ⟨t,ht,rfl⟩) | hrow) | hrow := hrow
  · simp [PlainRow,plain,margin,hlocation]
  · simp [PlainRow,emptyMargin,plain,margin]
  · exact plainRow_sourceRow _ (hl t ht)
  · split at hrow
    · simp only [List.mem_singleton] at hrow
      exact hrow ▸ plainRow_caretRow severity l.span
    · cases hrow
  · split at hrow
    · cases hrow
    · simp only [List.mem_singleton] at hrow
      simp [hrow,PlainRow,emptyMargin,plain,margin,hm]

end
end Diagnostics

/-- Nothing that a diagnostic says holds an escape character, and no name of a file in it. -/
structure Diagnostic.IsPlain (d : Diagnostic) : Prop where
  code : Texts.NoEscape d.code
  message : Texts.NoEscape d.message
  labels : ∀ l ∈ d.labels, Texts.NoEscape l.span.file ∧ Texts.NoEscape l.message
  notes : ∀ note ∈ d.notes, Texts.NoEscape note

def Entry.IsPlain : Entry → Prop
  | file content => Texts.NoEscape content
  | directory => True

def FileTree.IsPlain (tree : FileTree) : Prop := ∀ e ∈ tree.entries, e.2.IsPlain

/-- Nothing that a step writes into a file or displays holds an escape character. -/
def RenderStep.IsPlain : RenderStep → Prop
  | write _ e => e.IsPlain
  | delete _ => True
  | display d => d.IsPlain

def Snapshot.IsPlain (files : Snapshot) : Prop := ∀ name, ∀ line ∈ files name, Texts.NoEscape line

section
variable {tree : FileTree} {files : Snapshot} {d : Diagnostic} {s : RenderStep}
  {steps : List RenderStep}
open Texts

/-- A step keeps the files plain if it is plain itself. -/
theorem FileTree.IsPlain.apply (ht : tree.IsPlain) (hs : s.IsPlain) : (s.apply tree).IsPlain := by
  cases s with
  | write p e =>
    intro entry hentry
    rcases List.mem_cons.mp hentry with rfl | hentry
    · exact hs
    · exact ht entry (List.mem_of_mem_filter hentry)
  | delete p =>
    intro entry hentry
    exact ht entry (List.mem_of_mem_filter hentry)
  | display d => exact ht

theorem FileTree.IsPlain.foldl_apply (ht : tree.IsPlain) (hs : ∀ s ∈ steps, s.IsPlain) :
    (steps.foldl RenderStep.apply tree).IsPlain := by
  induction steps generalizing tree with
  | nil => exact ht
  | cons s steps ih =>
    obtain ⟨hs,hsteps⟩ := List.forall_mem_cons.mp hs
    exact ih (ht.apply hs) hsteps

theorem FileTree.IsPlain.file? {p : Path} {content : Text} (ht : tree.IsPlain)
    (h : tree.file? p = some content) : NoEscape content := by
  rw [FileTree.file?] at h
  split at h
  · rename_i t hentry
    obtain rfl := Option.some.inj h
    rw [FileTree.entry?] at hentry
    split at hentry
    · rename_i e hlookup
      obtain rfl := Option.some.inj hentry
      obtain ⟨front,behind,hentries,-⟩ := List.lookup_eq_some_iff.mp hlookup
      exact ht (p,.file t) (by simp [hentries])
    · split at hentry <;> cases hentry
  all_goals cases h

/-- Reading turns some characters into newlines and leaves out others. -/
theorem SourceLines.isPlain_ofFile (ht : tree.IsPlain) : Snapshot.IsPlain (ofFile tree) := by
  intro name line hline hescape
  rw [ofFile] at hline
  split at hline
  · rename_i content hcontent
    obtain ⟨p,-,hfile⟩ := Option.bind_eq_some_iff.mp hcontent
    have hmem := (isInfix_of_mem_lines hline).1.subset hescape
    rcases mem_of_mem_newlines hmem with h | h
    · exact absurd h (by decide)
    · exact ht.file? hfile h
  · cases hline

theorem firstSeen_isPlain (ht : tree.IsPlain) (hs : ∀ s ∈ steps, s.IsPlain) :
    (firstSeen tree steps).IsPlain := by
  intro name
  apply SourceLines.isPlain_ofFile
  apply ht.foldl_apply
  intro s hmem
  exact hs s ((List.takeWhile_sublist _).subset hmem)

/-- The rows of a plain diagnostic are plain. -/
theorem Snapshot.IsPlain.rows (hf : files.IsPlain) (hd : d.IsPlain) :
    ∀ row ∈ Diagnostics.rows files.line? d, Diagnostics.PlainRow row := by
  intro row hrow
  simp only [Diagnostics.rows,List.cons_append,List.mem_cons,List.mem_append,List.mem_flatMap,
    List.mem_map] at hrow
  obtain rfl | ⟨l,hl,hrow⟩ | ⟨note,hnote,rfl⟩ := hrow
  · exact Diagnostics.plainRow_header hd.code hd.message
  · obtain ⟨hfile,hmessage⟩ := hd.labels l hl
    refine Diagnostics.plainRow_labelRows hfile hmessage ?_ row hrow
    intro t ht
    rw [Snapshot.line?] at ht
    split at ht
    · cases ht
    · exact hf _ t (List.mem_of_getElem? ht)
  · exact Diagnostics.plainRow_noteRow (hd.notes note hnote)

/-- Whether a diagnostic can be displayed does not depend on colours. -/
theorem Snapshot.IsPlain.uncolored_display (hf : files.IsPlain) (hd : d.IsPlain) :
    (files.display true d).map uncolored = files.display false d := by
  rw [Snapshot.display,Snapshot.display]
  cases Diagnostics.obstacle? d with
  | some o => rfl
  | none => exact congrArg Except.ok (Diagnostics.uncolored_join (hf.rows hd))

theorem Snapshot.IsPlain.uncolored_shown (hf : files.IsPlain) (hs : s.IsPlain) :
    (s.shown true files).map (Except.map uncolored) = s.shown false files := by
  cases s with
  | write p e => rfl
  | delete p => rfl
  | display d => exact congrArg some (hf.uncolored_display hs)

end

def unusedName : Diagnostic where
  severity := .warning
  code := "UNUSED_VAR".toList
  message := "unused variable 'a'".toList
  labels := [⟨⟨"a.q".toList,⟨1,4⟩,⟨1,4⟩⟩,"here".toList⟩]
  notes := ["'a' is local".toList]

/-- A file is written and shown, and shown once more when it is gone. -/
def shownTwice : List RenderStep :=
  [.write ["a.q".toList] (.file "f:{a:1; 2}".toList),.display unusedName,.delete ["a.q".toList],
    .display unusedName]

def shownText : Text :=
  ("warning[UNUSED_VAR]: unused variable 'a'\n  --> a.q:1:4\n     |\n     1 | f:{a:1; 2}\n" ++
    "     |    ^\n     |   here\n  = note: 'a' is local").toList

end QScope
