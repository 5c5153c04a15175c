import QScope.TokenExtents
import Mathlib.Data.List.DropRight

/-! # Lines: where they begin, how they end, and where block comments do -/
namespace QScope
open CharacterClasses

namespace Texts

/-- A line begins at the offset zero and behind every newline. -/
def LineStart (t : Text) (k : Nat) : Prop := k = 0 ∨ t[k - 1]? = some '\n'

/-- What stands from an offset to the end of its line. -/
def lineFrom (t : Text) (k : Nat) : Text := firstLine (t.drop k)

theorem newline_notMem_firstLine (t : Text) : '\n' ∉ firstLine t := by
  intro h
  simpa using List.mem_takeWhile_imp h

theorem firstLine_of_notMem {s : Text} (h : '\n' ∉ s) : firstLine s = s := by
  rw [firstLine,List.takeWhile_eq_self_iff]
  intro c hc
  exact bne_iff_ne.mpr fun he => h (he ▸ hc)

theorem firstLine_append {s : Text} (h : '\n' ∉ s) (t : Text) :
    firstLine (s ++ t) = s ++ firstLine t := by
  have hs := firstLine_of_notMem h
  rw [firstLine] at hs
  rw [firstLine,List.takeWhile_append,if_pos (by rw [hs]),firstLine]

theorem firstLine_append_newline {s : Text} (h : '\n' ∉ s) (t : Text) :
    firstLine (s ++ '\n' :: t) = s := by
  rw [firstLine_append h]
  simp [firstLine]

theorem firstLine_append_of_mem {s : Text} (h : '\n' ∈ s) (t : Text) :
    firstLine (s ++ t) = firstLine s := by
  obtain ⟨a,b,rfl,ha⟩ := List.eq_append_cons_of_mem h
  rw [List.append_assoc,List.cons_append,firstLine_append_newline ha,firstLine_append_newline ha]

/-- Behind the first line is its newline. -/
theorem getElem?_firstLine {t : Text} {c : Char} (h : t[(firstLine t).length]? = some c) :
    c = '\n' := by
  by_cases hn : '\n' ∈ t
  · obtain ⟨a,b,rfl,ha⟩ := List.eq_append_cons_of_mem hn
    rw [firstLine_append_newline ha] at h
    simpa using h.symm
  · rw [firstLine_of_notMem hn] at h
    simp at h

/-- The first line, and its newline with the lines behind that. -/
theorem exists_firstLine_append (t : Text) :
    ∃ r, t = firstLine t ++ r ∧ (r = [] ∨ ∃ s, r = '\n' :: s) := by
  by_cases hn : '\n' ∈ t
  · obtain ⟨a,b,rfl,ha⟩ := List.eq_append_cons_of_mem hn
    exact ⟨'\n' :: b,by rw [firstLine_append_newline ha],.inr ⟨b,rfl⟩⟩
  · exact ⟨[],by rw [firstLine_of_notMem hn,List.append_nil],.inl rfl⟩

/-- Induction on the lines of a text, from the last one backwards. -/
@[elab_as_elim]
theorem lineInduction {P : Text → Prop} (last : ∀ s, '\n' ∉ s → P s)
    (line : ∀ s t, '\n' ∉ s → P t → P (s ++ '\n' :: t)) (t : Text) : P t := by
  by_cases h : '\n' ∈ t
  · obtain ⟨a,b,hab,ha⟩ := List.eq_append_cons_of_mem h
    have : b.length < t.length := by simp [hab]; omega
    rw [hab]
    exact line a b ha (lineInduction last line b)
  · exact last t h
termination_by t.length

theorem lines_append_newline {s : Text} (h : '\n' ∉ s) (t : Text) :
    lines (s ++ '\n' :: t) = (s ++ ['\n']) :: lines t := by
  induction s with
  | nil => simp [lines]
  | cons c s ih =>
    simp only [List.mem_cons,not_or] at h
    simp [lines,ih h.2,Ne.symm h.1]

theorem lines_of_notMem {s : Text} (h : '\n' ∉ s) (hs : s ≠ []) : lines s = [s] := by
  induction s with
  | nil => exact absurd rfl hs
  | cons c s ih =>
    simp only [List.mem_cons,not_or] at h
    cases s with
    | nil => simp [lines,Ne.symm h.1]
    | cons d s => rw [lines,if_neg (Ne.symm h.1),ih h.2 (List.cons_ne_nil d s)]

theorem isBlank_newline : isBlank '\n' = true := by decide

theorem trimRight_eq_nil {t : Text} : trimRight t = [] ↔ ∀ c ∈ t, isBlank c = true := by
  simp [trimRight,trimLeft]

/-- What is trimmed ends with no blank. -/
theorem getLast?_trimRight {t : Text} {c : Char} (h : (trimRight t).getLast? = some c) :
    isBlank c = false := by
  rw [trimRight,List.getLast?_reverse,trimLeft] at h
  have hd := List.head?_dropWhile_not isBlank t.reverse
  rw [h] at hd
  simpa using hd

theorem trimRight_trimRight (t : Text) : trimRight (trimRight t) = trimRight t := by
  rw [trimRight,trimRight,List.reverse_reverse,trimLeft,trimLeft,List.dropWhile_idempotent]

/-- What is trimmed off is blank. -/
theorem exists_blank_append (t : Text) : ∃ b, t = trimRight t ++ b ∧ ∀ c ∈ b, isBlank c = true := by
  refine ⟨(t.reverse.takeWhile isBlank).reverse,?_,fun c hc => ?_⟩
  · rw [trimRight,trimLeft,← List.reverse_append,List.takeWhile_append_dropWhile,
      List.reverse_reverse]
  · exact List.mem_takeWhile_imp (List.mem_reverse.mp hc)

theorem trimRight_append_blank (s : Text) {b : Text} (h : ∀ c ∈ b, isBlank c = true) :
    trimRight (s ++ b) = trimRight s := by
  rw [trimRight,trimRight,List.reverse_append,trimLeft,trimLeft,List.dropWhile_append_of_pos]
  intro c hc
  exact h c (List.mem_reverse.mp hc)

theorem trimRight_append {t : Text} (s : Text) (h : trimRight t ≠ []) :
    trimRight (s ++ t) = s ++ trimRight t := by
  have hd : t.reverse.dropWhile isBlank ≠ [] := fun he => h (by rw [trimRight,trimLeft,he]; rfl)
  rw [trimRight,trimRight,List.reverse_append,trimLeft,trimLeft,List.dropWhile_append,if_neg]
  · rw [List.reverse_append,List.reverse_reverse]
  · simpa using hd

theorem trimRight_cons {c : Char} (h : isBlank c = false) (s : Text) :
    trimRight (c :: s) = c :: trimRight s := by
  by_cases hs : trimRight s = []
  · rw [← List.singleton_append,trimRight_append_blank [c] (trimRight_eq_nil.mp hs),hs]
    simp [trimRight,trimLeft,h]
  · exact trimRight_append [c] hs

theorem trimRight_concat_newline (s : Text) : trimRight (s ++ ['\n']) = trimRight s :=
  trimRight_append_blank s (by simp [isBlank_newline])

end Texts

namespace TokenExtents
open Texts

theorem blockComment_append_newline {s : Text} (h : '\n' ∉ s) (t : Text) :
    blockComment (s ++ '\n' :: t) =
      s ++ '\n' :: (if trimRight s = ['\\'] then [] else blockComment t) := by
  rw [blockComment,lines_append_newline h,through,trimRight_concat_newline]
  by_cases hs : trimRight s = ['\\'] <;> simp [hs,blockComment]

theorem blockComment_of_notMem {s : Text} (h : '\n' ∉ s) : blockComment s = s := by
  cases s with
  | nil => rfl
  | cons c s =>
    rw [blockComment,lines_of_notMem h (List.cons_ne_nil c s)]
    simp [through]

theorem blockComment_eq_nil {t : Text} (h : blockComment t = []) : t = [] := by
  induction t using lineInduction with
  | last s hs => rwa [blockComment_of_notMem hs] at h
  | line s t hs _ => simp [blockComment_append_newline hs] at h

/-- A block comment that stops within a text has ended with its closing line, whatever follows. -/
theorem blockComment_append {s u : Text} (h : blockComment (s ++ u) = s) :
    u = [] ∨ (s.getLast? = some '\n' ∧ ∀ v, blockComment (s ++ v) = s) := by
  induction s using lineInduction with
  | last s hs =>
    left
    by_cases hu : '\n' ∈ u
    · obtain ⟨a,b,rfl,ha⟩ := List.eq_append_cons_of_mem hu
      have hsa : '\n' ∉ s ++ a := by simp [hs,ha]
      rw [← List.append_assoc,blockComment_append_newline hsa,List.append_assoc] at h
      simpa using List.append_right_eq_self.mp h
    · have hsu : '\n' ∉ s ++ u := by simp [hs,hu]
      rw [blockComment_of_notMem hsu] at h
      exact List.append_right_eq_self.mp h
  | line s t hs ih =>
    rw [List.append_assoc,List.cons_append,blockComment_append_newline hs] at h
    have ht := (List.cons.inj (List.append_cancel_left h)).2
    by_cases hc : trimRight s = ['\\']
    · rw [if_pos hc] at ht
      subst ht
      right
      refine ⟨by simp,fun v => ?_⟩
      rw [List.append_assoc,List.cons_append,blockComment_append_newline hs,if_pos hc]
    · rw [if_neg hc] at ht
      rcases ih ht with hu | ⟨hl,hv⟩
      · exact Or.inl hu
      · right
        refine ⟨?_,fun v => ?_⟩
        · simp [List.getLast?_append,List.getLast?_cons,hl]
        · rw [List.append_assoc,List.cons_append,blockComment_append_newline hs,if_neg hc,hv]

end TokenExtents

namespace Texts

theorem lineStart_append_newline (s t : Text) {k : Nat} (hk : 0 < k) :
    LineStart (s ++ '\n' :: t) (s.length + k) ↔ LineStart t (k - 1) := by
  have he : (s ++ '\n' :: t)[s.length + k - 1]? = ('\n' :: t)[k - 1]? := by
    rw [List.getElem?_append_right (by omega)]
    congr 1
    omega
  rw [LineStart,LineStart,he]
  obtain ⟨j,rfl⟩ := Nat.exists_eq_add_of_lt hk
  cases j with
  | zero => simp
  | succ j => simp

theorem not_lineStart_of_notMem {s : Text} (h : '\n' ∉ s) (t : Text) {k : Nat} (hk : 0 < k)
    (hl : k ≤ s.length) : ¬ LineStart (s ++ t) k := by
  rintro (h0 | hn)
  · omega
  · rw [List.getElem?_append_left (by omega)] at hn
    exact h (List.mem_of_getElem? hn)

theorem lineFrom_append_newline (s t : Text) (k : Nat) :
    lineFrom (s ++ '\n' :: t) (s.length + 1 + k) = lineFrom t k := by
  rw [lineFrom,lineFrom]
  congr 1
  rw [Nat.add_assoc,← List.drop_drop,List.drop_left,Nat.add_comm,List.drop_succ_cons]

theorem getElem?_lineFrom {t : Text} {k : Nat} {c : Char}
    (h : t[k + (lineFrom t k).length]? = some c) : c = '\n' := by
  rw [← List.getElem?_drop] at h
  exact getElem?_firstLine h

theorem lineFrom_drop (t : Text) (a k : Nat) : lineFrom (t.drop a) k = lineFrom t (a + k) := by
  rw [lineFrom,lineFrom,List.drop_drop]

theorem lineStart_drop {t : Text} {a : Nat} (h : LineStart t a) (k : Nat) :
    LineStart (t.drop a) k ↔ LineStart t (a + k) := by
  cases k with
  | zero => simpa [LineStart] using h
  | succ k => simp [LineStart]

/-- The character before an offset, which is a newline before the first one. -/
def previous (t : Text) (k : Nat) : Char := (t.take k).getLastD '\n'

theorem getElem?_previous {t : Text} {k : Nat} (h0 : 0 < k) (h : k ≤ t.length) :
    t[k - 1]? = some (previous t k) := by
  have hk : k - 1 < t.length := by omega
  have ht : t.take k = t.take (k - 1) ++ [t[k - 1]] := by
    rw [List.take_append_getElem hk]
    congr 1
    omega
  rw [previous,ht,List.getLastD_concat,List.getElem?_eq_getElem hk]

theorem lineStart_iff {t : Text} {k : Nat} (h : k ≤ t.length) :
    LineStart t k ↔ previous t k = '\n' := by
  rcases Nat.eq_zero_or_pos k with rfl | h0
  · simp [LineStart,previous]
  · simp [LineStart,getElem?_previous h0 h,Nat.ne_of_gt h0]

end Texts

namespace TokenExtents
open Texts

/-- A line that closes a block comment, from the offset at which it begins. -/
structure ClosingLine (t : Text) (m : Nat) : Prop where
  start : LineStart t m
  within : m < t.length
  mark : trimRight (lineFrom t m) = ['\\']

theorem closingLine_append_newline {s : Text} (h : '\n' ∉ s) (t : Text) (m : Nat) :
    ClosingLine (s ++ '\n' :: t) m ↔
      (m = 0 ∧ trimRight s = ['\\']) ∨ ∃ k, m = s.length + 1 + k ∧ ClosingLine t k := by
  have hs : lineFrom (s ++ '\n' :: t) 0 = s := by
    rw [lineFrom,List.drop_zero,firstLine_append_newline h]
  constructor
  · rintro ⟨hm,hw,ht⟩
    by_cases h0 : m = 0
    · subst h0
      exact Or.inl ⟨rfl,by rwa [hs] at ht⟩
    · by_cases hl : m ≤ s.length
      · exact absurd hm (not_lineStart_of_notMem h _ (by omega) hl)
      · obtain ⟨k,rfl⟩ := Nat.exists_eq_add_of_le (show s.length + 1 ≤ m by omega)
        refine Or.inr ⟨k,rfl,?_,?_,?_⟩
        · rw [Nat.add_assoc,lineStart_append_newline s t (by omega)] at hm
          simpa using hm
        · rw [List.length_append,List.length_cons] at hw
          omega
        · rwa [lineFrom_append_newline] at ht
  · rintro (⟨rfl,ht⟩ | ⟨k,rfl,hk⟩)
    · have hw : 0 < (s ++ '\n' :: t).length := List.length_pos_iff.mpr (by simp)
      exact ⟨Or.inl rfl,hw,by rwa [hs]⟩
    · refine ⟨?_,?_,?_⟩
      · rw [Nat.add_assoc,lineStart_append_newline s t (by omega)]
        simpa using hk.start
      · have := hk.within
        simp; omega
      · rw [lineFrom_append_newline]
        exact hk.mark

theorem closingLine_drop {t : Text} {a : Nat} (h : LineStart t a) (m : Nat) :
    ClosingLine (t.drop a) m ↔ ClosingLine t (a + m) := by
  constructor
  · rintro ⟨hs,hw,hm⟩
    rw [List.length_drop] at hw
    exact ⟨(lineStart_drop h m).mp hs,by omega,by rwa [← lineFrom_drop]⟩
  · rintro ⟨hs,hw,hm⟩
    refine ⟨(lineStart_drop h m).mpr hs,?_,by rwa [lineFrom_drop]⟩
    rw [List.length_drop]
    omega

/-- A block comment runs to the end of its first closing line, or to the end of the text. -/
theorem blockComment_length (t : Text) :
    ((∀ m, ¬ ClosingLine t m) ∧ blockComment t = t) ∨
    ∃ m, ClosingLine t m ∧ (∀ k < m, ¬ ClosingLine t k) ∧
      blockComment t = t.take (m + (lineFrom t m).length + 1) := by
  induction t using lineInduction with
  | last s h =>
    by_cases hc : ClosingLine s 0
    · refine Or.inr ⟨0,hc,by omega,?_⟩
      rw [blockComment_of_notMem h,lineFrom,List.drop_zero,firstLine_of_notMem h,
        List.take_of_length_le (by omega)]
    · refine Or.inl ⟨fun m hm => ?_,blockComment_of_notMem h⟩
      rcases Nat.eq_zero_or_pos m with rfl | h0
      · exact hc hm
      · have hn := not_lineStart_of_notMem h [] h0 (Nat.le_of_lt hm.within)
        rw [List.append_nil] at hn
        exact hn hm.start
  | line s t h ih =>
    have hl : s.length + 1 = (s ++ ['\n']).length := by simp
    have hst : s ++ '\n' :: t = (s ++ ['\n']) ++ t := by simp
    by_cases hs : trimRight s = ['\\']
    · refine Or.inr ⟨0,(closingLine_append_newline h t 0).mpr (Or.inl ⟨rfl,hs⟩),by omega,?_⟩
      rw [blockComment_append_newline h,if_pos hs,lineFrom,List.drop_zero,
        firstLine_append_newline h,Nat.zero_add,hl,hst,List.take_left]
    · rw [blockComment_append_newline h,if_neg hs]
      rcases ih with ⟨hn,hb⟩ | ⟨m,hm,hf,hb⟩
      · refine Or.inl ⟨fun m hm => ?_,by rw [hb]⟩
        rcases (closingLine_append_newline h t m).mp hm with ⟨_,hc⟩ | ⟨k,_,hk⟩
        · exact hs hc
        · exact hn k hk
      · refine Or.inr ⟨s.length + 1 + m,?_,?_,?_⟩
        · exact (closingLine_append_newline h t _).mpr (Or.inr ⟨m,rfl,hm⟩)
        · intro j hj hc
          rcases (closingLine_append_newline h t j).mp hc with ⟨_,hc⟩ | ⟨k,rfl,hk⟩
          · exact hs hc
          · exact hf k (by omega) hk
        · have hn : s.length + 1 + m + (lineFrom t m).length + 1 =
              (s ++ ['\n']).length + (m + (lineFrom t m).length + 1) := by rw [← hl]; omega
          rw [lineFrom_append_newline,hb,hn,hst,List.take_length_add_append]
          simp

end TokenExtents
end QScope
