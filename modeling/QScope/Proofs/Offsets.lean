import QScope.Positions
import Mathlib.Data.List.Induction
import Mathlib.Data.List.TakeWhile

/-! # Offsets: the place of a character as a count of those before it

A position can be read off the characters before an offset. An editor goes the other way: its
zero-based line and character name an offset. -/
namespace QScope
open Texts

namespace Texts

/-- The characters from one offset up to another. -/
def slice (t : Text) (start stop : Nat) : Text := (t.take stop).drop start

theorem slice_append (s x r : Text) :
    slice (s ++ (x ++ r)) s.length (s.length + x.length) = x := by
  rw [slice,List.take_length_add_append,List.drop_left,List.take_left]

/-- What stands behind the last occurrence of a character, or the whole text without one. -/
def behindLast (d : Char) (t : Text) : Text := (t.reverse.takeWhile (· != d)).reverse

@[simp] theorem behindLast_nil (d : Char) : behindLast d [] = [] := rfl

theorem behindLast_concat (d : Char) (t : Text) (c : Char) :
    behindLast d (t ++ [c]) = if c = d then [] else behindLast d t ++ [c] := by
  by_cases h : c = d <;> simp [behindLast,h]

theorem behindLast_of_getLastD {d : Char} {t : Text} (h : t.getLastD d = d) :
    behindLast d t = [] := by
  rcases List.eq_nil_or_concat t with rfl | ⟨s,c,rfl⟩
  · rfl
  · rw [List.concat_eq_append,List.getLastD_concat] at h
    rw [List.concat_eq_append,behindLast_concat,if_pos h]

theorem behindLast_append_cons (d : Char) (s t : Text) :
    behindLast d (s ++ d :: t) = behindLast d t := by
  have h : (t.reverse ++ d :: s.reverse).takeWhile (· != d) = t.reverse.takeWhile (· != d) := by
    induction t.reverse with
    | nil => simp
    | cons c r ih => rw [List.cons_append,List.takeWhile_cons,List.takeWhile_cons,ih]
  rw [behindLast,List.reverse_append,List.reverse_cons,List.append_assoc,List.singleton_append,h,
    behindLast]

theorem behindLast_of_notMem {d : Char} {t : Text} (h : d ∉ t) : behindLast d t = t := by
  have hall : t.reverse.takeWhile (· != d) = t.reverse := by
    rw [List.takeWhile_eq_self_iff]
    intro c hc
    simp only [List.mem_reverse] at hc
    exact bne_iff_ne.mpr fun he => h (he ▸ hc)
  rw [behindLast,hall,List.reverse_reverse]

theorem behindLast_cons_of_mem {d : Char} {t : Text} (c : Char) (h : d ∈ t) :
    behindLast d (c :: t) = behindLast d t := by
  obtain ⟨r,s,rfl⟩ := List.append_of_mem h
  rw [← List.cons_append,behindLast_append_cons,behindLast_append_cons]

theorem isSuffix_behindLast (d : Char) (t : Text) : behindLast d t <:+ t := by
  have h := List.takeWhile_prefix (· != d) (l := t.reverse)
  rw [← List.reverse_suffix,List.reverse_reverse] at h
  exact h

/-- The offset at which the line with a given zero-based number begins. -/
def lineOffset : Nat → Text → Nat
  | 0,_ => 0
  | _ + 1,[] => 0
  | n + 1,c :: t => (if c = '\n' then lineOffset n t else lineOffset (n + 1) t) + 1

/-- An offset is the offset of its line and the characters that stand before it there. -/
theorem lineOffset_count (s t : Text) :
    lineOffset (s.count '\n') (s ++ t) + (behindLast '\n' s).length = s.length := by
  induction s with
  | nil => simp [lineOffset]
  | cons c s ih =>
    by_cases hc : c = '\n'
    · subst hc
      have hl : behindLast '\n' ('\n' :: s) = behindLast '\n' s := behindLast_append_cons _ [] s
      simp only [List.count_cons_self,List.cons_append,lineOffset,if_true,hl,List.length_cons]
      omega
    · rw [List.count_cons_of_ne hc]
      by_cases hs : '\n' ∈ s
      · obtain ⟨n,hn⟩ := Nat.exists_eq_add_of_lt (List.count_pos_iff.mpr hs)
        rw [Nat.zero_add] at hn
        rw [hn] at ih ⊢
        simp only [List.cons_append,lineOffset,if_neg hc,behindLast_cons_of_mem c hs,
          List.length_cons]
        omega
      · have hcs : '\n' ∉ c :: s := by simp [hs,Ne.symm hc]
        rw [List.count_eq_zero.mpr hs,behindLast_of_notMem hcs,lineOffset,Nat.zero_add]

end Texts

namespace Position

/-- The position of the character at an offset: the newlines before it number its line, the
characters behind the last of them its column. -/
def ofOffset (t : Text) (k : Nat) : Position :=
  ⟨(t.take k).count '\n' + 1,(behindLast '\n' (t.take k)).length + 1⟩

theorem origin_advance (t : Text) :
    origin.advance t = ⟨t.count '\n' + 1,(behindLast '\n' t).length + 1⟩ := by
  induction t using List.reverseRecOn with
  | nil => rfl
  | append_singleton t c ih =>
    rw [advance_append,ih,behindLast_concat]
    by_cases h : c = '\n' <;> simp [advance,after,h]

theorem line_advance (p : Position) (t : Text) : (p.advance t).line = p.line + t.count '\n' := by
  induction t generalizing p with
  | nil => simp [advance]
  | cons c t ih =>
    rw [advance,List.foldl_cons,← advance,ih]
    by_cases hc : c = '\n'
    · simp only [after,hc,if_true,List.count_cons_self]
      omega
    · simp [after,hc]

theorem line_advance_of_notMem (p : Position) {t : Text} (h : '\n' ∉ t) :
    (p.advance t).line = p.line := by
  rw [line_advance,List.count_eq_zero.mpr h]
  exact Int.add_zero _

theorem origin_advance_take (t : Text) (k : Nat) : origin.advance (t.take k) = ofOffset t k :=
  origin_advance _

theorem ofOffset_append (s t : Text) : ofOffset (s ++ t) s.length = origin.advance s := by
  rw [← origin_advance_take,List.take_left]

theorem ofOffset_succ {t : Text} {k : Nat} {c : Char} (h : t[k]? = some c) (hc : c ≠ '\n') :
    ofOffset t (k + 1) = ⟨(ofOffset t k).line,(ofOffset t k).column + 1⟩ := by
  rw [← origin_advance_take,← origin_advance_take,List.take_add_one,h,Option.toList_some,
    advance_append]
  simp [advance,after,hc]

/-- A position with its line and its column counted from zero, as an editor counts them. -/
def zeroBased (p : Position) : Position := ⟨p.line - 1,p.column - 1⟩

/-- The offset that a zero-based position names in a text. -/
def offset (t : Text) (p : Position) : Nat := lineOffset p.line.toNat t + p.column.toNat

theorem offset_ofOffset {t : Text} {k : Nat} (h : k ≤ t.length) :
    offset t (ofOffset t k).zeroBased = k := by
  have hc := lineOffset_count (t.take k) (t.drop k)
  rw [List.take_append_drop,List.length_take,min_eq_left h] at hc
  simpa [offset,ofOffset,zeroBased] using hc

end Position

namespace Range

/-- The range of the characters from one offset up to another. -/
def ofOffsets (t : Text) (start stop : Nat) : Range :=
  ⟨(Position.ofOffset t start).zeroBased,(Position.ofOffset t stop).zeroBased⟩

end Range

/-- A span that ends within a line has its last character's place as its exclusive end. -/
theorem Span.range_ofOffset (file : Text) {t : Text} {k n : Nat} {c : Char} (h : t[n]? = some c)
    (hc : c ≠ '\n') :
    Span.range ⟨file,.ofOffset t k,.ofOffset t n⟩ = .ofOffsets t k (n + 1) := by
  have hpos : ∀ m : Nat, ((m : Int) + 1 = 0) = False := fun m => by simp; omega
  rw [Range.ofOffsets,Position.ofOffset_succ h hc]
  simp [Span.range,Range.ofCoordinates,Range.coordinate,Position.ofOffset,Position.zeroBased,hpos]

end QScope
