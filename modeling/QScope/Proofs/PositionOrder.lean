import Mathlib.Order.Defs.LinearOrder
import QScope.Proofs.Offsets

/-! # Position order: the characters of a text have their positions in the order of their offsets -/
namespace QScope
open Texts

namespace Position
variable {p q r : Position}

theorem le_iff : p ≤ q ↔ p.line < q.line ∨ p.line = q.line ∧ p.column ≤ q.column := Iff.rfl

instance : LT Position := ⟨fun p q => p.line < q.line ∨ p.line = q.line ∧ p.column < q.column⟩

theorem lt_iff : p < q ↔ p.line < q.line ∨ p.line = q.line ∧ p.column < q.column := Iff.rfl

instance : LinearOrder Position where
  lt_iff_le_not_ge p q := by
    rw [le_iff,le_iff,lt_iff]
    omega
  le_refl p := le_iff.mpr (by omega)
  le_trans p q r hpq hqr := by
    rw [le_iff] at *
    omega
  le_antisymm p q hpq hqp := by
    rw [le_iff] at hpq hqp
    obtain ⟨l,c⟩ := p
    obtain ⟨l',c'⟩ := q
    simp only [mk.injEq]
    dsimp only at hpq hqp
    omega
  le_total p q := by
    rw [le_iff,le_iff]
    omega
  toDecidableLE := fun p q => inferInstanceAs (Decidable (p ≤ q))

/-- The position of the character that an editor's zero-based position names. -/
def oneBased (p : Position) : Position := ⟨p.line + 1,p.column + 1⟩

/-- Both coordinates of a position of a text are counted from one. -/
def IsPositive (p : Position) : Prop := 1 ≤ p.line ∧ 1 ≤ p.column

theorem isPositive_ofOffset (t : Text) (k : Nat) : (ofOffset t k).IsPositive := by
  simp only [IsPositive,ofOffset]
  omega

theorem ofOffset_lt_succ {t : Text} {k : Nat} (h : k < t.length) :
    ofOffset t k < ofOffset t (k + 1) := by
  have hk : t[k]? = some t[k] := List.getElem?_eq_getElem h
  rw [lt_iff]
  by_cases hc : t[k] = '\n'
  · left
    rw [← origin_advance_take,← origin_advance_take,List.take_add_one,hk,Option.toList_some,
      advance_append]
    simp only [advance,List.foldl_cons,List.foldl_nil,after,hc,if_true]
    omega
  · right
    rw [ofOffset_succ hk hc]
    exact ⟨rfl,Int.lt_succ _⟩

theorem ofOffset_lt {t : Text} {k n : Nat} (h : k < n) (hn : n ≤ t.length) :
    ofOffset t k < ofOffset t n := by
  induction n, h using Nat.le_induction with
  | base => exact ofOffset_lt_succ hn
  | succ n h ih => exact (ih (Nat.le_of_succ_le hn)).trans (ofOffset_lt_succ hn)

theorem ofOffset_le {t : Text} {k n : Nat} (h : k ≤ n) (hn : n ≤ t.length) :
    ofOffset t k ≤ ofOffset t n := by
  rcases Nat.eq_or_lt_of_le h with rfl | h
  · exact le_rfl
  · exact (ofOffset_lt h hn).le

/-- Within a text, positions are in the order of their offsets and no two offsets share one. -/
theorem ofOffset_le_iff {t : Text} {k n : Nat} (hk : k ≤ t.length) (hn : n ≤ t.length) :
    ofOffset t k ≤ ofOffset t n ↔ k ≤ n := by
  refine ⟨fun h => ?_,fun h => ofOffset_le h hn⟩
  by_contra hlt
  exact absurd (ofOffset_lt (Nat.lt_of_not_le hlt) hk) h.not_gt

theorem ofOffset_inj {t : Text} {k n : Nat} (hk : k ≤ t.length) (hn : n ≤ t.length) :
    ofOffset t k = ofOffset t n ↔ k = n := by
  rw [le_antisymm_iff,ofOffset_le_iff hk hn,ofOffset_le_iff hn hk,Nat.le_antisymm_iff]

end Position

/-- A zero-based position is within a range, whose end is exclusive. -/
def Range.Holds (r : Range) (q : Position) : Prop := r.start ≤ q ∧ q < r.stop

theorem Span.range_of_isPositive {s : Span} (hstart : s.start.IsPositive)
    (hstop : s.stop.IsPositive) :
    s.range = ⟨s.start.zeroBased,⟨s.stop.line - 1,s.stop.column⟩⟩ := by
  have hcoordinate : ∀ n : Int, 1 ≤ n → Range.coordinate (some n) = n := by
    intro n hn
    exact if_neg (by omega)
  rw [Span.range,Range.ofCoordinates,hcoordinate _ hstart.1,hcoordinate _ hstart.2,
    hcoordinate _ hstop.1,hcoordinate _ hstop.2]
  rfl

/-- The range of a span holds the zero-based positions of its characters and no others. -/
theorem Span.holds_range_iff {s : Span} (hstart : s.start.IsPositive)
    (hstop : s.stop.IsPositive) {q : Position} :
    s.range.Holds q ↔ s.contains q.oneBased = true := by
  rw [Range.Holds,Span.range_of_isPositive hstart hstop,Span.contains,Bool.and_eq_true,
    decide_eq_true_eq,decide_eq_true_eq,Position.lt_iff,Position.le_iff,Position.le_iff,
    Position.le_iff]
  simp only [Position.zeroBased,Position.oneBased]
  omega

/-- Behind a span the range of a later one begins. -/
theorem Span.range_stop_le {s r : Span} (hs : s.start.IsPositive ∧ s.stop.IsPositive)
    (hr : r.start.IsPositive ∧ r.stop.IsPositive) (h : s.stop < r.start) :
    s.range.stop ≤ r.range.start := by
  rw [Span.range_of_isPositive hs.1 hs.2,Span.range_of_isPositive hr.1 hr.2,Position.le_iff]
  rw [Position.lt_iff] at h
  simp only [Position.zeroBased]
  omega

end QScope
