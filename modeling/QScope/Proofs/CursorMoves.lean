import QScope.Proofs.Lookahead
import QScope.Proofs.Scanning

/-! # Cursor moves: loops that end, and how far a cursor is behind them

A loop of a cursor is described by an extent: how many characters it goes over, as a function of
what is ahead. -/
namespace QScope
open CharacterClasses TokenExtents Texts Lexing

namespace TokenExtents

theorem run_cons (p : Char → Bool) (a : Char) (t : Text) :
    run p (a :: t) = if p a then run p t + 1 else 0 := by
  rw [run,run,List.takeWhile_cons]
  split <;> rfl

theorem run_of_stops {p : Char → Bool} {t : Text} (h : startsWith p t = false) : run p t = 0 := by
  cases t with
  | nil => rfl
  | cons a t => rw [run_cons,if_neg (by rw [← startsWith_cons p a t,h]; exact Bool.false_ne_true)]

theorem startsWith_drop_run (p : Char → Bool) (t : Text) :
    startsWith p (t.drop (run p t)) = false := by
  induction t with
  | nil => rfl
  | cons a t ih =>
    rw [run_cons]
    split
    · rwa [List.drop_succ_cons]
    · rename_i ha
      simpa [startsWith_cons] using ha

theorem run_eq_zero_iff {p : Char → Bool} {t : Text} : run p t = 0 ↔ startsWith p t = false := by
  refine ⟨fun h => ?_,run_of_stops⟩
  have := startsWith_drop_run p t
  rwa [h,List.drop_zero] at this

theorem take_run (p : Char → Bool) (t : Text) : t.take (run p t) = t.takeWhile p :=
  (List.prefix_iff_eq_take.mp (List.takeWhile_prefix p)).symm

end TokenExtents

namespace Scanning

section
variable {σ : Type} {more : σ → Bool} {step : σ → Option σ} {s r : σ}

theorem repeatWhile_stop (n : Nat) (h : more s = false) : repeatWhile more step n s = some s := by
  cases n with
  | zero => rw [repeatWhile,h,if_neg Bool.false_ne_true]
  | succ n => rw [repeatWhile,h,if_neg Bool.false_ne_true]

theorem repeatWhile_step (n : Nat) (h : more s = true) (hr : step s = some r) :
    repeatWhile more step (n + 1) s = repeatWhile more step n r := by
  rw [repeatWhile,h,if_pos rfl,hr]
  rfl

/-- A loop ends if each step leaves less to do and does not change what the result will be. -/
theorem repeatWhile_eq {P : σ → Prop} (result : σ → σ) (size : σ → Nat)
    (stop : ∀ s, P s → more s = false → result s = s)
    (go : ∀ s, P s → more s = true →
      ∃ r, step s = some r ∧ P r ∧ size r < size s ∧ result r = result s)
    {n : Nat} (h : P s) (hn : size s ≤ n) : repeatWhile more step n s = some (result s) := by
  induction n generalizing s with
  | zero =>
    cases hm : more s with
    | false => rw [repeatWhile_stop 0 hm,stop s h hm]
    | true =>
      obtain ⟨r,-,-,hsize,-⟩ := go s h hm
      omega
  | succ n ih =>
    cases hm : more s with
    | false => rw [repeatWhile_stop (n + 1) hm,stop s h hm]
    | true =>
      obtain ⟨r,hr,hpr,hsize,hresult⟩ := go s h hm
      rw [repeatWhile_step n hm hr,ih hpr (by omega),hresult]

end

namespace Cursor

/-- What is ahead of a cursor. -/
def ahead (text : Text) (c : Cursor) : Text := text.drop c.offset

/-- The cursor some characters on. -/
def skip (text : Text) (n : Nat) (c : Cursor) : Cursor :=
  ⟨c.offset + n,c.position.advance ((c.ahead text).take n)⟩

section
variable {text : Text} {c : Cursor} {a : Char} {rest : Text} {n : Nat}

@[simp] theorem skip_zero (text : Text) (c : Cursor) : c.skip text 0 = c := rfl

@[simp] theorem ahead_skip (text : Text) (n : Nat) (c : Cursor) :
    (c.skip text n).ahead text = (c.ahead text).drop n :=
  List.drop_drop.symm

theorem skip_skip (text : Text) (m n : Nat) (c : Cursor) :
    (c.skip text m).skip text n = c.skip text (m + n) := by
  simp only [skip,ahead,Cursor.mk.injEq]
  rw [← Position.advance_append,← List.drop_drop,List.take_add]
  exact ⟨Nat.add_assoc _ m n,rfl⟩

theorem getElem?_ahead (text : Text) (c : Cursor) (n : Nat) :
    text[c.offset + n]? = (c.ahead text)[n]? :=
  List.getElem?_drop.symm

theorem getElem?_offset (text : Text) (c : Cursor) : text[c.offset]? = (c.ahead text).head? := by
  rw [ahead,List.head?_drop]

theorem length_ahead (text : Text) (c : Cursor) : (c.ahead text).length = text.length - c.offset :=
  List.length_drop

theorem length_ahead_le (text : Text) (c : Cursor) : (c.ahead text).length ≤ text.length := by
  rw [length_ahead]
  exact Nat.sub_le _ _

theorem isInside_eq (text : Text) (c : Cursor) : c.isInside text = !(c.ahead text).isEmpty := by
  rw [Bool.eq_iff_iff]
  simp [isInside,ahead]

theorem isBefore_eq (text : Text) (p : Char → Bool) (c : Cursor) :
    c.isBefore text p = startsWith p (c.ahead text) := by
  rw [isBefore,getElem?_offset,startsWith]

theorem peek_eq (text : Text) (n : Nat) (c : Cursor) :
    c.peek text n = (c.ahead text)[n]?.getD '\x00' := by
  rw [peek,getElem?_ahead]

/-- A class without NUL is not seen behind the end of the text. -/
theorem apply_peek {p : Char → Bool} (hp : p '\x00' = false) (n : Nat) (c : Cursor) :
    p (c.peek text n) = startsWith p ((c.ahead text).drop n) := by
  rw [peek_eq,startsWith,List.head?_drop]
  cases (c.ahead text)[n]? with
  | none => exact hp
  | some a => rfl

theorem peek_zero (h : c.ahead text = a :: rest) : c.peek text 0 = a := by
  rw [peek_eq,h]
  rfl

theorem peek_one {p : Char → Bool} (hp : p '\x00' = false) (h : c.ahead text = a :: rest) :
    p (c.peek text 1) = startsWith p rest := by
  rw [apply_peek hp,h]
  rfl

theorem peek_two {p : Char → Bool} (hp : p '\x00' = false) (h : c.ahead text = a :: rest) :
    p (c.peek text 2) = startsWith p (rest.drop 1) := by
  rw [apply_peek hp,h]
  rfl

theorem peek_succ (text : Text) (n : Nat) (c : Cursor) :
    (c.skip text 1).peek text n = c.peek text (n + 1) := by
  rw [peek,peek,skip,Nat.add_assoc,Nat.add_comm 1]

theorem advance_eq (h : c.ahead text = a :: rest) : c.advance text = some (c.skip text 1) := by
  rw [advance,getElem?_offset,h,skip,h]
  rfl

/-- Only at the end of the text is there nothing to go over. -/
theorem advance_eq_none_iff : c.advance text = none ↔ text.length ≤ c.offset := by
  rw [advance,Option.map_eq_none_iff,List.getElem?_eq_none_iff]

theorem advanceBy_eq (h : n ≤ (c.ahead text).length) :
    c.advanceBy text n = some (c.skip text n) := by
  induction n generalizing c with
  | zero => rfl
  | succ n ih =>
    obtain ⟨a,rest,ha⟩ := List.exists_cons_of_length_pos (Nat.zero_lt_of_lt h)
    rw [advanceBy,advance_eq ha]
    simp only [Option.bind_eq_bind,Option.bind_some]
    rw [ih,skip_skip,Nat.add_comm]
    rw [ahead_skip,List.length_drop]
    omega

/-- A loop of a cursor goes on by as many characters as its steps add up to. -/
theorem repeatWhile_skip (text : Text) {more : Cursor → Bool} {step : Cursor → Option Cursor}
    (extent : Text → Nat) (stop : ∀ c, more c = false → extent (c.ahead text) = 0)
    (go : ∀ c, more c = true → ∃ n, 0 < n ∧ n ≤ (c.ahead text).length ∧
      step c = some (c.skip text n) ∧ extent (c.ahead text) = n + extent ((c.ahead text).drop n))
    (c : Cursor) :
    repeatWhile more step text.length c = some (c.skip text (extent (c.ahead text))) := by
  refine repeatWhile_eq (P := fun _ => True) (fun c : Cursor => c.skip text (extent (c.ahead text)))
    (fun c => (c.ahead text).length) (fun c _ h => ?_) (fun c _ h => ?_) trivial
    (length_ahead_le text c)
  · rw [stop c h,skip_zero]
  · obtain ⟨n,hpos,hle,hstep,hext⟩ := go c h
    refine ⟨c.skip text n,hstep,trivial,?_,?_⟩
    · rw [ahead_skip,List.length_drop]
      omega
    · rw [ahead_skip,skip_skip,hext]

/-- A loop that goes over single characters of a class. -/
theorem repeatWhile_run {more : Cursor → Bool} {p : Char → Bool}
    (h : ∀ c, more c = startsWith p (c.ahead text)) (c : Cursor) :
    repeatWhile more (advance text) text.length c = some (c.skip text (run p (c.ahead text))) := by
  refine repeatWhile_skip text (run p) (fun c hc => run_of_stops ((h c).symm.trans hc))
    (fun c hc => ?_) c
  rw [h] at hc
  cases ha : c.ahead text with
  | nil => simp [ha,startsWith] at hc
  | cons a rest =>
    rw [ha,startsWith_cons] at hc
    refine ⟨1,Nat.one_pos,by simp,advance_eq ha,?_⟩
    rw [run_cons,if_pos hc,List.drop_succ_cons,List.drop_zero,Nat.add_comm]

theorem advanceWhile_eq (p : Char → Bool) (c : Cursor) :
    c.advanceWhile text p = some (c.skip text (run p (c.ahead text))) :=
  repeatWhile_run (isBefore_eq text p) c

theorem repeatWhile_peek (text : Text) {p : Char → Bool} (hp : p '\x00' = false) (c : Cursor) :
    repeatWhile (fun c => p (c.peek text 0)) (advance text) text.length c =
      some (c.skip text (run p (c.ahead text))) :=
  repeatWhile_run (fun c => by rw [apply_peek hp,List.drop_zero]) c

theorem skipDigits_eq (c : Cursor) :
    c.skipDigits text = some (c.skip text (run isDigit (c.ahead text))) :=
  repeatWhile_peek text (by decide) c

theorem slice_skip (text : Text) (n : Nat) (c : Cursor) :
    slice text c.offset (c.skip text n).offset = (c.ahead text).take n := by
  rw [slice,skip,List.drop_take,ahead,Nat.add_sub_cancel_left]

end

end Cursor
end Scanning
end QScope
