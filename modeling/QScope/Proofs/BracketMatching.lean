import Mathlib.Tactic.SplitIfs
import QScope.Proofs.LayoutRuns

/-! # Bracket matching: what the layout says about a token is about tokens in front of it -/
namespace QScope.BracketLayout
open Assignments (kindAt)

/-- A bracket that is open before index `i`: an earlier token, of the shape of its role. -/
structure Opened (tokens : List Token) (i : Nat) (b : Nat × Role) : Prop where
  before : b.1 < i
  shape : kindAt tokens b.1 = some (if b.2.isRound then .openParen else .openBracket)

structure Frame.Sound (tokens : List Token) (i : Nat) (f : Frame) : Prop where
  brace : ∀ j, f.brace = some j → j < i ∧ kindAt tokens j = some .openBrace
  brackets : ∀ b ∈ f.brackets, Opened tokens i b

structure Layout.Sound (tokens : List Token) (i : Nat) (s : Layout) : Prop where
  inner : s.inner.Sound tokens i
  outer : ∀ f ∈ s.outer, f.Sound tokens i

/-- Lambdas and partners stand in front of a token and have the right shape; only colons assign. -/
structure Place.Sound (tokens : List Token) (i : Nat) (kind : Kind) (p : Place) : Prop where
  scope : ∀ j, p.scope = some j → j < i ∧ kindAt tokens j = some .openBrace
  opener : ∀ j, p.opener = some j → j < i ∧
    ((kind = .closeParen ∧ kindAt tokens j = some .openParen) ∨
      (kind = .closeBracket ∧ kindAt tokens j = some .openBracket))
  admits : p.admits = true → kind.isAssign = true

section
variable {tokens : List Token} {i : Nat}

theorem Frame.Sound.fresh : (Frame.fresh none).Sound tokens i :=
  ⟨nofun,nofun⟩

theorem Layout.Sound.start {ns : Option Text} : (Layout.start ns).Sound tokens i :=
  ⟨.fresh,nofun⟩

theorem Frame.Sound.later {f : Frame} (h : f.Sound tokens i) : f.Sound tokens (i + 1) :=
  ⟨fun j hj => (h.brace j hj).imp_left (Nat.lt_succ_of_lt ·),
    fun b hb => ⟨Nat.lt_succ_of_lt (h.brackets b hb).before,(h.brackets b hb).shape⟩⟩

theorem Frame.Sound.push {f : Frame} {role : Role} (h : f.Sound tokens i)
    (hk : kindAt tokens i = some (if role.isRound then .openParen else .openBracket)) :
    (f.push i role).Sound tokens (i + 1) := by
  refine ⟨h.later.brace,fun b hb => ?_⟩
  rcases List.mem_cons.mp hb with rfl | hb
  · exact ⟨i.lt_succ_self,hk⟩
  · exact h.later.brackets b hb

theorem Frame.mem_of_fromNearest {f : Frame} {round : Bool} {b : Nat × Role}
    (h : b ∈ f.fromNearest round) : b ∈ f.brackets :=
  (List.dropWhile_sublist _).mem h

theorem Frame.Sound.close {f : Frame} (h : f.Sound tokens i) (round : Bool) :
    (f.close round).Sound tokens i := by
  rw [Frame.close]
  split
  · exact h
  · rename_i b rest hr
    exact ⟨h.brace,fun a ha => h.brackets a (mem_of_fromNearest (hr ▸ List.mem_cons_of_mem b ha))⟩

/-- The nearest bracket of a shape has that shape. -/
theorem Frame.Sound.nearest? {f : Frame} (h : f.Sound tokens i) {round : Bool} {j : Nat}
    (hj : f.nearest? round = some j) :
    j < i ∧ kindAt tokens j = some (if round then .openParen else .openBracket) := by
  obtain ⟨b,hb,rfl⟩ := Option.map_eq_some_iff.mp hj
  have hr : b.2.isRound = round := by
    have hn := List.head?_dropWhile_not (fun b : Nat × Role => b.2.isRound != round) f.brackets
    rw [show f.brackets.dropWhile _ = f.fromNearest round from rfl,hb] at hn
    simpa using hn
  have ho := h.brackets b (mem_of_fromNearest (List.mem_of_mem_head? hb))
  exact ⟨ho.before,hr ▸ ho.shape⟩

theorem Frame.roundRole_isRound (following : Option Token) :
    (Frame.roundRole following).isRound = true := by
  rw [Frame.roundRole]
  split <;> rfl

theorem Frame.squareRole_isRound (f : Frame) (i : Nat) : (f.squareRole i).isRound = false := by
  rw [Frame.squareRole]
  repeat' split
  all_goals rfl

theorem Layout.Sound.enter {s : Layout} (h : s.Sound tokens i) (t : Token) :
    (s.enter t).Sound tokens i := by
  rw [Layout.enter]
  split
  · exact .start
  · exact h

theorem Frame.Sound.moved {f : Frame} {t : Token} (h : f.Sound tokens i)
    (ht : tokens[i]? = some t) (following : Option Token) :
    (f.moved i t following).Sound tokens (i + 1) := by
  have hk := Assignments.kindAt_eq_some ht
  have hl := h.later
  rw [Frame.moved]
  split
  · rename_i hb
    exact h.push (by rw [Frame.roundRole_isRound,hk,hb,if_pos rfl])
  · rename_i hb
    exact h.push (by rw [Frame.squareRole_isRound,hk,hb]; rfl)
  · exact hl.close true
  · exact hl.close false
  · exact ⟨hl.brace,hl.brackets⟩
  · split_ifs
    · exact ⟨hl.brace,hl.brackets⟩
    · exact ⟨hl.brace,hl.brackets⟩
    · exact hl
  · exact hl

/-- Every token keeps the brackets and braces that it leaves open sound. -/
theorem Layout.Sound.move {s : Layout} {t : Token} (h : s.Sound tokens i)
    (ht : tokens[i]? = some t) (following : Option Token) :
    (s.move i t following).Sound tokens (i + 1) := by
  have ho : ∀ f ∈ s.outer, f.Sound tokens (i + 1) := fun f hf => (h.outer f hf).later
  obtain ⟨hk,hm⟩ | ⟨-,-,hm⟩ | ⟨-,f,fs,hs,hm⟩ | ⟨-,-,hm⟩ := s.move_cases i t following
  · have hb : kindAt tokens i = some .openBrace := hk ▸ Assignments.kindAt_eq_some ht
    rw [hm]
    refine ⟨⟨fun j hj => ?_,nofun⟩,List.forall_mem_cons.mpr ⟨h.inner.later,ho⟩⟩
    obtain rfl : i = j := Option.some.inj hj
    exact ⟨i.lt_succ_self,hb⟩
  · rw [hm]
    exact ⟨h.inner.later,ho⟩
  · rw [hm]
    rw [hs] at ho
    exact ⟨ho f List.mem_cons_self,fun g hg => ho g (List.mem_cons_of_mem f hg)⟩
  · rw [hm]
    exact ⟨h.inner.moved ht following,ho⟩

theorem Layout.Sound.place {s : Layout} (h : s.Sound tokens i) (t : Token) :
    (s.place t).Sound tokens i t.kind := by
  refine ⟨fun j hj => ?_,fun j hj => ?_,fun ha => (Bool.and_eq_true_iff.mp ha).1⟩
  · change s.scope t = some j at hj
    rw [Layout.scope] at hj
    split_ifs at hj
    · cases hs : s.outer with
      | nil => exact h.inner.brace j (by simpa [hs] using hj)
      | cons f fs => exact (h.outer f (hs ▸ List.mem_cons_self)).brace j (by simpa [hs] using hj)
    · exact h.inner.brace j hj
  · change s.opener? t = some j at hj
    rw [Layout.opener?] at hj
    split at hj
    · rename_i hk
      obtain ⟨hlt,hj⟩ := h.inner.nearest? hj
      exact ⟨hlt,.inl ⟨hk,hj⟩⟩
    · rename_i hk
      obtain ⟨hlt,hj⟩ := h.inner.nearest? hj
      exact ⟨hlt,.inr ⟨hk,hj⟩⟩
    · cases hj

end

theorem reached_sound {tokens : List Token} (ns : Option Text) {k : Nat} (hk : k ≤ tokens.length) :
    (reached 0 (.start ns) tokens k).Sound tokens k := by
  refine reached_induction .start (fun k t s ht h => ?_) hk
  rw [Nat.zero_add]
  exact (h.enter t).move ht _

/-- The lambda of a token is an opening brace in front of it, the partner of a closing bracket an
opening one of its shape in front of it. -/
theorem places_sound {tokens : List Token} {ns : Option Text} {i : Nat} {t : Token} {p : Place}
    (ht : tokens[i]? = some t) (hp : (places 0 (.start ns) tokens)[i]? = some p) :
    p.Sound tokens i t.kind := by
  rw [place_of_getElem? ht hp]
  exact ((reached_sound ns (List.getElem?_eq_some_iff.mp ht).1.le).enter t).place t

/-- One sound place for each token. -/
structure Fits (tokens : List Token) (found : List Place) : Prop where
  length : found.length = tokens.length
  sound : ∀ {i : Nat} {t : Token} {p : Place}, tokens[i]? = some t → found[i]? = some p →
    p.Sound tokens i t.kind

theorem places_fits (ns : Option Text) (tokens : List Token) :
    Fits tokens (places 0 (.start ns) tokens) :=
  ⟨places_length 0 _ tokens,places_sound⟩

end QScope.BracketLayout
