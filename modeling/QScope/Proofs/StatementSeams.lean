import QScope.Proofs.AssignmentLinks

/-! # Statement seams: where a link between tokens may leave a statement -/
namespace QScope.Annotating
open BracketLayout Assignments

section
variable {ns : Option Text} {tokens : List Token} {k m r : Nat} {t : Token} {a : Assignment}
  {u : AnnotatedToken}

/-- Between the last token of a target and its partner no statement opens. -/
theorem no_start_behind_opener {j : Nat} (ho : openerAt (places 0 (.start ns) tokens) k = some j)
    (hj : j < r) (hr : r ≤ k) (ht : tokens[r]? = some t) : t.startsStatement = false := by
  obtain ⟨q,hq,hj'⟩ := Option.bind_eq_some_iff.mp ho
  have hk := (List.getElem?_eq_some_iff.mp hq).1
  rw [places_length] at hk
  exact unbroken_of_opener (List.getElem?_eq_getElem hk) hq hj' r t hj (Nat.lt_succ_of_le hr) ht

/-- Up to the end of a target a statement opens at most at the bracket directly behind a name. -/
theorem seam_of_endsAt {x : Target} (h : EndsAt tokens (places 0 (.start ns) tokens) k x)
    (hx : m ∈ x.members) (hm : m < r) (hr : r ≤ k) (ht : tokens[r]? = some t)
    (hs : t.startsStatement = true) : r = m + 1 ∧ t.kind = .openBracket := by
  have hstart : ¬t.startsStatement = false := by rw [hs]; exact nofun
  obtain ⟨-,-,hb⟩ := h.nameBehind (places_fits ns tokens) hx
  cases hb with
  | colon hk => exact absurd (hk ▸ hr) (Nat.not_le_of_lt hm)
  | bracket hbracket ho =>
    rcases Nat.lt_or_eq_of_le (Nat.succ_le_of_lt hm) with hlt | rfl
    · exact absurd (no_start_behind_opener ho hlt hr ht) hstart
    · exact ⟨rfl,Option.some.inj ((kindAt_eq_some ht).symm.trans hbracket)⟩
  | separator _ hj _ _ ho _ => exact absurd (no_start_behind_opener ho (hj.trans hm) hr ht) hstart

/-- Between a target and its colon a statement opens at the colon only, or at the bracket directly
behind the target. -/
theorem seam_of_targetOf (h : TargetOf ns tokens a m) (hm : m < r) (hr : r ≤ a.colon)
    (ht : tokens[r]? = some t) (hs : t.startsStatement = true) :
    r = a.colon ∨ r = m + 1 ∧ t.kind = .openBracket := by
  obtain ⟨k,u,p,hmade⟩ := made_of_mem h.made
  rw [hmade.colon] at hr ⊢
  rcases Nat.lt_or_eq_of_le hr with hr | rfl
  · exact .inr (seam_of_endsAt hmade.endsAt h.member hm (Nat.le_of_lt_succ hr) ht hs)
  · exact .inl rfl

/-- A link joins tokens of one statement, unless a statement opens at the colon, directly behind
the colon, or at the bracket directly behind the target. -/
theorem annotate_tangled_seams (hu : (annotate tokens)[k]? = some u) (hm : u.tangled = some m) :
    ∃ o c, kindAt tokens o = some c ∧ c.isAssign = true ∧ (o = k ∨ o + 1 = m) ∧
      ∀ r t, min k m < r → r ≤ max k m → tokens[r]? = some t → t.startsStatement = true →
        r = o ∨ r = o + 1 ∨ r = min k m + 1 ∧ t.kind = .openBracket := by
  rcases noted_or_untargeted hu with ⟨a,h,hn⟩ | hn
  · obtain ⟨v,hv,hassign⟩ := isAssign_colon h.made
    have hlt := h.identifier.2
    have hmv : m = a.colon + 1 := by
      rw [hn.tangled,value_eq h.made] at hm
      split_ifs at hm
      exact (Option.some.inj hm).symm
    refine ⟨a.colon,v.kind,kindAt_eq_some hv,hassign,.inr hmv.symm,fun r t hr hr' ht hs => ?_⟩
    rw [Nat.min_eq_left (by omega)] at hr ⊢
    rw [Nat.max_eq_right (by omega),hmv] at hr'
    rcases Nat.lt_or_eq_of_le hr' with hr' | rfl
    · exact (seam_of_targetOf h hr (Nat.le_of_lt_succ hr') ht hs).imp_right .inr
    · exact .inr (.inl rfl)
  · obtain ⟨a,h,rfl⟩ := hn.targetOf hm
    obtain ⟨v,hv,hassign⟩ := isAssign_colon h.made
    have hlt := h.identifier.2
    refine ⟨a.colon,v.kind,kindAt_eq_some hv,hassign,.inl rfl,fun r t hr hr' ht hs => ?_⟩
    rw [Nat.min_eq_right hlt.le] at hr ⊢
    rw [Nat.max_eq_left hlt.le] at hr'
    exact (seam_of_targetOf h hr hr' ht hs).imp_right .inr

end

/-- An assignment half typed in front of a lambda at the margin takes the lambda. -/
theorem tangled_half_typed :
    ∃ u, (annotate (Lexing.tokenize [] "f:\n\x7bx\x7d".toList))[0]? = some u ∧
      u.tangled = some 2 := by
  have hlink : (annotate (Lexing.tokenize [] "f:\n\x7bx\x7d".toList))[0]?.map (·.tangled) =
      some (some 2) := by decide +kernel
  obtain ⟨u,hu,hm⟩ := Option.map_eq_some_iff.mp hlink
  exact ⟨u,hu,hm⟩

/-- The seam of that assignment lies behind its colon. -/
theorem tangled_seams_half_typed :
    ∃ u, (annotate (Lexing.tokenize [] "f:\n\x7bx\x7d".toList))[0]? = some u ∧
      u.tangled = some 2 ∧
      ∃ o c, kindAt (Lexing.tokenize [] "f:\n\x7bx\x7d".toList) o = some c ∧
        c.isAssign = true ∧ (o = 0 ∨ o + 1 = 2) ∧
        ∀ r t, min 0 2 < r → r ≤ max 0 2 →
          (Lexing.tokenize [] "f:\n\x7bx\x7d".toList)[r]? = some t → t.startsStatement = true →
            r = o ∨ r = o + 1 ∨ r = min 0 2 + 1 ∧ t.kind = .openBracket := by
  obtain ⟨u,hu,hm⟩ := tangled_half_typed
  exact ⟨u,hu,hm,annotate_tangled_seams hu hm⟩

/-- The value and the brace of a half-typed assignment may come from the next statement. -/
theorem half_typed_assignment_reads_on :
    ¬∀ (tokens : List Token) (k m r : Nat) (u : AnnotatedToken) (t : Token),
      (annotate tokens)[k]? = some u → u.tangled = some m → min k m < r → r ≤ max k m →
        tokens[r]? = some t → t.startsStatement = false := by
  intro h
  have hstart : (Lexing.tokenize [] "f:\n\x7bx\x7d".toList)[2]?.map (·.startsStatement) =
      some true := by decide +kernel
  obtain ⟨u,hu,hm⟩ := tangled_half_typed
  obtain ⟨t,ht,hs⟩ := Option.map_eq_some_iff.mp hstart
  have := h _ 0 2 2 u t hu hm (by decide) (by decide) ht
  exact absurd (hs.symm.trans this) nofun

end QScope.Annotating
