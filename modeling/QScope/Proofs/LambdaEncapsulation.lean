import QScope.Proofs.LambdaBodies

/-! # Lambda encapsulation: a body and the text around it are annotated without each other -/
namespace QScope
open BracketLayout Assignments

namespace BracketLayout

/-- The token at index `i` stands among the `n` tokens behind the brace at index `p`. -/
def Inside (p n i : Nat) : Prop := p < i ∧ i ≤ p + n

section
variable {p n i : Nat}

theorem not_inside_widened (p n i : Nat) : ¬Inside p n (widened p n i) := by
  rw [Inside,widened]
  split_ifs <;> omega

theorem exists_widened (h : ¬Inside p n i) : ∃ j, i = widened p n j := by
  rw [Inside] at h
  rcases Nat.lt_or_ge p i with hi | hi
  · refine ⟨i - n,?_⟩
    rw [widened_of_lt (by omega)]
    omega
  · exact ⟨i,(widened_of_le hi).symm⟩

/-- Only at its braces can one step lead into a body or out of it. -/
theorem inside_succ (hp : i ≠ p) (hn : i ≠ p + n) : Inside p n (i + 1) ↔ Inside p n i := by
  rw [Inside,Inside]
  omega

end

namespace Hole
variable {h g : Hole} {b : Body} {ns ns' : Option Text} {i j k : Nat} {a : Assignment}

theorem kindAt_opens (h : Hole) (tokens : List Token) :
    kindAt (h.fill tokens) h.front.length = some .openBrace := by
  rw [kindAt_eq_some (h.getElem?_opens tokens),h.opens_kind]

theorem kindAt_closes (h : Hole) (tokens : List Token) :
    kindAt (h.fill tokens) (h.front.length + 1 + tokens.length) = some .closeBrace := by
  rw [kindAt_eq_some (h.getElem?_closes tokens),h.closes_kind]

theorem ne_of_kindAt {tokens : List Token} {kind kind' : Kind}
    (hk : kindAt tokens i = some kind) (hj : kindAt tokens j = some kind') (h : kind ≠ kind') :
    i ≠ j := by
  rintro rfl
  exact h (Option.some.inj (hk.symm.trans hj))

/-! A body and the same body in a lambda that begins the text -/

theorem getElem?_inside (h : Hole) (hg : g.front = []) {tokens : List Token}
    (hi : Inside 0 tokens.length i) :
    (h.fill tokens)[i + h.front.length]? = (g.fill tokens)[i]? := by
  obtain ⟨k,rfl⟩ := Nat.exists_eq_succ_of_ne_zero hi.1.ne'
  have hk : k < tokens.length := by
    have := hi.2
    omega
  have hfirst := g.getElem?_body hk
  rw [hg,List.length_nil,Nat.zero_add,Nat.add_comm] at hfirst
  rw [show k.succ + h.front.length = h.front.length + 1 + k by omega,h.getElem?_body hk,hfirst]

theorem kindAt_inside (h : Hole) (hg : g.front = []) {tokens : List Token}
    (hi : i ≤ tokens.length + 1) :
    kindAt (h.fill tokens) (i + h.front.length) = kindAt (g.fill tokens) i := by
  have hopens := g.kindAt_opens tokens
  have hcloses := g.kindAt_closes tokens
  rw [hg,List.length_nil] at hopens hcloses
  rcases Nat.eq_zero_or_pos i with rfl | hpos
  · rw [Nat.zero_add,kindAt_opens,hopens]
  · rcases Nat.lt_or_eq_of_le hi with hlt | rfl
    · rw [kindAt,kindAt,getElem?_inside h hg ⟨hpos,by omega⟩]
    · rw [show tokens.length + 1 + h.front.length = h.front.length + 1 + tokens.length by omega,
        kindAt_closes,Nat.add_comm,← hcloses,Nat.zero_add]

/-- A token of the body has the same place in both, all but the namespace. -/
theorem place_inside (h : Hole) (hg : g.front = []) (ns ns' : Option Text)
    (hi : Inside 0 b.tokens.length i) :
    ∃ p x, (places 0 (.start ns) (g.fill b.tokens))[i]? = some p ∧
      (places 0 (.start ns') (h.fill b.tokens))[i + h.front.length]? =
        some {p.renumbered (· + h.front.length) with ns := x} := by
  obtain ⟨k,rfl⟩ := Nat.exists_eq_succ_of_ne_zero hi.1.ne'
  have hk : k < b.tokens.length := by
    have := hi.2
    omega
  have ht : b.tokens[k]? = some b.tokens[k] := List.getElem?_eq_getElem hk
  have hfirst := g.place_body ns ht
  have hrun := bodyRun_renumbered h.front.length 0 k b.tokens
  rw [hg,List.length_nil,Nat.zero_add,Nat.add_comm] at hfirst
  rw [Nat.zero_add] at hrun
  refine ⟨_,Namespaces.ofToken (h.layout ns').ns b.tokens[k],hfirst,?_⟩
  rw [show k.succ + h.front.length = h.front.length + 1 + k by omega,h.place_body ns' ht,hrun,
    Layout.renumbered_place]
  rfl

theorem openerAt_inside (h : Hole) (hg : g.front = []) (ns ns' : Option Text)
    (hi : Inside 0 b.tokens.length i) :
    openerAt (places 0 (.start ns') (h.fill b.tokens)) (i + h.front.length) =
      (openerAt (places 0 (.start ns) (g.fill b.tokens)) i).map (· + h.front.length) := by
  obtain ⟨p,x,hp,hp'⟩ := place_inside h hg ns ns' hi
  rw [openerAt,openerAt,hp,hp']
  rfl

/-- The partners of closing brackets in a body stand in the body. -/
theorem inside_opener (hg : g.front = []) (hi : Inside 0 b.tokens.length i)
    (ho : openerAt (places 0 (.start ns) (g.fill b.tokens)) i = some j) :
    Inside 0 b.tokens.length j := by
  obtain ⟨hj,hk⟩ := opener_of_openerAt (places_fits ns _) ho
  have hbrace := g.kindAt_opens b.tokens
  rw [hg,List.length_nil] at hbrace
  refine ⟨Nat.pos_of_ne_zero ?_,hj.le.trans hi.2⟩
  rintro rfl
  rcases hk with ⟨-,hk⟩ | ⟨-,hk⟩ <;> exact absurd (hbrace.symm.trans hk) nofun

theorem targetCarried_inside (h : Hole) (hg : g.front = []) (ns ns' : Option Text)
    (hi : i ≤ b.tokens.length) :
    TargetCarried (· + h.front.length) (g.fill b.tokens) (places 0 (.start ns) (g.fill b.tokens))
      (h.fill b.tokens) (places 0 (.start ns') (h.fill b.tokens)) i := by
  have hkind : ∀ {m}, m ≤ b.tokens.length + 1 →
      kindAt (h.fill b.tokens) (m + h.front.length) = kindAt (g.fill b.tokens) m :=
    fun hm => kindAt_inside h hg hm
  have hbrace := g.kindAt_opens b.tokens
  rw [hg,List.length_nil] at hbrace
  -- a closing bracket is not the brace in front of the body
  have hinside : kindAt (g.fill b.tokens) i = some .closeBracket ∨
      kindAt (g.fill b.tokens) i = some .closeParen → Inside 0 b.tokens.length i := by
    intro hk
    refine ⟨Nat.pos_of_ne_zero ?_,by omega⟩
    rintro rfl
    rcases hk with hk | hk <;> exact absurd (hbrace.symm.trans hk) nofun
  refine ⟨hkind (by omega),fun hk => openerAt_inside h hg ns ns' (hinside hk),?_,?_⟩
  · intro j hk ho
    have hj := inside_opener hg (hinside (.inl hk)) ho
    obtain ⟨l,rfl⟩ := Nat.exists_eq_succ_of_ne_zero hj.1.ne'
    have hl := hj.2
    exact .inr ⟨l,rfl,Nat.add_right_comm l 1 _,hkind (by omega)⟩
  · intro j hk ho
    have hj := inside_opener hg (hinside (.inr hk)) ho
    have hlt := (opener_of_openerAt (places_fits ns _) ho).1
    rw [between_renumbered (· + h.front.length) (fun r hr _ => by omega) (fun r hr hr' => ?_)
      hlt.le]
    · exact names?_renumbered fun r _ => by omega
    · exact getElem?_inside h hg ⟨by omega,by omega⟩

/-- A colon in a body makes the same assignment. -/
theorem madeAt_inside (h : Hole) (hg : g.front = []) (ns ns' : Option Text)
    (hi : Inside 0 b.tokens.length i) :
    madeAt (h.fill b.tokens) (places 0 (.start ns') (h.fill b.tokens)) (i + h.front.length) =
      (madeAt (g.fill b.tokens) (places 0 (.start ns) (g.fill b.tokens)) i).map
        (·.renumbered (· + h.front.length)) := by
  obtain ⟨p,x,hp,hp'⟩ := place_inside h hg ns ns' hi
  have ht := getElem?_inside h hg hi
  obtain ⟨k,rfl⟩ := Nat.exists_eq_succ_of_ne_zero hi.1.ne'
  have hk := hi.2
  refine madeAt_renumbered (targetCarried_inside h hg ns ns' (by omega))
    (Nat.add_right_comm k 1 _) (Nat.add_right_comm k 2 _) (kindAt_inside h hg (by omega)) ht ?_ ?_
  · intro hnone
    exact absurd (hp.symm.trans hnone) nofun
  · intro q hq
    obtain rfl := Option.some.inj (hp.symm.trans hq)
    exact ⟨x,hp'⟩

/-! A text around a body and around the empty body -/

theorem kindAt_around (h : Hole) (tokens : List Token) (i : Nat) :
    kindAt (h.fill tokens) (widened h.front.length tokens.length i) = kindAt (h.fill []) i := by
  rw [kindAt,kindAt,h.getElem?_around]

theorem openerAt_around (h : Hole) (ns : Option Text) (b : Body) (i : Nat) :
    openerAt (places 0 (.start ns) (h.fill b.tokens))
        (widened h.front.length b.tokens.length i) =
      (openerAt (places 0 (.start ns) (h.fill [])) i).map
        (widened h.front.length b.tokens.length) := by
  rw [openerAt,openerAt,h.place_around]
  cases (places 0 (.start ns) (h.fill []))[i]? <;> rfl

/-- A group that a lambda stands in is no target. -/
theorem names?_around (h : Hole) (tokens : List Token) {l : Nat} (hj : j < h.front.length)
    (hk : h.front.length < k) :
    names? l ((between (h.fill tokens) j k).map (·.kind)) = none := by
  have hb : _ = kindAt (h.fill tokens) h.front.length := kindAt_between hj hk
  rw [kindAt_opens] at hb
  exact names?_eq_none (List.mem_of_getElem? hb) nofun nofun

/-- What stands between two round brackets reads alike around every body. -/
theorem names?_between_around (h : Hole) (tokens : List Token) (hjk : j < k)
    (hj : kindAt (h.fill []) j = some .openParen) :
    names? (widened h.front.length tokens.length j + 1)
        ((between (h.fill tokens) (widened h.front.length tokens.length j)
          (widened h.front.length tokens.length k)).map (·.kind)) =
      (names? (j + 1) ((between (h.fill []) j k).map (·.kind))).map
        (List.map (widened h.front.length tokens.length)) := by
  have hne := ne_of_kindAt hj (h.kindAt_opens []) nofun
  by_cases hseam : j < h.front.length ∧ h.front.length < k
  · have hk' : h.front.length < widened h.front.length tokens.length k := by
      rw [widened_of_lt hseam.2]
      omega
    have hj' : widened h.front.length tokens.length j < h.front.length := by
      rw [widened_of_le hseam.1.le]
      exact hseam.1
    rw [h.names?_around tokens hj' hk',h.names?_around [] hseam.1 hseam.2]
    rfl
  · have hrow : ∀ r, j ≤ r → r ≤ k → widened h.front.length tokens.length r =
        widened h.front.length tokens.length j + (r - j) := by
      intro r hr hr'
      rw [widened,widened]
      split_ifs <;> omega
    rw [between_renumbered _ hrow (fun r _ _ => h.getElem?_around tokens r) hjk.le]
    refine names?_renumbered fun r hr => ?_
    rw [List.length_map,between,List.length_drop,List.length_take] at hr
    rw [hrow (j + 1 + r) (by omega) (by omega)]
    omega

theorem targetCarried_around (h : Hole) (ns : Option Text) (b : Body) (k : Nat) :
    TargetCarried (widened h.front.length b.tokens.length) (h.fill [])
      (places 0 (.start ns) (h.fill [])) (h.fill b.tokens)
      (places 0 (.start ns) (h.fill b.tokens)) k := by
  refine ⟨h.kindAt_around b.tokens k,fun _ => h.openerAt_around ns b k,?_,?_⟩
  · intro j hk ho
    cases j with
    | zero => exact .inl ⟨rfl,widened_of_le (Nat.zero_le _)⟩
    | succ l =>
      obtain ⟨-,⟨hc,-⟩ | ⟨-,hb⟩⟩ := opener_of_openerAt (places_fits ns _) ho
      · exact absurd (hk.symm.trans hc) nofun
      · have hl := ne_of_kindAt hb (h.kindAt_closes []) nofun
        exact .inr ⟨l,rfl,widened_succ fun h => hl (congrArg (· + 1) h),h.kindAt_around b.tokens l⟩
  · intro j hk ho
    obtain ⟨hjk,⟨-,hp⟩ | ⟨hc,-⟩⟩ := opener_of_openerAt (places_fits ns _) ho
    · exact h.names?_between_around b.tokens hjk hp
    · exact absurd (hk.symm.trans hc) nofun

/-- A colon outside a body makes the same assignment around every body. -/
theorem madeAt_around (h : Hole) (ns : Option Text) (b : Body) (i : Nat) :
    madeAt (h.fill b.tokens) (places 0 (.start ns) (h.fill b.tokens))
        (widened h.front.length b.tokens.length i) =
      (madeAt (h.fill []) (places 0 (.start ns) (h.fill [])) i).map
        (·.renumbered (widened h.front.length b.tokens.length)) := by
  have hkind := h.kindAt_around b.tokens
  have hplace := h.place_around ns b i
  by_cases hcolon : ∃ k kind, i = k + 1 ∧ kindAt (h.fill []) i = some kind ∧ kind.isAssign = true
  · obtain ⟨k,kind,rfl,hk,ha⟩ := hcolon
    have hopens : k + 1 ≠ h.front.length :=
      ne_of_kindAt hk (h.kindAt_opens []) (by rintro rfl; exact absurd ha nofun)
    have hcloses : k + 1 ≠ h.front.length + 1 :=
      ne_of_kindAt hk (h.kindAt_closes []) (by rintro rfl; exact absurd ha nofun)
    have hsucc := widened_succ (n := b.tokens.length) fun h => hcloses (congrArg (· + 1) h)
    refine madeAt_renumbered (h.targetCarried_around ns b k) hsucc ?_ (hkind _)
      (h.getElem?_around _ _) ?_ ?_
    · exact (widened_succ hopens).trans (congrArg (· + 1) hsucc)
    · intro hnone
      rw [hplace,hnone]
      rfl
    · intro p hp
      rw [hplace,hp]
      exact ⟨p.ns,rfl⟩
  · have hnone : madeAt (h.fill []) (places 0 (.start ns) (h.fill [])) i = none :=
      Option.eq_none_iff_forall_ne_some.mpr fun a ha =>
        hcolon (colon_of_madeAt_eq_some (places_fits ns _) ha)
    have hnone' : madeAt (h.fill b.tokens) (places 0 (.start ns) (h.fill b.tokens))
        (widened h.front.length b.tokens.length i) = none := by
      refine Option.eq_none_iff_forall_ne_some.mpr fun a ha => hcolon ?_
      obtain ⟨k,kind,hi,hk,hassign⟩ := colon_of_madeAt_eq_some (places_fits ns _) ha
      rw [hkind] at hk
      cases i with
      | zero => exact absurd ((widened_of_le (Nat.zero_le _)).symm.trans hi) nofun
      | succ i => exact ⟨i,kind,rfl,hk,hassign⟩
    rw [hnone,hnone']
    rfl

/-! No assignment reaches across the braces of a lambda -/

/-- A closing bracket and its partner stand on the same side. -/
theorem inside_opener_iff
    (ho : openerAt (places 0 (.start ns) (h.fill b.tokens)) k = some j) :
    Inside h.front.length b.tokens.length k ↔ Inside h.front.length b.tokens.length j := by
  by_cases hk : Inside h.front.length b.tokens.length k
  · -- as in the lambda by itself
    have hg : (⟨[],h.opens,h.closes,[],h.opens_kind,h.closes_kind⟩ : Hole).front = [] := rfl
    obtain ⟨i,rfl⟩ := Nat.exists_eq_add_of_lt hk.1
    have hi : Inside 0 b.tokens.length (i + 1) := ⟨i.succ_pos,by have := hk.2; omega⟩
    rw [show h.front.length + i + 1 = i + 1 + h.front.length by omega,
      openerAt_inside h hg ns ns hi] at ho
    obtain ⟨l,hl,rfl⟩ := Option.map_eq_some_iff.mp ho
    obtain ⟨hpos,hle⟩ := inside_opener hg hi hl
    exact iff_of_true hk ⟨by omega,by omega⟩
  · -- as around the empty body
    obtain ⟨i,rfl⟩ := exists_widened hk
    rw [openerAt_around] at ho
    obtain ⟨l,-,rfl⟩ := Option.map_eq_some_iff.mp ho
    exact iff_of_false hk (not_inside_widened _ _ _)

/-- Neither an opening brace nor what stands in front of a closing one: the next token stands on
the same side. -/
theorem inside_next {kind kind' : Kind} (hi : kindAt (h.fill b.tokens) i = some kind)
    (hi' : kindAt (h.fill b.tokens) (i + 1) = some kind') (hk : kind ≠ .openBrace)
    (hk' : kind' ≠ .closeBrace) :
    Inside h.front.length b.tokens.length (i + 1) ↔ Inside h.front.length b.tokens.length i := by
  have hopens := ne_of_kindAt hi (h.kindAt_opens _) hk
  have hcloses := ne_of_kindAt hi' (h.kindAt_closes _) hk'
  exact inside_succ hopens (by omega)

/-- A target stands on one side from its names to its end. -/
theorem inside_nameBehind {x : Target} (hi : kindAt (h.fill b.tokens) i = some .identifier)
    (hx : NameBehind (h.fill b.tokens) (places 0 (.start ns) (h.fill b.tokens)) k i x) :
    (∃ kind, kindAt (h.fill b.tokens) k = some kind ∧ kind ≠ .openBrace) ∧
      (Inside h.front.length b.tokens.length k ↔ Inside h.front.length b.tokens.length i) := by
  have hf := places_fits ns (h.fill b.tokens)
  cases hx with
  | colon hk =>
    subst hk
    exact ⟨⟨_,hi,nofun⟩,.rfl⟩
  | bracket hb ho =>
    refine ⟨?_,(inside_opener_iff ho).trans (inside_next hi hb nofun nofun)⟩
    obtain ⟨-,⟨hk,-⟩ | ⟨hk,-⟩⟩ := opener_of_openerAt hf ho <;> exact ⟨_,hk,nofun⟩
  | @separator j _ _ hj hik hk ho hr =>
    refine ⟨⟨_,hk,nofun⟩,?_⟩
    have hside := inside_opener_iff ho
    have hbrace : ∀ {l kind}, kindAt (h.fill b.tokens) l = some kind → kind ≠ .identifier →
        kind ≠ .semicolon → ¬(j < l ∧ l < k) := by
      rintro l kind hl hn hs ⟨hjl,hlk⟩
      rcases hr l hjl hlk with h | h
      · exact hn (Option.some.inj (hl.symm.trans h))
      · exact hs (Option.some.inj (hl.symm.trans h))
    have hcloses := hbrace (h.kindAt_closes _) nofun nofun
    have hend := ne_of_kindAt hk (h.kindAt_closes _) nofun
    rw [Inside,Inside] at hside ⊢
    omega

/-- An assignment stands inside a body with its targets, or outside with them. -/
theorem inside_colon_iff (ha : Annotating.TargetOf ns (h.fill b.tokens) a i) :
    Inside h.front.length b.tokens.length a.colon ↔ Inside h.front.length b.tokens.length i := by
  have hf := places_fits ns (h.fill b.tokens)
  obtain ⟨k,t,p,hm⟩ := made_of_mem ha.made
  obtain ⟨hi,-,hx⟩ := hm.endsAt.nameBehind hf ha.member
  obtain ⟨⟨kind,hk,hbrace⟩,hside⟩ := inside_nameBehind hi hx
  have hassign : t.kind ≠ .closeBrace := by
    intro hc
    have := hm.kind hf
    rw [hc] at this
    exact absurd this nofun
  rw [hm.colon]
  exact (inside_next hk (kindAt_eq_some hm.token) hbrace hassign).trans hside

end Hole
end BracketLayout

/-! Annotations inside a body and around it -/

namespace Annotating

section
variable {h g : Hole} {b : Body} {ns ns' : Option Text} {i : Nat}

theorem carried_inside (h : Hole) (hg : g.front = []) (b : Body) (ns ns' : Option Text) :
    Carried (· + h.front.length) (Inside 0 b.tokens.length) ns (g.fill b.tokens) ns'
      (h.fill b.tokens) where
  injective := fun i j hij => Nat.add_right_cancel hij
  made := fun i hi => Hole.madeAt_inside h hg ns ns' hi
  source := by
    intro a i hi ha
    have hside := Hole.inside_colon_iff ha
    rw [hg,List.length_nil] at hside
    exact hside.mpr hi
  image := by
    intro a i hi ha
    have hi' : Inside h.front.length b.tokens.length (i + h.front.length) := by
      have := hi.1
      have := hi.2
      exact ⟨by omega,by omega⟩
    obtain ⟨hlt,hle⟩ := (Hole.inside_colon_iff ha).mpr hi'
    exact ⟨a.colon - h.front.length,⟨by omega,by omega⟩,by omega⟩

theorem carried_around (h : Hole) (b : Body) (ns : Option Text) :
    Carried (widened h.front.length b.tokens.length) (fun _ => True) ns (h.fill []) ns
      (h.fill b.tokens) where
  injective := widened_injective _ _
  made := fun i _ => h.madeAt_around ns b i
  source := fun _ _ _ _ => trivial
  image := by
    intro a i _ ha
    have hout := mt (Hole.inside_colon_iff ha).mp (not_inside_widened _ _ _)
    obtain ⟨c,hc⟩ := exists_widened hout
    exact ⟨c,trivial,hc⟩

/-- A token of a body is annotated as in a text that begins with the lambda. -/
theorem annotateIn_inside (h : Hole) (hg : g.front = []) (ns ns' : Option Text)
    (hi : Inside 0 b.tokens.length i) :
    ∃ u x, (annotateIn ns (g.fill b.tokens))[i]? = some u ∧
      (annotateIn ns' (h.fill b.tokens))[i + h.front.length]? =
        some {u.renumbered (· + h.front.length) with ns := x} := by
  obtain ⟨p,x,hp,hp'⟩ := Hole.place_inside h hg ns ns' hi
  have hl := (List.getElem?_eq_some_iff.mp hp).1
  rw [places_length] at hl
  have ht : (g.fill b.tokens)[i]? = some _ := List.getElem?_eq_getElem hl
  have ht' := (Hole.getElem?_inside h hg hi).trans ht
  obtain ⟨u,hu,-,hu'⟩ := (carried_inside h hg b ns ns').getElem?_annotateIn hi ht ht' hp hp'
  exact ⟨u,x,hu,hu'⟩

/-- A token outside a body is annotated as around the empty body. -/
theorem annotateIn_around (h : Hole) (b : Body) (ns : Option Text) (i : Nat) :
    (annotateIn ns (h.fill b.tokens))[widened h.front.length b.tokens.length i]? =
      ((annotateIn ns (h.fill []))[i]?).map
        (·.renumbered (widened h.front.length b.tokens.length)) := by
  have hplace := h.place_around ns b i
  have htoken := h.getElem?_around b.tokens i
  cases ht : (h.fill [])[i]? with
  | none => rw [getElem?_annotateIn,getElem?_annotateIn,htoken,ht]; rfl
  | some t =>
    obtain ⟨p,hp⟩ : ∃ p, (places 0 (.start ns) (h.fill []))[i]? = some p := by
      rw [getElem?_places,ht]
      exact ⟨_,rfl⟩
    rw [hp] at hplace
    obtain ⟨u,hu,hns,hu'⟩ :=
      (carried_around h b ns).getElem?_annotateIn trivial ht (htoken.trans ht) hp hplace
    rw [hu,hu',Option.map_some]
    exact congrArg (fun x => some {u.renumbered _ with ns := x}) hns.symm

/-- The index that a token outside a body of `n` tokens has around a body of `m` tokens. -/
def resized (p n m i : Nat) : Nat := if i ≤ p then i else i - n + m

theorem resized_widened (p n m i : Nat) : resized p n m (widened p n i) = widened p m i := by
  rw [resized,widened,widened]
  split_ifs <;> omega

/-- The tokens of a body are annotated as in the bare lambda, but for the namespace, and the tokens
around it as around any other body, by their new indices; they do not refer to the body. -/
structure Encapsulated (h : Hole) (b : Body) : Prop where
  inside : ∀ o c : Token, o.kind = .openBrace → c.kind = .closeBrace →
    ∀ i, 0 < i → i ≤ b.tokens.length →
      ∃ u x, (annotate (o :: (b.tokens ++ [c])))[i]? = some u ∧
        (annotate (h.fill b.tokens))[i + h.front.length]? =
          some {u.renumbered (· + h.front.length) with ns := x}
  around : ∀ (d : Body) (i : Nat), ¬Inside h.front.length b.tokens.length i →
    (annotate (h.fill d.tokens))[resized h.front.length b.tokens.length d.tokens.length i]? =
      ((annotate (h.fill b.tokens))[i]?).map
        (·.renumbered (resized h.front.length b.tokens.length d.tokens.length))
  apart : ∀ (i : Nat) (u : AnnotatedToken) (r : Nat), ¬Inside h.front.length b.tokens.length i →
    (annotate (h.fill b.tokens))[i]? = some u → r ∈ u.references →
      ¬Inside h.front.length b.tokens.length r

/-- Whatever brackets, table literals and column lists are open around a lambda, and whatever
brackets its body leaves open: neither has a part in the annotations of the other. -/
theorem annotate_encapsulated (h : Hole) (b : Body) : Encapsulated h b where
  inside o c ho hc i hpos hi :=
    annotateIn_inside (g := ⟨[],o,c,[],ho,hc⟩) h rfl none none ⟨hpos,by omega⟩
  around d i hi := by
    obtain ⟨j,rfl⟩ := exists_widened hi
    have hfun : resized h.front.length b.tokens.length d.tokens.length ∘
        widened h.front.length b.tokens.length = widened h.front.length d.tokens.length :=
      funext (resized_widened _ _ _)
    rw [resized_widened,annotate,annotate,annotateIn_around,annotateIn_around,Option.map_map]
    congr 1
    funext u
    rw [Function.comp,AnnotatedToken.renumbered_renumbered,hfun]
  apart i u r hi hu hr := by
    obtain ⟨j,rfl⟩ := exists_widened hi
    rw [annotate,annotateIn_around] at hu
    obtain ⟨v,-,rfl⟩ := Option.map_eq_some_iff.mp hu
    rw [AnnotatedToken.references_renumbered] at hr
    obtain ⟨m,-,rfl⟩ := List.mem_map.mp hr
    exact not_inside_widened _ _ m

-- `c` names a column, `x` and `t` are assigned: the body leaves its bracket open, not the query
example : (parse [] "select c:\x7b(x:1\x7d from t:2".toList).map (·.flags.assigned) =
    [false,false,false,false,false,true,false,false,false,false,true,false,false] := by
  decide +kernel

end

end Annotating
end QScope
