import QScope.Proofs.AssignmentTargets
import QScope.Proofs.OpenBrackets

/-! # Bracket pairs: the partners of closing brackets

A closing bracket may close several brackets at once or none at all, and still no two pairs cross.
Where brackets and braces are properly nested, every closing bracket has the partner that it has
there. -/
namespace QScope

/-- The kind that closes what a token of this kind opens. -/
def Kind.closer? : Kind → Option Kind
  | openParen => some closeParen
  | openBracket => some closeBracket
  | openBrace => some closeBrace
  | _ => none

theorem Kind.closer?_cases {o c : Kind} (h : o.closer? = some c) :
    o = .openParen ∧ c = .closeParen ∨ o = .openBracket ∧ c = .closeBracket ∨
      o = .openBrace ∧ c = .closeBrace := by
  cases o <;> cases h <;> simp

namespace BracketLayout
open Assignments (kindAt openerAt)

/-- The kind of the tokens that close round or square brackets. -/
def closingShape (round : Bool) : Kind := if round then .closeParen else .closeBracket

/-- Tokens with properly nested brackets and braces. -/
inductive Balanced : List Token → Prop
  | nil : Balanced []
  | other {t : Token} {ts : List Token} (opens : t.kind.closer? = none)
      (closes : t.kind.isCloser = false) (rest : Balanced ts) : Balanced (t :: ts)
  | pair {o c : Token} {inside rest : List Token} (closes : o.kind.closer? = some c.kind)
      (inner : Balanced inside) (outer : Balanced rest) : Balanced (o :: (inside ++ c :: rest))

/-- The token at index `k` closes what the one at index `j` opens, with properly nested tokens in
between. -/
structure Partners (tokens : List Token) (j k : Nat) : Prop where
  before : j < k
  closes : ∃ o c, kindAt tokens j = some o ∧ kindAt tokens k = some c ∧ o.closer? = some c
  inside : Balanced (between tokens j k)

/-- In a text that begins in the namespace `ns` the bracket at index `j` is noted as the partner of
the closing one at index `k`. -/
def Paired (ns : Option Text) (tokens : List Token) (j k : Nat) : Prop :=
  openerAt (places 0 (.start ns) tokens) k = some j

section
variable {ns : Option Text} {tokens ts us : List Token} {i j k m : Nat} {t : Token} {o c : Kind}
  {round : Bool}

/-! Properly nested tokens -/

theorem eq_shape_of_closer? (h : o.closer? = some (closingShape round)) : o = shape round := by
  rcases Kind.closer?_cases h with ⟨rfl,hc⟩ | ⟨rfl,hc⟩ | ⟨rfl,hc⟩ <;> cases round <;>
    first | rfl | cases hc

theorem shape_injective : Function.Injective shape := by
  intro a b h
  cases a <;> cases b <;> first | rfl | cases h

theorem isCloser_eq_false_of_closer? (h : o.closer? = some c) : o.isCloser = false := by
  rcases Kind.closer?_cases h with ⟨rfl,-⟩ | ⟨rfl,-⟩ | ⟨rfl,-⟩ <;> rfl

theorem kindAt_append_right (front : List Token) (ts : List Token) (k : Nat) :
    kindAt (front ++ ts) (front.length + k) = kindAt ts k := by
  rw [kindAt,List.getElem?_append_right (Nat.le_add_right _ _),Nat.add_sub_cancel_left,kindAt]

theorem kindAt_append_left (hk : kindAt ts k = some c) (back : List Token) :
    kindAt (ts ++ back) k = some c := by
  rw [kindAt,List.getElem?_append_left (Assignments.lt_length_of_kindAt hk)]
  exact hk

theorem Partners.append_left (h : Partners ts j k) (front : List Token) :
    Partners (front ++ ts) (front.length + j) (front.length + k) := by
  obtain ⟨hjk,⟨o,c,ho,hc,hoc⟩,hb⟩ := h
  refine ⟨Nat.add_lt_add_left hjk _,⟨o,c,?_,?_,hoc⟩,?_⟩
  · rw [kindAt_append_right,ho]
  · rw [kindAt_append_right,hc]
  · rwa [between,List.take_length_add_append,Nat.add_assoc,List.drop_length_add_append]

theorem Partners.append_right (h : Partners ts j k) (back : List Token) :
    Partners (ts ++ back) j k := by
  obtain ⟨hjk,⟨o,c,ho,hc,hoc⟩,hb⟩ := h
  refine ⟨hjk,⟨o,c,kindAt_append_left ho back,kindAt_append_left hc back,hoc⟩,?_⟩
  rwa [between,List.take_append_of_le_length (Assignments.lt_length_of_kindAt hc).le]

theorem partners_pair {o c : Token} {inside : List Token} (h : o.kind.closer? = some c.kind)
    (hi : Balanced inside) (rest : List Token) :
    Partners (o :: (inside ++ c :: rest)) 0 (inside.length + 1) := by
  refine ⟨Nat.succ_pos _,⟨o.kind,c.kind,rfl,?_,h⟩,?_⟩
  · rw [kindAt,List.getElem?_cons_succ,List.getElem?_append_right (Nat.le_refl _),Nat.sub_self]
    rfl
  · rwa [between,List.take_succ_cons,List.take_left,List.drop_succ_cons,List.drop_zero]

/-- Among properly nested tokens every closing one has a partner. -/
theorem Balanced.exists_partners (h : Balanced ts) (hc : kindAt ts k = some c)
    (hk : c.isCloser = true) : ∃ j, Partners ts j k := by
  induction h generalizing k with
  | nil => cases hc
  | @other t ts _ closes _ ih =>
    cases k with
    | zero =>
      obtain rfl := Option.some.inj hc
      rw [closes] at hk
      cases hk
    | succ k =>
      obtain ⟨j,hj⟩ := ih hc
      have := hj.append_left [t]
      exact ⟨_,by rwa [List.length_singleton,Nat.add_comm 1 k] at this⟩
  | @pair o d inside rest closes inner outer ihi ihr =>
    cases k with
    | zero =>
      obtain rfl := Option.some.inj hc
      rw [isCloser_eq_false_of_closer? closes] at hk
      cases hk
    | succ k =>
      rcases lt_trichotomy k inside.length with hlt | rfl | hlt
      · have hin : kindAt inside k = some c := by
          rw [← hc,kindAt,kindAt,List.getElem?_cons_succ,List.getElem?_append_left hlt]
        obtain ⟨j,hj⟩ := ihi hin
        have := (hj.append_right (d :: rest)).append_left [o]
        exact ⟨_,by rwa [List.length_singleton,Nat.add_comm 1 k] at this⟩
      · exact ⟨0,partners_pair closes inner rest⟩
      · obtain ⟨r,rfl⟩ := Nat.exists_eq_add_of_lt hlt
        have hsplit : o :: (inside ++ d :: rest) = (o :: (inside ++ [d])) ++ rest := by simp
        have hlength : (o :: (inside ++ [d])).length + r = inside.length + r + 1 + 1 := by
          simp only [List.length_cons,List.length_append,List.length_nil]
          omega
        rw [hsplit,← hlength] at hc ⊢
        rw [kindAt_append_right] at hc
        obtain ⟨j,hj⟩ := ihr hc
        exact ⟨_,hj.append_left _⟩

/-! What properly nested tokens leave open -/

/-- What a bracket or brace opens is closed by what closes its kind. -/
theorem closed_cons (hk : kindAt tokens j = some o) (js : List Nat) :
    closed tokens o (j :: js) = js := by
  have hpassed : isPassed tokens o j = false := by
    rw [isPassed,hk,bne_self_eq_false,Bool.false_and]
  rw [closed,List.dropWhile_cons_of_neg (Bool.eq_false_iff.mp hpassed)]
  exact if_pos hk

theorem openBehind_opener (hk : kindAt tokens i = some o) (h : o.closer? = some c) (js : List Nat) :
    openBehind tokens i js = i :: js := by
  rw [openBehind,hk]
  rcases Kind.closer?_cases h with ⟨rfl,-⟩ | ⟨rfl,-⟩ | ⟨rfl,-⟩ <;> rfl

theorem openBehind_closer (hk : kindAt tokens i = some c) (h : o.closer? = some c)
    (js : List Nat) : openBehind tokens i js = closed tokens o js := by
  rw [openBehind,hk]
  rcases Kind.closer?_cases h with ⟨rfl,rfl⟩ | ⟨rfl,rfl⟩ | ⟨rfl,rfl⟩ <;> rfl

theorem openBehind_other (hk : kindAt tokens i = some c) (h : c.closer? = none)
    (hc : c.isCloser = false) (js : List Nat) : openBehind tokens i js = js := by
  rw [openBehind,hk]
  cases c <;> simp_all [Kind.closer?,Kind.isCloser]

/-- Behind properly nested tokens as much is open as in front of them. -/
theorem Balanced.openBefore_eq (h : Balanced ts) (hts : tokens.drop i = ts ++ us)
    (hs : ∀ r, i < r → r ≤ i + ts.length → opensStatement tokens r = false) :
    openBefore tokens (i + ts.length) = openBefore tokens i := by
  have hstep : ∀ {i t us}, tokens.drop i = t :: us → opensStatement tokens (i + 1) = false →
      kindAt tokens i = some t.kind ∧ tokens.drop (i + 1) = us ∧
        openBefore tokens (i + 1) = openBehind tokens i (openBefore tokens i) := by
    intro i t us hd hs
    have ht : tokens[i]? = some t := by
      rw [← List.head?_drop,hd,List.head?_cons]
    refine ⟨Assignments.kindAt_eq_some ht,?_,?_⟩
    · rw [← List.tail_drop,hd,List.tail_cons]
    · rw [openBefore,hs,if_neg Bool.false_ne_true]
  induction h generalizing i us with
  | nil => rfl
  | @other t ts opens closes _ ih =>
    rw [List.length_cons] at hs ⊢
    obtain ⟨hk,hd,ho⟩ := hstep hts (hs _ i.lt_succ_self (by omega))
    rw [openBehind_other hk opens closes] at ho
    rw [← ho,← ih hd fun r hr hr' => hs r (by omega) (by omega),Nat.add_right_comm,Nat.add_assoc]
  | @pair o d inside rest closes _ _ ihi ihr =>
    rw [List.length_cons,List.length_append,List.length_cons] at hs ⊢
    rw [List.cons_append,List.append_assoc] at hts
    obtain ⟨hk,hd,ho⟩ := hstep hts (hs _ i.lt_succ_self (by omega))
    have hin := ihi hd fun r hr hr' => hs r (by omega) (by omega)
    have hd' : tokens.drop (i + 1 + inside.length) = d :: (rest ++ us) := by
      rw [← List.drop_drop,hd,List.drop_left,List.cons_append]
    obtain ⟨hk',hr,ho'⟩ := hstep hd' (hs _ (by omega) (by omega))
    have hrest := ihr hr fun r hr hr' => hs r (by omega) (by omega)
    rw [show i + (inside.length + (rest.length + 1) + 1) =
      i + 1 + inside.length + 1 + rest.length by omega,hrest,ho',hin,ho,
      openBehind_opener hk closes,openBehind_closer hk' closes,closed_cons hk]

/-! Partners on the stack of the layout -/

/-- The partner of a closing bracket is the nearest open bracket of its shape. -/
theorem Layout.opener?_eq_some {s : Layout} : s.opener? t = some j ↔
    ∃ round, t.kind = closingShape round ∧ s.inner.nearest? round = some j := by
  rw [opener?]
  constructor
  · intro h
    split at h
    · rename_i hk
      exact ⟨true,hk,h⟩
    · rename_i hk
      exact ⟨false,hk,h⟩
    · cases h
  · rintro ⟨round,hk,h⟩
    cases round <;> rw [hk] <;> exact h

theorem paired_iff : Paired ns tokens j k ↔
    ∃ t, tokens[k]? = some t ∧ ((reached 0 (.start ns) tokens k).enter t).opener? t = some j := by
  rw [Paired,openerAt,getElem?_places]
  cases tokens[k]? with
  | none => simp
  | some t => exact ⟨fun h => ⟨t,rfl,h⟩,fun ⟨u,hu,h⟩ => Option.some.inj hu ▸ h⟩

theorem startsStatement_of_closer (hk : t.kind = closingShape round) :
    t.startsStatement = false := by
  rw [Token.startsStatement,hk]
  cases round <;> exact Bool.and_false _

/-- With properly nested tokens of one statement in between, the partner is the one noted. -/
theorem Partners.paired (h : Partners tokens j k) (hk : kindAt tokens k = some (closingShape round))
    (hs : ∀ r, j < r → r < k → opensStatement tokens r = false) : Paired ns tokens j k := by
  obtain ⟨hjk,⟨o,c,ho,hc,hoc⟩,hb⟩ := h
  obtain ⟨t,ht,hkind⟩ := Option.map_eq_some_iff.mp hk
  obtain rfl := Option.some.inj (hk.symm.trans hc)
  obtain rfl := eq_shape_of_closer? hoc
  have hstart : ∀ r, j < r → r ≤ k → opensStatement tokens r = false := by
    intro r hr hrk
    rcases Nat.lt_or_eq_of_le hrk with hrk | rfl
    · exact hs r hr hrk
    · rw [opensStatement_eq ht,startsStatement_of_closer hkind]
  have htake : (tokens.take k).length = k :=
    List.length_take_of_le (Assignments.lt_length_of_kindAt hk).le
  have hlength : j + 1 + (between tokens j k).length = k := by
    rw [between,List.length_drop,htake]
    omega
  have hdrop : tokens.drop (j + 1) = between tokens j k ++ tokens.drop k := by
    rw [between,← List.drop_append_of_le_length (by omega),List.take_append_drop]
  -- nothing in between is still open behind it
  have hopen : openBefore tokens k = j :: openBefore tokens j := by
    rw [← hlength,hb.openBefore_eq hdrop fun r hr hr' => hstart r (by omega) (by omega),openBefore,
      hstart _ j.lt_succ_self hjk,if_neg Bool.false_ne_true,openBehind_opener ho hoc]
  have htracks := tracks_reached ns ht
  obtain ⟨role,hrole⟩ := htracks.exists_head? (by rw [level,hopen,List.head?_cons])
    fun he => shape_ne_openBrace round (Option.some.inj (ho.symm.trans he))
  refine paired_iff.mpr ⟨t,ht,Layout.opener?_eq_some.mpr ⟨round,hkind,?_⟩⟩
  obtain ⟨rest,hrest⟩ := List.head?_eq_some_iff.mp hrole
  have hround : role.isRound = round := shape_injective (Option.some.inj
    ((htracks.shapes _ (List.mem_of_mem_head? hrole)).symm.trans ho))
  rw [Frame.nearest?,Frame.fromNearest,hrest,List.dropWhile_cons_of_neg (by simp [hround])]
  rfl

/-- A noted partner is open in the innermost lambda of its closing bracket. -/
theorem Paired.exists_brackets (h : Paired ns tokens j k) : ∃ t round, tokens[k]? = some t ∧
    t.kind = closingShape round ∧ kindAt tokens j = some (shape round) ∧
    ∃ role bs, (j,role) :: bs <:+ ((reached 0 (.start ns) tokens k).enter t).inner.brackets := by
  obtain ⟨t,ht,hj⟩ := paired_iff.mp h
  obtain ⟨round,hk,hn⟩ := Layout.opener?_eq_some.mp hj
  refine ⟨t,round,ht,hk,((tracks_reached ns ht).sound.inner.nearest? hn).2,?_⟩
  obtain ⟨⟨_,role⟩,hb,rfl⟩ := Option.map_eq_some_iff.mp hn
  obtain ⟨bs,hbs⟩ := List.head?_eq_some_iff.mp hb
  exact ⟨role,bs,hbs ▸ List.dropWhile_suffix _⟩

theorem Paired.unbroken (h : Paired ns tokens j k) : Unbroken tokens j (k + 1) := by
  obtain ⟨t,-,ht,-⟩ := h.exists_brackets
  obtain ⟨p,hp,ho⟩ := Option.bind_eq_some_iff.mp h
  exact unbroken_of_opener ht hp ho

/-- The innermost open brace is that of the innermost lambda, also behind some of its brackets. -/
theorem Layout.Tracks.head?_dropWhile {s : Layout} (h : s.Tracks tokens i) {bs : List (Nat × Role)}
    (hb : ∀ b ∈ bs, kindAt tokens b.1 = some (shape b.2.isRound)) :
    ((bs.map (·.1) ++ (s.inner.brace.toList ++ s.outer.flatMap Frame.opened)).dropWhile
      (isPassed tokens .openBrace)).head? = s.inner.brace := by
  rw [dropWhile_openBrace hb]
  cases hb : s.inner.brace with
  | none =>
    rw [h.outer_of_brace hb]
    rfl
  | some l =>
    have hpassed : isPassed tokens .openBrace l = false := by
      rw [isPassed,(h.sound.inner.brace l hb).2,bne_self_eq_false,Bool.and_false]
    rw [Option.toList_some,List.singleton_append,
      List.dropWhile_cons_of_neg (Bool.eq_false_iff.mp hpassed),List.head?_cons]

/-- The lambda of a partner is that of its closing bracket. -/
theorem Paired.brace_eq (h : Paired ns tokens j k) {u : Token} (hu : tokens[j]? = some u)
    (ht : tokens[k]? = some t) : ((reached 0 (.start ns) tokens j).enter u).inner.brace =
      ((reached 0 (.start ns) tokens k).enter t).inner.brace := by
  obtain ⟨t',round,ht',-,-,role,bs,hbs⟩ := h.exists_brackets
  obtain rfl := Option.some.inj (ht.symm.trans ht')
  have hj := tracks_reached ns hu
  have hk := tracks_reached ns ht
  -- in front of the partner is open what is open around it at the closing bracket
  have hopen : openBefore tokens j = bs.map (·.1) ++
      (((reached 0 (.start ns) tokens k).enter t).inner.brace.toList ++
        ((reached 0 (.start ns) tokens k).enter t).outer.flatMap Frame.opened) := by
    refine openBefore_of_suffix (i := k) ?_
    rw [← hk.opened,Layout.Tracks.opened_eq,← List.cons_append]
    exact List.suffix_append_self_iff.mpr (hbs.map Prod.fst)
  rw [← hj.opened,Layout.Tracks.opened_eq] at hopen
  rw [← hj.head?_dropWhile hj.shapes,hopen]
  exact hk.head?_dropWhile fun b hb => hk.shapes b (hbs.subset (List.mem_cons_of_mem _ hb))

/-- Between a bracket and the one that closes it no pair begins that does not end there, too. -/
theorem Paired.nested {j' k' : Nat} (h : Paired ns tokens j k) (h' : Paired ns tokens j' k')
    (hj : j < j') : k < j' ∨ k' < k := by
  obtain ⟨p,hp,ho⟩ := Option.bind_eq_some_iff.mp h
  obtain ⟨t,-,ht,-⟩ := h.exists_brackets
  obtain ⟨t',-,ht',-⟩ := h'.exists_brackets
  obtain ⟨p',hp',ho'⟩ := Option.bind_eq_some_iff.mp h'
  rcases lt_trichotomy k k' with hlt | rfl | hlt
  · have hopen := (Layout.opened_enter _ t').subset (mem_opened_of_opener ht' hp' ho')
    rcases mem_opened_reached (Nat.succ_le_of_lt hlt) hopen with hk | hk
    · exact .inl hk
    · -- behind the first pair only what lies in front of it is open
      obtain ⟨inside,hin⟩ := opened_of_opener ht hp ho
      have hd := ((reached_stacked ns (List.getElem?_eq_some_iff.mp ht).1.le).enter t).descending
      rw [hin] at hd
      exact absurd ((List.pairwise_cons.mp (List.pairwise_append.mp hd).2.1).1 j' hk) hj.not_gt
  · exact absurd (Option.some.inj (h.symm.trans h')) hj.ne
  · exact .inr hlt

end

end BracketLayout

namespace Annotating
open BracketLayout Assignments

/-- The pairs of brackets that the tokens are annotated with. Each lies in one statement and in one
lambda, no two of them share a bracket, and they are nested or apart. In a statement whose brackets
and braces are properly nested they are all the pairs that there are. -/
structure BracketsPaired (tokens : List Token) : Prop where
  shape : ∀ j k, Paired none tokens j k → j < k ∧ ∃ round,
    kindAt tokens j = some (shape round) ∧ kindAt tokens k = some (closingShape round)
  statement : ∀ j k, Paired none tokens j k → Unbroken tokens j (k + 1)
  lambda : ∀ j k, Paired none tokens j k → ∃ o c, (annotate tokens)[j]? = some o ∧
    (annotate tokens)[k]? = some c ∧ o.scope = c.scope
  unique : ∀ j k k', Paired none tokens j k → Paired none tokens j k' → k = k'
  nested : ∀ j k j' k', Paired none tokens j k → Paired none tokens j' k' → j < j' →
    k < j' ∨ k' < k
  exact : Balanced tokens → (∀ i t, tokens[i + 1]? = some t → t.startsStatement = false) →
    ∀ k round, kindAt tokens k = some (closingShape round) →
      (∃ j, Partners tokens j k) ∧ ∀ j, Paired none tokens j k ↔ Partners tokens j k

/-- A token that is no closing brace is annotated with the brace of its lambda. -/
theorem exists_scope_eq_brace (ns : Option Text) {tokens : List Token} {i : Nat} {t : Token}
    (ht : tokens[i]? = some t) (hk : t.kind ≠ .closeBrace) :
    ∃ a, (annotateIn ns tokens)[i]? = some a ∧
      a.scope = ((reached 0 (.start ns) tokens i).enter t).inner.brace := by
  rw [getElem?_annotateIn,ht]
  exact ⟨_,rfl,if_neg hk⟩

theorem annotate_bracketsPaired (tokens : List Token) : BracketsPaired tokens where
  shape j k h := by
    obtain ⟨t,round,ht,hk,hj,-⟩ := h.exists_brackets
    exact ⟨(opener_of_openerAt (places_fits none tokens) h).1,round,hj,hk ▸ kindAt_eq_some ht⟩
  statement j k h := h.unbroken
  lambda j k h := by
    obtain ⟨t,round,ht,hk,hj,-⟩ := h.exists_brackets
    obtain ⟨u,hu,huk⟩ := Option.map_eq_some_iff.mp hj
    obtain ⟨o,ho,hso⟩ := exists_scope_eq_brace none hu (by rw [huk]; cases round <;> exact nofun)
    obtain ⟨c,hc,hsc⟩ := exists_scope_eq_brace none ht (by rw [hk]; cases round <;> exact nofun)
    exact ⟨o,c,ho,hc,hso.trans ((h.brace_eq hu ht).trans hsc.symm)⟩
  unique j k k' h h' := openerAt_injective h h'
  nested j k j' k' h h' hj := h.nested h' hj
  exact hb hs k round hk := by
    have hstart : ∀ r, 0 < r → opensStatement tokens r = false := by
      intro r hr
      obtain ⟨r,rfl⟩ := Nat.exists_eq_add_one_of_ne_zero hr.ne'
      rw [opensStatement]
      cases ht : tokens[r + 1]? with
      | none => rfl
      | some t => exact hs r t ht
    have hpaired : ∀ {j}, Partners tokens j k → Paired none tokens j k :=
      fun h => h.paired hk fun r hr _ => hstart r (Nat.zero_lt_of_lt hr)
    obtain ⟨j,hj⟩ := hb.exists_partners hk (by cases round <;> rfl)
    refine ⟨⟨j,hj⟩,fun j' => ⟨fun h => ?_,hpaired⟩⟩
    rwa [Option.some.inj (h.symm.trans (hpaired hj))]

/-- A round bracket closes the square one that is still open in it, and that is left without a
partner. -/
example : (places 0 (.start none) (Lexing.tokenize [] "f(a[b)]".toList)).map (·.opener) =
    [none,none,none,none,none,some 1,none] := by
  decide +kernel

end Annotating
end QScope
