import QScope.Proofs.BracketMatching

/-! # Assignment targets: no name is the target of two colons -/
namespace QScope.Assignments
open BracketLayout

/-! The names of a group -/

section
variable {i j k m r : Nat} {kinds : List Kind} {is : List Nat} {tokens : List Token}

theorem kind_of_names? (h : names? i kinds = some is) {kind : Kind} (hk : kind ∈ kinds) :
    kind = .identifier ∨ kind = .semicolon := by
  fun_induction names? i kinds generalizing is with
  | case1 => exact .inl (List.mem_singleton.mp hk)
  | case2 i kinds ih =>
    obtain ⟨js,hj,-⟩ := Option.map_eq_some_iff.mp h
    rcases List.mem_cons.mp hk with rfl | hk
    · exact .inl rfl
    · rcases List.mem_cons.mp hk with rfl | hk
      · exact .inr rfl
      · exact ih hj hk
  | case3 => exact absurd h nofun

/-- Each name is followed by a semicolon, the last one by the closing bracket. -/
theorem mem_names? (h : names? i kinds = some is) (hm : m ∈ is) :
    ∃ r, m = i + r ∧ kinds[r]? = some .identifier ∧
      (kinds[r + 1]? = some .semicolon ∨ r + 1 = kinds.length) := by
  fun_induction names? i kinds generalizing is with
  | case1 i =>
    obtain rfl : [i] = is := Option.some.inj h
    exact ⟨0,List.mem_singleton.mp hm,rfl,.inr rfl⟩
  | case2 i kinds ih =>
    obtain ⟨js,hj,rfl⟩ := Option.map_eq_some_iff.mp h
    rcases List.mem_cons.mp hm with rfl | hm
    · exact ⟨0,rfl,rfl,.inl rfl⟩
    · obtain ⟨r,hr,hk,hb⟩ := ih hj hm
      refine ⟨r + 2,by omega,hk,hb.imp_right fun hb => ?_⟩
      rw [List.length_cons,List.length_cons]
      omega
  | case3 => exact absurd h nofun

theorem pairwise_names? (h : names? i kinds = some is) : is.Pairwise (· < ·) := by
  fun_induction names? i kinds generalizing is with
  | case1 i =>
    obtain rfl : [i] = is := Option.some.inj h
    exact List.pairwise_singleton _ _
  | case2 i kinds ih =>
    obtain ⟨js,hj,rfl⟩ := Option.map_eq_some_iff.mp h
    refine List.pairwise_cons.mpr ⟨fun m hm => ?_,ih hj⟩
    obtain ⟨r,hr,-⟩ := mem_names? hj hm
    omega
  | case3 => exact absurd h nofun

theorem getElem?_between (hr : j < r) (hk : r < k) :
    (between tokens j k)[r - (j + 1)]? = tokens[r]? := by
  rw [between,List.getElem?_drop,List.getElem?_take_of_lt (by omega),Nat.add_sub_cancel' hr]

/-- The tokens inside a group, by their indices. -/
theorem kindAt_between (hr : j < r) (hk : r < k) :
    ((between tokens j k).map (·.kind))[r - (j + 1)]? = kindAt tokens r := by
  rw [List.getElem?_map,getElem?_between hr hk,kindAt]

end

/-! Targets and what stands behind their names -/

/-- The partner of the closing bracket at an index. -/
def openerAt (found : List Place) (i : Nat) : Option Nat := found[i]?.bind (·.opener)

/-- A target whose last token stands at index `k`. -/
inductive EndsAt (tokens : List Token) (found : List Place) (k : Nat) : Target → Prop
  | name (hk : kindAt tokens k = some .identifier) : EndsAt tokens found k (.name k)
  | item {j : Nat} (hk : kindAt tokens k = some .closeBracket)
      (ho : openerAt found k = some (j + 1)) (hj : kindAt tokens j = some .identifier) :
      EndsAt tokens found k (.item j)
  | group {j : Nat} {is : List Nat} (hk : kindAt tokens k = some .closeParen)
      (ho : openerAt found k = some j)
      (hn : names? (j + 1) ((between tokens j k).map (·.kind)) = some is) (hl : 2 ≤ is.length) :
      EndsAt tokens found k (.group is)

section
variable {tokens : List Token} {found : List Place} {i j k m : Nat} {x : Target} {joined : Bool}

theorem endsAt_of_target? (h : target? tokens found joined k = some x) :
    EndsAt tokens found k x ∧ (joined = true → x.shared = []) := by
  simp only [target?] at h
  split at h
  · rename_i hk
    obtain rfl := Option.some.inj h
    exact ⟨.name hk,fun _ => rfl⟩
  · rename_i j hk ho
    split_ifs at h with hj
    obtain rfl := Option.some.inj h
    exact ⟨.item hk ho hj,fun _ => rfl⟩
  · rename_i j hk ho
    split at h
    · rename_i a b more hn
      split_ifs at h with hj
      obtain rfl := Option.some.inj h
      exact ⟨.group hk ho hn (by simp),fun h => absurd h hj⟩
    · exact absurd h nofun
  · exact absurd h nofun

/-- The closing bracket of a group or an item has a partner of its shape in front of it. -/
theorem opener_of_openerAt (hf : Fits tokens found) (ho : openerAt found k = some j) :
    j < k ∧ (kindAt tokens k = some .closeParen ∧ kindAt tokens j = some .openParen ∨
      kindAt tokens k = some .closeBracket ∧ kindAt tokens j = some .openBracket) := by
  obtain ⟨p,hp,hj⟩ := Option.bind_eq_some_iff.mp ho
  have hk : k < tokens.length := hf.length ▸ (List.getElem?_eq_some_iff.mp hp).1
  have ht : tokens[k]? = some tokens[k] := List.getElem?_eq_getElem hk
  obtain ⟨hlt,h⟩ := (hf.sound ht hp).opener j hj
  rw [kindAt_eq_some ht]
  exact ⟨hlt,h.imp (.imp_left (congrArg some)) (.imp_left (congrArg some))⟩

/-- A group has two members or more, in their order. -/
theorem EndsAt.group_members (h : EndsAt tokens found k x) (hs : x.shared ≠ []) :
    2 ≤ x.shared.length ∧ x.shared.Pairwise (· < ·) ∧ x.isItem = false := by
  cases h with
  | name _ => exact absurd rfl hs
  | item _ _ _ => exact absurd rfl hs
  | group _ _ hn hl => exact ⟨hl,pairwise_names? hn,rfl⟩

/-- No opening bracket is the partner of two closing ones. -/
theorem openerAt_injective {ns : Option Text} {k' : Nat}
    (ho : openerAt (places 0 (.start ns) tokens) k = some j)
    (ho' : openerAt (places 0 (.start ns) tokens) k' = some j) : k = k' := by
  have hplace : ∀ {k}, openerAt (places 0 (.start ns) tokens) k = some j →
      ∃ t p, tokens[k]? = some t ∧ (places 0 (.start ns) tokens)[k]? = some p ∧
        p.opener = some j := by
    intro k ho
    obtain ⟨p,hp,hj⟩ := Option.bind_eq_some_iff.mp ho
    have hk := (List.getElem?_eq_some_iff.mp hp).1
    rw [places_length] at hk
    exact ⟨_,p,List.getElem?_eq_getElem hk,hp,hj⟩
  obtain ⟨t,p,ht,hp,hj⟩ := hplace ho
  obtain ⟨t',p',ht',hp',hj'⟩ := hplace ho'
  exact opener_injective ht hp hj ht' hp' hj'

/-- What stands behind a name of a target tells its kind of target. -/
inductive NameBehind (tokens : List Token) (found : List Place) (k m : Nat) : Target → Prop
  | colon (hk : k = m) : NameBehind tokens found k m (.name m)
  | bracket (hm : kindAt tokens (m + 1) = some .openBracket)
      (ho : openerAt found k = some (m + 1)) :
      NameBehind tokens found k m (.item m)
  | separator {j : Nat} {is : List Nat}
      (hm : kindAt tokens (m + 1) = some .semicolon ∨ kindAt tokens (m + 1) = some .closeParen)
      (hj : j < m) (hk : m < k) (hc : kindAt tokens k = some .closeParen)
      (ho : openerAt found k = some j)
      (hr : ∀ r, j < r → r < k →
        kindAt tokens r = some .identifier ∨ kindAt tokens r = some .semicolon) :
      NameBehind tokens found k m (.group is)

/-- A colon right behind a name is the only one that the name can be a target of. -/
theorem NameBehind.eq_of_isAssign {kind : Kind} (h : NameBehind tokens found k m x)
    (hm : kindAt tokens (m + 1) = some kind) (hk : kind.isAssign = true) : k = m := by
  have hne : ∀ {other}, kindAt tokens (m + 1) = some other → other.isAssign = true := by
    intro other ho
    rwa [← Option.some.inj (hm.symm.trans ho)]
  cases h with
  | colon he => exact he
  | bracket hb _ => exact absurd (hne hb) nofun
  | separator hs _ _ _ _ _ =>
    rcases hs with hs | hs
    · exact absurd (hne hs) nofun
    · exact absurd (hne hs) nofun

theorem EndsAt.nameBehind (h : EndsAt tokens found k x) (hf : Fits tokens found)
    (hm : m ∈ x.members) :
    kindAt tokens m = some .identifier ∧ m ≤ k ∧ NameBehind tokens found k m x := by
  cases h with
  | name hk =>
    obtain rfl := List.mem_singleton.mp hm
    exact ⟨hk,Nat.le_refl _,.colon rfl⟩
  | item hk ho hj =>
    obtain rfl := List.mem_singleton.mp hm
    obtain ⟨hlt,⟨hc,-⟩ | ⟨-,hb⟩⟩ := opener_of_openerAt hf ho
    · exact absurd (hk.symm.trans hc) nofun
    · exact ⟨hj,by omega,.bracket hb ho⟩
  | @group j is hk ho hn hl =>
    have hlength : (between tokens j k).length = k - (j + 1) := by
      have := lt_length_of_kindAt hk
      rw [between,List.length_drop,List.length_take]
      omega
    obtain ⟨r,rfl,hi,hb⟩ := mem_names? hn hm
    have hr : r < k - (j + 1) := by
      rw [← hlength,← List.length_map]
      exact (List.getElem?_eq_some_iff.mp hi).1
    have hat : ∀ s, s < k - (j + 1) →
        ((between tokens j k).map (·.kind))[s]? = kindAt tokens (j + 1 + s) := by
      intro s hs
      have : ((between tokens j k).map (·.kind))[j + 1 + s - (j + 1)]? =
          kindAt tokens (j + 1 + s) := kindAt_between (by omega) (by omega)
      rwa [Nat.add_sub_cancel_left] at this
    refine ⟨by rw [← hat r hr,hi],by omega,.separator ?_ (by omega) (by omega) hk ho ?_⟩
    · rcases hb with hb | hb
      · have hs : r + 1 < k - (j + 1) := by
          rw [← hlength,← List.length_map]
          exact (List.getElem?_eq_some_iff.mp hb).1
        exact .inl ((hat (r + 1) hs).symm.trans hb)
      · rw [List.length_map,hlength] at hb
        rw [show j + 1 + r + 1 = k by omega]
        exact .inr hk
    · intro s hjs hsk
      have hs : _ = kindAt tokens s := kindAt_between hjs hsk
      obtain ⟨u,hu⟩ : ∃ u, kindAt tokens s = some u := by
        have := lt_length_of_kindAt hk
        exact ⟨_,kindAt_eq_some (List.getElem?_eq_getElem (hsk.trans this))⟩
      rw [hu] at hs ⊢
      exact (kind_of_names? hn (List.mem_of_getElem? hs)).imp (congrArg some) (congrArg some)

/-- With the colon behind it a target determines where it ends. -/
theorem EndsAt.unique {k' : Nat} {x' : Target} {c c' : Kind} {ns : Option Text}
    (h : EndsAt tokens (places 0 (.start ns) tokens) k x)
    (h' : EndsAt tokens (places 0 (.start ns) tokens) k' x')
    (hc : kindAt tokens (k + 1) = some c) (ha : c.isAssign = true)
    (hc' : kindAt tokens (k' + 1) = some c') (ha' : c'.isAssign = true)
    (hm : m ∈ x.members) (hm' : m ∈ x'.members) : k = k' := by
  have hf := places_fits ns tokens
  have hcolon : ∀ {c kind}, kindAt tokens (m + 1) = some c → c.isAssign = true →
      kindAt tokens (m + 1) = some kind → kind.isAssign = false → False := by
    intro c kind hc ha hk hn
    obtain rfl := Option.some.inj (hc.symm.trans hk)
    exact absurd (ha.symm.trans hn) nofun
  obtain ⟨-,-,hb⟩ := h.nameBehind hf hm
  obtain ⟨-,-,hb'⟩ := h'.nameBehind hf hm'
  cases hb with
  | colon hk =>
    subst hk
    cases hb' with
    | colon hk => exact hk.symm
    | bracket hs _ => exact (hcolon hc ha hs rfl).elim
    | separator hs => rcases hs with hs | hs <;> exact (hcolon hc ha hs rfl).elim
  | bracket hs ho =>
    cases hb' with
    | colon hk =>
      subst hk
      exact (hcolon hc' ha' hs rfl).elim
    | bracket _ ho' => exact openerAt_injective ho ho'
    | separator hs' => rcases hs' with hs' | hs' <;> exact absurd (hs.symm.trans hs') nofun
  | separator hs hj hk hcl ho hr =>
    cases hb' with
    | colon hk =>
      subst hk
      rcases hs with hs | hs <;> exact (hcolon hc' ha' hs rfl).elim
    | bracket hs' _ => rcases hs with hs | hs <;> exact absurd (hs.symm.trans hs') nofun
    | separator _ hj' hk' hcl' ho' hr' =>
      -- neither group goes on behind the closing bracket of the other
      rcases lt_trichotomy k k' with hlt | heq | hlt
      · rcases hr' k (by omega) hlt with h | h <;> exact absurd (hcl.symm.trans h) nofun
      · exact heq
      · rcases hr k' (by omega) hlt with h | h <;> exact absurd (hcl'.symm.trans h) nofun

end

/-! The names of a group are no parameters -/

section
variable {tokens : List Token} {ns : Option Text} {j k m : Nat}

/-- Inside a group the round bracket is the innermost open one. -/
theorem top?_inside {t : Token} (ht : tokens[j]? = some t) (hk : t.kind = .openParen)
    (hu : Unbroken tokens j k)
    (hr : ∀ r, j < r → r < k →
      kindAt tokens r = some .identifier ∨ kindAt tokens r = some .semicolon)
    (hkl : k ≤ tokens.length) (hjm : j < m) (hmk : m ≤ k) :
    ∃ role, (reached 0 (.start ns) tokens m).inner.top? = some role ∧ role.isRound = true := by
  induction m, hjm using Nat.le_induction with
  | base =>
    refine ⟨Frame.roundRole tokens[j + 1]?,?_,Frame.roundRole_isRound _⟩
    rw [Nat.succ_eq_add_one,reached_succ ht]
    simp only [Layout.move,hk]
    rfl
  | succ m hjm ih =>
    obtain ⟨role,hrole,hround⟩ := ih (Nat.le_of_succ_le hmk)
    refine ⟨role,?_,hround⟩
    have hm : tokens[m]? = some tokens[m] := List.getElem?_eq_getElem (by omega)
    have hs := hu m _ hjm hmk hm
    rw [reached_succ hm,Layout.enter_of_not_startsStatement _ hs,← hrole]
    rcases hr m hjm hmk with h | h
    · have hkind := Option.some.inj ((kindAt_eq_some hm).symm.trans h)
      simp only [Layout.move,hkind]
    · have hkind := Option.some.inj ((kindAt_eq_some hm).symm.trans h)
      simp only [Layout.move,hkind]
      rfl

theorem EndsAt.param_eq_false {x : Target} {p : Place}
    (h : EndsAt tokens (places 0 (.start ns) tokens) k x) (hs : x.shared ≠ []) (hm : m ∈ x.members)
    (hp : (places 0 (.start ns) tokens)[m]? = some p) : p.param = false := by
  obtain ⟨-,-,hb⟩ := h.nameBehind (places_fits ns tokens) hm
  cases hb with
  | colon hk => exact absurd rfl hs
  | bracket hs' _ => exact absurd rfl hs
  | @separator j is hs' hj hk hcl ho hr =>
    have hkl := lt_length_of_kindAt hcl
    obtain ⟨q,hq,hj'⟩ := Option.bind_eq_some_iff.mp ho
    have hkt : tokens[k]? = some tokens[k] := List.getElem?_eq_getElem hkl
    have hmt : tokens[m]? = some tokens[m] := List.getElem?_eq_getElem (hk.trans hkl)
    obtain ⟨-,⟨-,hopen⟩ | ⟨hc,-⟩⟩ := opener_of_openerAt (places_fits ns tokens) ho
    · obtain ⟨t,ht,hkind⟩ := Option.map_eq_some_iff.mp hopen
      have hu := unbroken_of_opener hkt hq hj'
      obtain ⟨role,hrole,hround⟩ : ∃ role,
          (reached 0 (.start ns) tokens m).inner.top? = some role ∧ role.isRound = true :=
        top?_inside ht hkind (fun r u hr hrk => hu r u hr (Nat.lt_succ_of_lt hrk)) hr hkl.le hj
          hk.le
      rw [place_of_getElem? hmt hp,Layout.enter_of_not_startsStatement _
        (hu m _ hj (Nat.lt_succ_of_lt hk) hmt),Layout.place,hrole]
      cases role with
      | params => exact absurd hround nofun
      | _ => exact Bool.and_false _
    · exact absurd (hcl.symm.trans hc) nofun

end

/-! Assignments of a text -/

section
variable {tokens : List Token} {found : List Place} {i k m : Nat} {a b : Assignment}
  {ns : Option Text}

theorem mem_assignments : a ∈ assignments tokens found ↔
    ∃ i t p, tokens[i]? = some t ∧ found[i]? = some p ∧
      assignment? tokens found i t p = some a := by
  rw [assignments,List.mem_filterMap]
  constructor
  · rintro ⟨⟨⟨t,p⟩,i⟩,hx,ha⟩
    obtain ⟨ht,hp⟩ := List.getElem?_zip_eq_some.mp (List.mem_zipIdx_iff_getElem?.mp hx)
    exact ⟨i,t,p,ht,hp,ha⟩
  · rintro ⟨i,t,p,ht,hp,ha⟩
    exact ⟨((t,p),i),List.mem_zipIdx_iff_getElem?.mpr (List.getElem?_zip_eq_some.mpr ⟨ht,hp⟩),ha⟩

/-- The assignment of the colon at an index. -/
def madeAt (tokens : List Token) (found : List Place) (i : Nat) : Option Assignment :=
  tokens[i]?.bind fun t => found[i]?.bind fun p => assignment? tokens found i t p

theorem madeAt_eq_some : madeAt tokens found i = some a ↔
    ∃ t p, tokens[i]? = some t ∧ found[i]? = some p ∧ assignment? tokens found i t p = some a := by
  simp only [madeAt,Option.bind_eq_some_iff]
  constructor
  · rintro ⟨t,ht,p,hp,ha⟩
    exact ⟨t,p,ht,hp,ha⟩
  · rintro ⟨t,p,ht,hp,ha⟩
    exact ⟨t,ht,p,hp,ha⟩

theorem colon_of_madeAt (h : madeAt tokens found i = some a) : a.colon = i := by
  obtain ⟨t,p,-,-,ha⟩ := madeAt_eq_some.mp h
  dsimp only [assignment?] at ha
  split at ha
  · obtain ⟨x,-,rfl⟩ := Option.map_eq_some_iff.mp ha
    rfl
  · exact absurd ha nofun

theorem mem_assignments_iff_madeAt :
    a ∈ assignments tokens found ↔ madeAt tokens found a.colon = some a := by
  rw [mem_assignments,madeAt_eq_some]
  constructor
  · rintro ⟨i,t,p,ht,hp,ha⟩
    obtain rfl := colon_of_madeAt (madeAt_eq_some.mpr ⟨t,p,ht,hp,ha⟩)
    exact ⟨t,p,ht,hp,ha⟩
  · rintro ⟨t,p,h⟩
    exact ⟨_,t,p,h⟩

/-- An assignment, made by the token `t` behind index `k`. -/
structure Made (tokens : List Token) (found : List Place) (k : Nat) (t : Token) (p : Place)
    (a : Assignment) : Prop where
  token : tokens[k + 1]? = some t
  place : found[k + 1]? = some p
  admits : p.admits = true
  target : target? tokens found (t.kind == .amend) k = some a.target
  colon : a.colon = k + 1
  value : a.value = if k + 2 < tokens.length then some (k + 2) else none
  amends : a.amends = (t.kind == .amend || a.target.isItem)
  global : a.global = (t.kind == .doubleColon && p.scope.isSome && !a.target.isItem)
  lambda : a.lambda = (kindAt tokens (k + 2) == some .openBrace)

theorem made_of_mem (h : a ∈ assignments tokens found) : ∃ k t p, Made tokens found k t p a := by
  obtain ⟨i,t,p,ht,hp,ha⟩ := mem_assignments.mp h
  dsimp only [assignment?] at ha
  split at ha
  · rename_i k hadmits
    obtain ⟨x,hx,rfl⟩ := Option.map_eq_some_iff.mp ha
    exact ⟨k,t,p,ht,hp,hadmits,hx,rfl,rfl,rfl,rfl,rfl⟩
  · exact absurd ha nofun

theorem Made.kind {t : Token} {p : Place} (h : Made tokens found k t p a) (hf : Fits tokens found) :
    t.kind.isAssign = true :=
  (hf.sound h.token h.place).admits h.admits

theorem Made.endsAt {t : Token} {p : Place} (h : Made tokens found k t p a) :
    EndsAt tokens found k a.target :=
  (endsAt_of_target? h.target).1

/-- Only colons assign, and not the first token. -/
theorem colon_of_madeAt_eq_some (hf : Fits tokens found) (h : madeAt tokens found i = some a) :
    ∃ k kind, i = k + 1 ∧ kindAt tokens i = some kind ∧ kind.isAssign = true := by
  obtain ⟨k,t,p,hm⟩ := made_of_mem (mem_assignments_iff_madeAt.mpr (colon_of_madeAt h ▸ h))
  have hi : i = k + 1 := (colon_of_madeAt h).symm.trans hm.colon
  exact ⟨k,t.kind,hi,kindAt_eq_some (hi ▸ hm.token),hm.kind hf⟩

/-- A colon makes at most one assignment. -/
theorem eq_of_colon (ha : a ∈ assignments tokens found) (hb : b ∈ assignments tokens found)
    (h : a.colon = b.colon) : a = b := by
  rw [mem_assignments_iff_madeAt] at ha hb
  rw [h] at ha
  exact Option.some.inj (ha.symm.trans hb)

/-- No name is the target of two colons. -/
theorem eq_of_member (ha : a ∈ assignments tokens (places 0 (.start ns) tokens))
    (hb : b ∈ assignments tokens (places 0 (.start ns) tokens)) (hm : m ∈ a.target.members)
    (hm' : m ∈ b.target.members) : a = b := by
  have hf := places_fits ns tokens
  obtain ⟨k,t,p,ha'⟩ := made_of_mem ha
  obtain ⟨k',t',p',hb'⟩ := made_of_mem hb
  refine eq_of_colon ha hb ?_
  rw [ha'.colon,hb'.colon,ha'.endsAt.unique hb'.endsAt (kindAt_eq_some ha'.token) (ha'.kind hf)
    (kindAt_eq_some hb'.token) (hb'.kind hf) hm hm']

end

end QScope.Assignments
