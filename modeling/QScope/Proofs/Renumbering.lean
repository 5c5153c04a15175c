import QScope.Proofs.AssignmentLinks

/-! # Renumbering: layouts, assignments and annotations commute with maps of their indices -/
namespace QScope
open BracketLayout Assignments

/-! Layouts and places -/

namespace BracketLayout

def Frame.renumbered (ρ : Nat → Nat) (f : Frame) : Frame :=
  ⟨f.brace.map ρ,f.brackets.map fun b => (ρ b.1,b.2),f.columns⟩

def Layout.renumbered (ρ : Nat → Nat) (s : Layout) : Layout :=
  ⟨s.inner.renumbered ρ,s.outer.map (·.renumbered ρ),s.ns⟩

def Place.renumbered (ρ : Nat → Nat) (p : Place) : Place :=
  {p with scope := p.scope.map ρ, opener := p.opener.map ρ}

/-- The index in front of `i`, and no other, goes to the index in front of the image of `i`. -/
def Adjacent (ρ : Nat → Nat) (i : Nat) : Prop := ∀ j, ρ j + 1 = ρ i ↔ j + 1 = i

theorem adjacent_add (n i : Nat) : Adjacent (· + n) i := by
  intro j
  rw [Nat.add_right_comm,Nat.add_right_cancel_iff]

namespace Frame
variable (ρ : Nat → Nat) (i : Nat) (f : Frame)

@[simp] theorem renumbered_brace : (f.renumbered ρ).brace = f.brace.map ρ := rfl

@[simp] theorem renumbered_columns : (f.renumbered ρ).columns = f.columns := rfl

@[simp] theorem renumbered_brackets :
    (f.renumbered ρ).brackets = f.brackets.map fun b => (ρ b.1,b.2) := rfl

@[simp] theorem renumbered_fresh (brace : Option Nat) :
    (fresh brace).renumbered ρ = fresh (brace.map ρ) := rfl

@[simp] theorem renumbered_top? : (f.renumbered ρ).top? = f.top? := by
  simp only [top?,renumbered_brackets,List.head?_map,Option.map_map]
  rfl

@[simp] theorem renumbered_push (role : Role) :
    (f.renumbered ρ).push (ρ i) role = (f.push i role).renumbered ρ := rfl

@[simp] theorem renumbered_fromNearest (round : Bool) :
    (f.renumbered ρ).fromNearest round = (f.fromNearest round).map fun b => (ρ b.1,b.2) := by
  simp only [fromNearest,renumbered_brackets,List.dropWhile_map]
  rfl

@[simp] theorem renumbered_nearest? (round : Bool) :
    (f.renumbered ρ).nearest? round = (f.nearest? round).map ρ := by
  simp only [nearest?,renumbered_fromNearest,List.head?_map,Option.map_map]
  rfl

@[simp] theorem renumbered_close (round : Bool) :
    (f.renumbered ρ).close round = (f.close round).renumbered ρ := by
  simp only [close,renumbered_fromNearest]
  cases f.fromNearest round with
  | nil => rfl
  | cons b rest => simp [renumbered]

@[simp] theorem renumbered_openColumns :
    (f.renumbered ρ).openColumns = f.openColumns.renumbered ρ := by
  simp [openColumns,renumbered]

@[simp] theorem renumbered_closeColumns :
    (f.renumbered ρ).closeColumns = f.closeColumns.renumbered ρ := by
  simp [closeColumns,renumbered]

@[simp] theorem renumbered_separate : (f.renumbered ρ).separate = f.separate.renumbered ρ := by
  simp [separate,renumbered]

@[simp] theorem renumbered_admitsAssignment :
    (f.renumbered ρ).admitsAssignment = f.admitsAssignment := by
  simp [admitsAssignment]

variable {ρ i}

theorem renumbered_squareRole (h : Adjacent ρ i) :
    (f.renumbered ρ).squareRole (ρ i) = f.squareRole i := by
  have hb : (f.renumbered ρ).brace.any (· + 1 == ρ i) = f.brace.any (· + 1 == i) := by
    rw [renumbered_brace]
    cases f.brace with
    | none => rfl
    | some j => exact Bool.eq_iff_iff.mpr (by simpa using h j)
  rw [squareRole,squareRole]
  rw [hb]
  cases hf : f.brackets with
  | nil => simp [hf]
  | cons b rest =>
    obtain ⟨j,role⟩ := b
    cases role <;> simp [hf,h j]

end Frame

namespace Layout
variable {ρ : Nat → Nat} {i : Nat} (s : Layout) (t : Token)

theorem renumbered_enter : (s.renumbered ρ).enter t = (s.enter t).renumbered ρ := by
  rw [enter,enter]
  split <;> rfl

theorem renumbered_move (h : Adjacent ρ i) (following : Option Token) :
    (s.renumbered ρ).move (ρ i) t following = (s.move i t following).renumbered ρ := by
  have he : (s.renumbered ρ).outer.isEmpty = s.outer.isEmpty := List.isEmpty_map
  rw [move,move]
  rw [he]
  cases t.kind with
  | closeBrace => cases ho : s.outer <;> simp [renumbered,ho]
  | keyword => simp only [renumbered]; split_ifs <;> simp
  | _ => simp [renumbered,Frame.renumbered_squareRole _ h]

theorem renumbered_scope : (s.renumbered ρ).scope t = (s.scope t).map ρ := by
  rw [scope,scope]
  split
  · cases ho : s.outer <;> simp [renumbered,ho]
  · rfl

theorem renumbered_opener? : (s.renumbered ρ).opener? t = (s.opener? t).map ρ := by
  rw [opener?,opener?]
  cases t.kind <;> simp [renumbered]

theorem renumbered_place : (s.renumbered ρ).place t = (s.place t).renumbered ρ := by
  simp [place,Place.renumbered,renumbered_scope,renumbered_opener?,
    show (s.renumbered ρ).ns = s.ns from rfl,
    show (s.renumbered ρ).inner = s.inner.renumbered ρ from rfl]

end Layout

/-- Tokens that are numbered from another index on have the same layouts, by the new numbers. -/
theorem reached_renumbered {ρ : Nat → Nat} {i k l : Nat} (ts : List Token)
    (h : ∀ j < k, ρ (i + j) = l + j ∧ Adjacent ρ (i + j)) (s : Layout) :
    reached l (s.renumbered ρ) ts k = (reached i s ts k).renumbered ρ := by
  induction k with
  | zero => rfl
  | succ k ih =>
    obtain ⟨hk,ha⟩ := h k k.lt_succ_self
    rw [reached,reached,ih fun j hj => h j (Nat.lt_succ_of_lt hj)]
    cases ts[k]? with
    | none => rfl
    | some t =>
      simp only []
      rw [Layout.renumbered_enter,← hk,Layout.renumbered_move _ _ ha]

end BracketLayout

/-! Targets and assignments -/

namespace Assignments

def Target.renumbered (ρ : Nat → Nat) : Target → Target
  | name i => name (ρ i)
  | item i => item (ρ i)
  | group is => group (is.map ρ)

def Assignment.renumbered (ρ : Nat → Nat) (a : Assignment) : Assignment :=
  {a with colon := ρ a.colon, target := a.target.renumbered ρ, value := a.value.map ρ}

@[simp] theorem Target.members_renumbered (ρ : Nat → Nat) (x : Target) :
    (x.renumbered ρ).members = x.members.map ρ := by
  cases x <;> rfl

@[simp] theorem Target.shared_renumbered (ρ : Nat → Nat) (x : Target) :
    (x.renumbered ρ).shared = x.shared.map ρ := by
  cases x <;> rfl

@[simp] theorem Target.isItem_renumbered (ρ : Nat → Nat) (x : Target) :
    (x.renumbered ρ).isItem = x.isItem := by
  cases x <;> rfl

theorem names?_renumbered {ρ : Nat → Nat} {i l : Nat} {kinds : List Kind}
    (h : ∀ r < kinds.length, ρ (i + r) = l + r) :
    names? l kinds = (names? i kinds).map (List.map ρ) := by
  fun_induction names? i kinds generalizing l with
  | case1 i =>
    have hi : ρ i = l := h 0 (by simp)
    rw [names?,Option.map_some,List.map_singleton,hi]
  | case2 i kinds ih =>
    have hi : ρ i = l := h 0 (by simp)
    rw [names?,ih (l := l + 2) fun r hr => ?_,Option.map_map,Option.map_map]
    · simp only [Function.comp_def,List.map_cons,hi]
    · have := h (r + 2) (by simpa using hr)
      rw [Nat.add_assoc,Nat.add_comm 2,this]
      omega
  | case3 i kinds h1 h2 => simp [names?]

theorem names?_eq_none {i : Nat} {kinds : List Kind} {kind : Kind} (hk : kind ∈ kinds)
    (hi : kind ≠ .identifier) (hs : kind ≠ .semicolon) : names? i kinds = none := by
  refine Option.eq_none_iff_forall_ne_some.mpr fun is h => ?_
  rcases kind_of_names? h hk with h | h
  · exact hi h
  · exact hs h

section
variable {ρ : Nat → Nat} {ts us : List Token} {found own : List Place} {i j k : Nat} {t : Token}
  {p : Place}

theorem kindAt_eq_none : kindAt ts i = none ↔ ts.length ≤ i := by
  rw [kindAt,Option.map_eq_none_iff,List.getElem?_eq_none_iff]

/-- Tokens in a row keep their order. -/
theorem between_renumbered (ρ : Nat → Nat) (hρ : ∀ r, j ≤ r → r ≤ k → ρ r = ρ j + (r - j))
    (ht : ∀ r, j < r → r < k → us[ρ r]? = ts[r]?) (hjk : j ≤ k) :
    between us (ρ j) (ρ k) = between ts j k := by
  have hk := hρ k hjk (Nat.le_refl k)
  apply List.ext_getElem?
  intro r
  rw [between,between,List.getElem?_drop,List.getElem?_drop,List.getElem?_take,List.getElem?_take]
  by_cases hr : j + 1 + r < k
  · have hj := hρ (j + 1 + r) (by omega) hr.le
    rw [if_pos (by omega),if_pos hr,← ht _ (by omega) hr,hj]
    congr 1
    omega
  · rw [if_neg (by omega),if_neg hr]

/-- What a target that ends at index `k` is made of is found again by its new numbers. -/
structure TargetCarried (ρ : Nat → Nat) (ts : List Token) (found : List Place) (us : List Token)
    (own : List Place) (k : Nat) : Prop where
  kind : kindAt us (ρ k) = kindAt ts k
  opener : kindAt ts k = some .closeBracket ∨ kindAt ts k = some .closeParen →
    openerAt own (ρ k) = (openerAt found k).map ρ
  item : ∀ j, kindAt ts k = some .closeBracket → openerAt found k = some j →
    (j = 0 ∧ ρ j = 0) ∨ ∃ l, j = l + 1 ∧ ρ j = ρ l + 1 ∧ kindAt us (ρ l) = kindAt ts l
  group : ∀ j, kindAt ts k = some .closeParen → openerAt found k = some j →
    names? (ρ j + 1) ((between us (ρ j) (ρ k)).map (·.kind)) =
      (names? (j + 1) ((between ts j k).map (·.kind))).map (List.map ρ)

theorem target?_renumbered (h : TargetCarried ρ ts found us own k) (joined : Bool) :
    target? us own joined (ρ k) = (target? ts found joined k).map (·.renumbered ρ) := by
  have ho := h.opener
  have hi := h.item
  have hg := h.group
  simp only [openerAt,between] at ho hi hg
  simp only [target?,h.kind]
  cases hk : kindAt ts k with
  | none => rfl
  | some kind =>
    rw [hk] at ho
    cases kind with
    | closeBracket =>
      rw [ho (.inl rfl)]
      cases hj : found[k]?.bind (·.opener) with
      | none => rfl
      | some j =>
        rcases hi j hk hj with ⟨rfl,h0⟩ | ⟨l,rfl,hl,hkind⟩
        · simp only [Option.map_some,h0,Option.map_none]
        · simp only [Option.map_some,hl,hkind]
          split_ifs <;> rfl
    | closeParen =>
      rw [ho (.inr rfl)]
      cases hj : found[k]?.bind (·.opener) with
      | none => rfl
      | some j =>
        simp only [Option.map_some,hg j hk hj]
        cases names? (j + 1) (((ts.take k).drop (j + 1)).map (·.kind)) with
        | none => rfl
        | some is =>
          rcases is with _ | ⟨a,_ | ⟨b,more⟩⟩
          · rfl
          · rfl
          · cases joined <;> rfl
    | _ => rfl

/-- An assignment is found again by its new numbers, in whatever namespace. -/
theorem assignment?_renumbered (h : TargetCarried ρ ts found us own k) (hk : ρ (k + 1) = ρ k + 1)
    (hv : ρ (k + 2) = ρ k + 2) (hkind : kindAt us (ρ (k + 2)) = kindAt ts (k + 2))
    (ns : Option Text) :
    assignment? us own (ρ (k + 1)) t {p.renumbered ρ with ns := ns} =
      (assignment? ts found (k + 1) t p).map (·.renumbered ρ) := by
  rw [hv] at hkind
  have hlength : ρ k + 1 + 1 < us.length ↔ k + 1 + 1 < ts.length := by
    rw [← Nat.not_le,← Nat.not_le,not_congr]
    rw [← kindAt_eq_none,← kindAt_eq_none]
    exact iff_of_eq (congrArg (· = none) hkind)
  unfold assignment?
  rw [hk]
  cases ha : p.admits with
  | false => simp [Place.renumbered,ha]
  | true =>
    simp only [Place.renumbered,ha,target?_renumbered h,hlength,Option.map_map]
    congr 1
    funext x
    have hv' : ρ (k + 1 + 1) = ρ k + 1 + 1 := hv
    split_ifs <;> simp [Assignment.renumbered,hk,hv',hkind]

theorem madeAt_renumbered (h : TargetCarried ρ ts found us own k) (hk : ρ (k + 1) = ρ k + 1)
    (hv : ρ (k + 2) = ρ k + 2) (hkind : kindAt us (ρ (k + 2)) = kindAt ts (k + 2))
    (ht : us[ρ (k + 1)]? = ts[k + 1]?) (hl : found[k + 1]? = none → own[ρ (k + 1)]? = none)
    (hp : ∀ p, found[k + 1]? = some p →
      ∃ ns, own[ρ (k + 1)]? = some {p.renumbered ρ with ns := ns}) :
    madeAt us own (ρ (k + 1)) = (madeAt ts found (k + 1)).map (·.renumbered ρ) := by
  rw [madeAt,madeAt,ht]
  cases ts[k + 1]? with
  | none => rfl
  | some t =>
    cases hfound : found[k + 1]? with
    | none => rw [hl hfound]; rfl
    | some p =>
      obtain ⟨ns,hns⟩ := hp p hfound
      rw [hns]
      exact assignment?_renumbered h hk hv hkind ns

end

end Assignments

/-! Annotated tokens -/

def AnnotatedToken.renumbered (ρ : Nat → Nat) (a : AnnotatedToken) : AnnotatedToken :=
  {a with
    index := ρ a.index
    scope := a.scope.map ρ
    tangled := a.tangled.map ρ
    group := a.group.map ρ}

@[simp] theorem AnnotatedToken.renumbered_renumbered (ρ σ : Nat → Nat) (a : AnnotatedToken) :
    (a.renumbered ρ).renumbered σ = a.renumbered (σ ∘ ρ) := by
  simp [renumbered]

theorem AnnotatedToken.references_renumbered (ρ : Nat → Nat) (a : AnnotatedToken) :
    (a.renumbered ρ).references = a.references.map ρ := by
  cases hs : a.scope <;> cases ht : a.tangled <;> simp [references,renumbered,hs,ht]

namespace Annotating

theorem idxOf_map {ρ : Nat → Nat} (hρ : Function.Injective ρ) (i : Nat) (is : List Nat) :
    (is.map ρ).idxOf (ρ i) = is.idxOf i := by
  rw [List.idxOf,List.findIdx_map,List.idxOf]
  congr 1
  funext m
  exact Bool.eq_iff_iff.mpr (by simp [hρ.eq_iff])

section
variable {ρ : Nat → Nat} {D : Nat → Prop} {ns ns' : Option Text} {ts us : List Token} {i : Nat}
  {t : Token}

/-- The annotations of a token go with its place and with the assignments that it takes part in. -/
theorem annotated_renumbered (hρ : Function.Injective ρ) {made own : List Assignment}
    (hm : own.find? (·.target.members.contains (ρ i)) =
      (made.find? (·.target.members.contains i)).map (·.renumbered ρ))
    (hc : own.find? (·.colon == ρ i) = (made.find? (·.colon == i)).map (·.renumbered ρ))
    (t : Token) (p : Place) (ns : Option Text) :
    annotated own (ρ i) t {p.renumbered ρ with ns := ns} =
      {(annotated made i t p).renumbered ρ with ns := ns} := by
  simp only [annotated,hm,hc]
  cases made.find? (·.target.members.contains i) with
  | some a =>
    simp [AnnotatedToken.renumbered,Assignment.renumbered,Place.renumbered,idxOf_map hρ]
  | none =>
    cases made.find? (·.colon == i) <;>
      simp [AnnotatedToken.renumbered,Assignment.renumbered,Place.renumbered]

/-- The assignments of the tokens of `ts` in a region are those of their images in `us`. -/
structure Carried (ρ : Nat → Nat) (D : Nat → Prop) (ns : Option Text) (ts : List Token)
    (ns' : Option Text) (us : List Token) : Prop where
  injective : Function.Injective ρ
  made : ∀ i, D i → madeAt us (places 0 (.start ns') us) (ρ i) =
    (madeAt ts (places 0 (.start ns) ts) i).map (·.renumbered ρ)
  source : ∀ a i, D i → TargetOf ns ts a i → D a.colon
  image : ∀ b i, D i → TargetOf ns' us b (ρ i) → ∃ c, D c ∧ b.colon = ρ c

theorem Carried.find?_member (h : Carried ρ D ns ts ns' us) (hi : D i) :
    (assignmentsIn ns' us).find? (·.target.members.contains (ρ i)) =
      ((assignmentsIn ns ts).find? (·.target.members.contains i)).map (·.renumbered ρ) := by
  apply Option.ext
  intro b
  rw [Annotating.find?_member,Option.map_eq_some_iff]
  simp only [Annotating.find?_member]
  constructor
  · intro hb
    obtain ⟨c,hc,hbc⟩ := h.image b i hi hb
    have hmade := h.made c hc
    rw [← hbc,mem_assignments_iff_madeAt.mp hb.made] at hmade
    obtain ⟨a,ha,rfl⟩ := Option.map_eq_some_iff.mp hmade.symm
    have hm := hb.member
    simp only [Assignment.renumbered,Target.members_renumbered,List.mem_map] at hm
    obtain ⟨m,hm,hmi⟩ := hm
    obtain rfl := h.injective hmi
    exact ⟨a,⟨mem_assignments_iff_madeAt.mpr (colon_of_madeAt ha ▸ ha),hm⟩,rfl⟩
  · rintro ⟨a,ha,rfl⟩
    have hmade := h.made _ (h.source a i hi ha)
    rw [mem_assignments_iff_madeAt.mp ha.made] at hmade
    refine ⟨mem_assignments_iff_madeAt.mpr hmade,?_⟩
    simp only [Assignment.renumbered,Target.members_renumbered]
    exact List.mem_map_of_mem ha.member

/-- A token of the region has the same annotations at its new number, all but the namespace. -/
theorem Carried.getElem?_annotateIn (h : Carried ρ D ns ts ns' us) (hi : D i) {p : Place}
    {x : Option Text} (ht : ts[i]? = some t) (ht' : us[ρ i]? = some t)
    (hp : (places 0 (.start ns) ts)[i]? = some p)
    (hp' : (places 0 (.start ns') us)[ρ i]? = some {p.renumbered ρ with ns := x}) :
    ∃ u, (annotateIn ns ts)[i]? = some u ∧ u.ns = p.ns ∧
      (annotateIn ns' us)[ρ i]? = some {u.renumbered ρ with ns := x} := by
  refine ⟨annotated (assignmentsIn ns ts) i t p,?_,rfl,?_⟩
  · rw [Annotating.getElem?_annotateIn,ht,place_of_getElem? ht hp]
    rfl
  · have hc := h.made i hi
    rw [← find?_colon_eq_madeAt,← find?_colon_eq_madeAt] at hc
    rw [Annotating.getElem?_annotateIn,ht',Option.map_some,← place_of_getElem? ht' hp']
    exact congrArg some (annotated_renumbered h.injective (h.find?_member hi) hc t p x)

end

end Annotating
end QScope
