import QScope.Proofs.AssignmentTargets

/-! # Assignment links: colons, targets and values refer to each other and to nothing else -/
namespace QScope

/-- The indices that the annotations of a token hold. -/
def AnnotatedToken.references (a : AnnotatedToken) : List Nat :=
  a.scope.toList ++ a.tangled.toList ++ a.group

namespace Annotating
open BracketLayout Assignments

/-- The token at index `m` is a target of the colon at index `o`: the one that the colon is tied to
or another member of its group. -/
def Assigns (found : List AnnotatedToken) (o m : Nat) : Prop :=
  ∃ c h, found[o]? = some c ∧ c.kind.isAssign = true ∧ c.tangled = some h ∧
    (m = h ∨ ∃ u, found[h]? = some u ∧ m ∈ u.group)

/-- The members of a group, of which the token `a` at index `i` is one, in their order, and alike
in all that the assignment says of them. -/
structure Grouped (found : List AnnotatedToken) (i : Nat) (a : AnnotatedToken) : Prop where
  several : 2 ≤ a.group.length
  increasing : a.group.Pairwise (· < ·)
  own : a.group[a.order - 1]? = some i
  members : ∀ k m, a.group[k]? = some m → ∃ u, found[m]? = some u ∧ u.order = k + 1 ∧
    u.group = a.group ∧ u.tangled = a.tangled ∧ u.flags = a.flags ∧ u.flags.amended = false
  colon : ∃ o c, found[o]? = some c ∧ c.kind.isAssign = true ∧ c.tangled = a.group.head? ∧
    Assigns found o i

/-- The annotations of tokens refer to each other as assignments do. -/
structure WellLinked (tokens : List Token) (found : List AnnotatedToken) : Prop where
  kinds : found.map (·.kind) = tokens.map (·.kind)
  described : ∀ (i : Nat) (a : AnnotatedToken) (r : Nat), found[i]? = some a → r ∈ a.references →
    ∃ u, found[r]? = some u ∧ labelAt found r = u.label
  tied : ∀ (i : Nat) (a : AnnotatedToken) (m : Nat), found[i]? = some a → a.tangled = some m →
    (a.kind.isAssign = true ∧ m < i ∧
      ∃ u, found[m]? = some u ∧ u.kind = .identifier ∧ u.flags.assigned = true) ∨
    (a.kind = .identifier ∧ ∃ o, Assigns found o i)
  unique : ∀ o k m, Assigns found o m → Assigns found k m → o = k
  target : ∀ o m, Assigns found o m → ∃ u, found[m]? = some u ∧ u.kind = .identifier ∧ m < o ∧
    u.tangled = if o + 1 < found.length then some (o + 1) else none
  assigned : ∀ (i : Nat) (a : AnnotatedToken), found[i]? = some a →
    (a.flags.assigned = true ↔ a.flags.param = true ∨ ∃ o, Assigns found o i)
  marked : ∀ (i : Nat) (a : AnnotatedToken), found[i]? = some a →
    a.flags.amended = true ∨ a.flags.global = true ∨ a.flags.lambda = true →
    ∃ o, Assigns found o i
  exclusive : ∀ (i : Nat) (a : AnnotatedToken), found[i]? = some a →
    ¬(a.flags.amended = true ∧ a.flags.global = true)
  lambda : ∀ (i : Nat) (a : AnnotatedToken), found[i]? = some a →
    (a.flags.lambda = true ↔
      ∃ v, a.tangled = some v ∧ ∃ u, found[v]? = some u ∧ u.kind = .openBrace)
  ranked : ∀ (i : Nat) (a : AnnotatedToken), found[i]? = some a → (a.group ≠ [] ↔ 1 ≤ a.order)
  grouped : ∀ (i : Nat) (a : AnnotatedToken), found[i]? = some a → a.group ≠ [] →
    Grouped found i a

theorem find?_eq_some_iff_of_unique {α : Type} {p : α → Bool} {l : List α} {a : α}
    (h : ∀ b ∈ l, ∀ c ∈ l, p b = true → p c = true → b = c) :
    l.find? p = some a ↔ a ∈ l ∧ p a = true := by
  constructor
  · intro ha
    exact ⟨List.mem_of_find?_eq_some ha,List.find?_some ha⟩
  · rintro ⟨ha,hp⟩
    obtain ⟨b,hb⟩ := Option.isSome_iff_exists.mp (List.find?_isSome.mpr ⟨a,ha,hp⟩)
    rw [hb,h b (List.mem_of_find?_eq_some hb) a ha (List.find?_some hb) hp]

section
variable {ns : Option Text} {tokens : List Token} {i k m o : Nat} {t : Token} {p : Place}
  {a : Assignment} {u : AnnotatedToken}

/-! Each token takes part in at most one assignment -/

/-- The assignments of a text that begins in the namespace `ns`. -/
def assignmentsIn (ns : Option Text) (tokens : List Token) : List Assignment :=
  assignments tokens (places 0 (.start ns) tokens)

/-- The token at index `m` is a target of an assignment of the text. -/
structure TargetOf (ns : Option Text) (tokens : List Token) (a : Assignment) (m : Nat) : Prop where
  made : a ∈ assignmentsIn ns tokens
  member : m ∈ a.target.members

theorem find?_member : (assignmentsIn ns tokens).find? (·.target.members.contains i) = some a ↔
    TargetOf ns tokens a i := by
  rw [find?_eq_some_iff_of_unique,List.contains_iff_mem]
  · exact ⟨fun h => ⟨h.1,h.2⟩,fun h => ⟨h.made,h.member⟩⟩
  · intro b hb c hc hi hi'
    exact eq_of_member hb hc (List.contains_iff_mem.mp hi) (List.contains_iff_mem.mp hi')

theorem find?_colon : (assignmentsIn ns tokens).find? (·.colon == i) = some a ↔
    a ∈ assignmentsIn ns tokens ∧ a.colon = i := by
  rw [find?_eq_some_iff_of_unique,beq_iff_eq]
  intro b hb c hc hi hi'
  exact eq_of_colon hb hc ((beq_iff_eq.mp hi).trans (beq_iff_eq.mp hi').symm)

theorem find?_colon_eq_madeAt : (assignmentsIn ns tokens).find? (·.colon == i) =
    madeAt tokens (places 0 (.start ns) tokens) i := by
  apply Option.ext
  intro a
  rw [find?_colon,assignmentsIn,mem_assignments_iff_madeAt]
  constructor
  · rintro ⟨ha,rfl⟩
    exact ha
  · intro ha
    obtain rfl := colon_of_madeAt ha
    exact ⟨ha,rfl⟩

/-- Targets are names in front of their colon. -/
theorem TargetOf.identifier (h : TargetOf ns tokens a m) :
    kindAt tokens m = some .identifier ∧ m < a.colon := by
  obtain ⟨k,t,p,hm⟩ := made_of_mem h.made
  obtain ⟨hk,hlt,-⟩ := hm.endsAt.nameBehind (places_fits ns tokens) h.member
  rw [hm.colon]
  exact ⟨hk,Nat.lt_succ_of_le hlt⟩

theorem isAssign_colon (ha : a ∈ assignmentsIn ns tokens) :
    ∃ t, tokens[a.colon]? = some t ∧ t.kind.isAssign = true := by
  obtain ⟨k,t,p,hm⟩ := made_of_mem ha
  rw [hm.colon]
  exact ⟨t,hm.token,hm.kind (places_fits ns tokens)⟩

/-- Colons are no targets. -/
theorem not_targetOf (ht : tokens[i]? = some t) (hc : t.kind.isAssign = true) :
    ¬TargetOf ns tokens a i := by
  intro h
  have hk := Option.some.inj ((kindAt_eq_some ht).symm.trans h.identifier.1)
  rw [hk] at hc
  exact absurd hc nofun

/-- What an assignment says of its target at index `i`. -/
structure Noted (a : Assignment) (i : Nat) (u : AnnotatedToken) : Prop where
  kind : u.kind = .identifier
  tangled : u.tangled = a.value
  group : u.group = a.target.shared
  order : u.order = if a.target.shared.isEmpty then 0 else a.target.shared.idxOf i + 1
  flags : u.flags = ⟨true,a.amends,a.lambda,u.flags.param,a.global⟩

/-- What is said of any other token: it is tied to a target if it is the colon of an assignment. -/
structure Untargeted (ns : Option Text) (tokens : List Token) (i : Nat) (u : AnnotatedToken) :
    Prop where
  free : ∀ a, ¬TargetOf ns tokens a i
  tangled : u.tangled =
    ((assignmentsIn ns tokens).find? (·.colon == i)).bind (·.target.members.head?)
  group : u.group = []
  order : u.order = 0
  flags : u.flags = ⟨u.flags.param,false,false,u.flags.param,false⟩

theorem noted_annotated (h : TargetOf ns tokens a i) (ht : tokens[i]? = some t) (p : Place) :
    Noted a i (annotated (assignmentsIn ns tokens) i t p) := by
  have hk := Option.some.inj ((kindAt_eq_some ht).symm.trans h.identifier.1)
  constructor <;>
    simp only [annotated,find?_member.mpr h,Option.map_some,Option.getD_some,Option.isSome_some,
      Bool.or_true,Option.any_some,hk]

theorem untargeted_annotated (h : ∀ a, ¬TargetOf ns tokens a i) (t : Token) (p : Place) :
    Untargeted ns tokens i (annotated (assignmentsIn ns tokens) i t p) := by
  have hn : (assignmentsIn ns tokens).find? (·.target.members.contains i) = none :=
    Option.eq_none_iff_forall_ne_some.mpr fun a ha => h a (find?_member.mp ha)
  refine ⟨h,?_,?_,?_,?_⟩ <;>
    simp only [annotated,hn,Option.map_none,Option.getD_none,Option.isSome_none,Bool.or_false,
      Option.any_none,List.isEmpty_nil,if_true]

/-- Each token of the text is annotated at its place. -/
theorem annotated_of_getElem? (hu : (annotateIn ns tokens)[i]? = some u) :
    ∃ t p, tokens[i]? = some t ∧ (places 0 (.start ns) tokens)[i]? = some p ∧
      u = annotated (assignmentsIn ns tokens) i t p := by
  rw [getElem?_annotateIn] at hu
  obtain ⟨t,ht,rfl⟩ := Option.map_eq_some_iff.mp hu
  refine ⟨t,_,ht,?_,rfl⟩
  rw [getElem?_places,ht]
  rfl

/-- The annotations of a token say that it is a target, and of which assignment, or that it is
none. -/
theorem noted_or_untargeted (hu : (annotateIn ns tokens)[i]? = some u) :
    (∃ a, TargetOf ns tokens a i ∧ Noted a i u) ∨ Untargeted ns tokens i u := by
  obtain ⟨t,p,ht,-,rfl⟩ := annotated_of_getElem? hu
  rcases em (∃ a, TargetOf ns tokens a i) with ⟨a,h⟩ | h
  · exact .inl ⟨a,h,noted_annotated h ht p⟩
  · exact .inr (untargeted_annotated (not_exists.mp h) t p)

theorem exists_getElem? (ns : Option Text) (ht : tokens[i]? = some t) :
    ∃ u, (annotateIn ns tokens)[i]? = some u ∧ u.kind = t.kind := by
  rw [getElem?_annotateIn,ht]
  exact ⟨_,rfl,rfl⟩

theorem TargetOf.noted (h : TargetOf ns tokens a m) :
    ∃ u, (annotateIn ns tokens)[m]? = some u ∧ Noted a m u := by
  obtain ⟨t,ht,-⟩ := Option.map_eq_some_iff.mp h.identifier.1
  obtain ⟨u,hu,-⟩ := exists_getElem? ns ht
  rcases noted_or_untargeted hu with ⟨b,hb,hn⟩ | hn
  · rw [eq_of_member h.made hb.made h.member hb.member]
    exact ⟨u,hu,hn⟩
  · exact absurd h (hn.free a)

/-- The colon of an assignment is tied to the first target. -/
theorem tied_colon (ha : a ∈ assignmentsIn ns tokens) :
    ∃ c, (annotateIn ns tokens)[a.colon]? = some c ∧ c.kind.isAssign = true ∧
      c.tangled = a.target.members.head? := by
  obtain ⟨t,ht,hassign⟩ := isAssign_colon ha
  obtain ⟨c,hc,hk⟩ := exists_getElem? ns ht
  refine ⟨c,hc,hk ▸ hassign,?_⟩
  rcases noted_or_untargeted hc with ⟨b,hb,-⟩ | hn
  · exact absurd hb (not_targetOf ht hassign)
  · rw [hn.tangled,find?_colon.mpr ⟨ha,rfl⟩]
    rfl

/-- A token that is no target is tied to a target only if it is the colon of an assignment. -/
theorem Untargeted.targetOf (h : Untargeted ns tokens i u) (hm : u.tangled = some m) :
    ∃ a, TargetOf ns tokens a m ∧ a.colon = i := by
  rw [h.tangled] at hm
  obtain ⟨a,ha,hh⟩ := Option.bind_eq_some_iff.mp hm
  obtain ⟨ha,hi⟩ := find?_colon.mp ha
  exact ⟨a,⟨ha,List.mem_of_mem_head? hh⟩,hi⟩

theorem head?_members (x : Target) (hm : m ∈ x.members) :
    ∃ h, x.members.head? = some h ∧ h ∈ x.members ∧ (m = h ∨ m ∈ x.shared) := by
  cases x with
  | name i => exact ⟨i,rfl,List.mem_cons_self,.inl (List.mem_singleton.mp hm)⟩
  | item i => exact ⟨i,rfl,List.mem_cons_self,.inl (List.mem_singleton.mp hm)⟩
  | group is =>
    cases is with
    | nil => exact absurd hm nofun
    | cons i is => exact ⟨i,rfl,List.mem_cons_self,.inr hm⟩

theorem members_of_shared {x : Target} (hs : x.shared ≠ []) : x.members = x.shared := by
  cases x with
  | name i => exact absurd rfl hs
  | item i => exact absurd rfl hs
  | group is => rfl

theorem TargetOf.of_shared (ha : a ∈ assignmentsIn ns tokens) (hm : m ∈ a.target.shared) :
    TargetOf ns tokens a m :=
  ⟨ha,members_of_shared (List.ne_nil_of_mem hm) ▸ hm⟩

/-- The links of a colon are those of its assignment. -/
theorem assigns_iff : Assigns (annotateIn ns tokens) o m ↔
    ∃ a, TargetOf ns tokens a m ∧ a.colon = o := by
  constructor
  · rintro ⟨c,h,hc,hassign,htied,hm⟩
    rcases noted_or_untargeted hc with ⟨b,-,hn⟩ | hn
    · rw [hn.kind] at hassign
      exact absurd hassign nofun
    · obtain ⟨a,ha,ho⟩ := hn.targetOf htied
      refine ⟨a,?_,ho⟩
      rcases hm with rfl | ⟨u,hu,hm⟩
      · exact ha
      · obtain ⟨v,hv,hn⟩ := ha.noted
        obtain rfl := Option.some.inj (hu.symm.trans hv)
        exact .of_shared ha.made (hn.group ▸ hm)
  · rintro ⟨a,h,rfl⟩
    obtain ⟨c,hc,hassign,htied⟩ := tied_colon h.made
    obtain ⟨l,hl,hlm,hm⟩ := head?_members a.target h.member
    refine ⟨c,l,hc,hassign,htied.trans hl,hm.imp_right fun hm => ?_⟩
    obtain ⟨u,hu,hn⟩ := TargetOf.noted ⟨h.made,hlm⟩
    exact ⟨u,hu,hn.group ▸ hm⟩

theorem TargetOf.assigns (h : TargetOf ns tokens a m) : Assigns (annotateIn ns tokens) a.colon m :=
  assigns_iff.mpr ⟨a,h,rfl⟩

/-! What assignments say -/

theorem value_eq (ha : a ∈ assignmentsIn ns tokens) :
    a.value = if a.colon + 1 < tokens.length then some (a.colon + 1) else none := by
  obtain ⟨k,t,p,hm⟩ := made_of_mem ha
  rw [hm.value,hm.colon]

/-- A value is a function literal when it begins with a brace. -/
theorem lambda_iff (ha : a ∈ assignmentsIn ns tokens) :
    a.lambda = true ↔ ∃ v, a.value = some v ∧ kindAt tokens v = some .openBrace := by
  obtain ⟨k,t,p,hm⟩ := made_of_mem ha
  rw [hm.lambda,hm.value,beq_iff_eq]
  constructor
  · intro h
    exact ⟨k + 2,if_pos (lt_length_of_kindAt h),h⟩
  · rintro ⟨v,hv,h⟩
    split_ifs at hv
    rw [Option.some.inj hv]
    exact h

theorem not_amends_and_global (ha : a ∈ assignmentsIn ns tokens) :
    ¬(a.amends = true ∧ a.global = true) := by
  obtain ⟨k,t,p,hm⟩ := made_of_mem ha
  rintro ⟨hamends,hglobal⟩
  rw [hm.amends,Bool.or_eq_true,beq_iff_eq] at hamends
  rw [hm.global,Bool.and_eq_true,Bool.and_eq_true,beq_iff_eq,Bool.not_eq_true'] at hglobal
  rcases hamends with hk | hi
  · exact absurd (hk.symm.trans hglobal.1.1) nofun
  · exact absurd (hi.symm.trans hglobal.2) nofun

/-- A group has two members or more, in their order, and none of them is amended. -/
theorem shared_of_mem (ha : a ∈ assignmentsIn ns tokens) (hs : a.target.shared ≠ []) :
    2 ≤ a.target.shared.length ∧ a.target.shared.Pairwise (· < ·) ∧ a.amends = false := by
  obtain ⟨k,t,p,hm⟩ := made_of_mem ha
  obtain ⟨hl,hp,hitem⟩ := hm.endsAt.group_members hs
  have hkind : (t.kind == .amend) = false :=
    Bool.eq_false_iff.mpr fun hk => hs ((endsAt_of_target? hm.target).2 hk)
  exact ⟨hl,hp,by rw [hm.amends,hkind,hitem]; rfl⟩

theorem TargetOf.param_eq_false (h : TargetOf ns tokens a m) (hs : a.target.shared ≠ [])
    (hu : (annotateIn ns tokens)[m]? = some u) : u.flags.param = false := by
  obtain ⟨k,t,p,hm⟩ := made_of_mem h.made
  obtain ⟨v,q,-,hq,rfl⟩ := annotated_of_getElem? hu
  exact hm.endsAt.param_eq_false hs h.member hq

/-! What the annotations say -/

theorem kinds_annotateIn (ns : Option Text) (tokens : List Token) :
    (annotateIn ns tokens).map (·.kind) = tokens.map (·.kind) := by
  apply List.ext_getElem?
  intro i
  rw [List.getElem?_map,List.getElem?_map,getElem?_annotateIn]
  cases tokens[i]? <;> rfl

theorem kind_iff {v : Nat} {kind : Kind} :
    (∃ w, (annotateIn ns tokens)[v]? = some w ∧ w.kind = kind) ↔
      kindAt tokens v = some kind := by
  rw [kindAt,← List.getElem?_map,← kinds_annotateIn ns,List.getElem?_map,Option.map_eq_some_iff]

/-- The tokens that annotations refer to are there. -/
theorem reference_lt (hu : (annotateIn ns tokens)[i]? = some u) (hr : k ∈ u.references) :
    k < tokens.length := by
  have htarget : ∀ {a m}, TargetOf ns tokens a m → m < tokens.length :=
    fun h => lt_length_of_kindAt h.identifier.1
  rw [AnnotatedToken.references,List.mem_append,List.mem_append,Option.mem_toList,
    Option.mem_toList] at hr
  rcases hr with (hr | hr) | hr
  · obtain ⟨t,p,ht,hp,rfl⟩ := annotated_of_getElem? hu
    exact lt_length_of_kindAt ((places_sound ht hp).scope k hr).2
  · rcases noted_or_untargeted hu with ⟨a,h,hn⟩ | hn
    · rw [hn.tangled,value_eq h.made] at hr
      split_ifs at hr with hlt
      rw [← Option.some.inj hr]
      exact hlt
    · obtain ⟨a,ha,-⟩ := hn.targetOf hr
      exact htarget ha
  · rcases noted_or_untargeted hu with ⟨a,h,hn⟩ | hn
    · exact htarget (.of_shared h.made (hn.group ▸ hr))
    · rw [hn.group] at hr
      exact absurd hr nofun

theorem described_annotateIn (hu : (annotateIn ns tokens)[i]? = some u) (hr : k ∈ u.references) :
    ∃ v, (annotateIn ns tokens)[k]? = some v ∧ labelAt (annotateIn ns tokens) k = v.label := by
  have hk := reference_lt hu hr
  rw [← length_annotateIn ns] at hk
  refine ⟨_,List.getElem?_eq_getElem hk,?_⟩
  rw [labelAt,List.getElem?_eq_getElem hk]
  rfl

/-- A token that is tied to another one is a colon behind its target or a target. -/
theorem tied_annotateIn (hu : (annotateIn ns tokens)[i]? = some u) (hm : u.tangled = some m) :
    (u.kind.isAssign = true ∧ m < i ∧ ∃ v, (annotateIn ns tokens)[m]? = some v ∧
      v.kind = .identifier ∧ v.flags.assigned = true) ∨
    (u.kind = .identifier ∧ ∃ o, Assigns (annotateIn ns tokens) o i) := by
  rcases noted_or_untargeted hu with ⟨a,h,hn⟩ | hn
  · exact .inr ⟨hn.kind,a.colon,h.assigns⟩
  · obtain ⟨a,ha,rfl⟩ := hn.targetOf hm
    obtain ⟨c,hc,hassign,-⟩ := tied_colon ha.made
    obtain rfl := Option.some.inj (hu.symm.trans hc)
    obtain ⟨v,hv,hn⟩ := ha.noted
    exact .inl ⟨hassign,ha.identifier.2,v,hv,hn.kind,by rw [hn.flags]⟩

theorem unique_annotateIn (ho : Assigns (annotateIn ns tokens) o m)
    (hk : Assigns (annotateIn ns tokens) k m) : o = k := by
  obtain ⟨a,ha,rfl⟩ := assigns_iff.mp ho
  obtain ⟨b,hb,rfl⟩ := assigns_iff.mp hk
  rw [eq_of_member ha.made hb.made ha.member hb.member]

theorem target_annotateIn (ho : Assigns (annotateIn ns tokens) o m) :
    ∃ u, (annotateIn ns tokens)[m]? = some u ∧ u.kind = .identifier ∧ m < o ∧
      u.tangled = if o + 1 < (annotateIn ns tokens).length then some (o + 1) else none := by
  obtain ⟨a,ha,rfl⟩ := assigns_iff.mp ho
  obtain ⟨u,hu,hn⟩ := ha.noted
  refine ⟨u,hu,hn.kind,ha.identifier.2,?_⟩
  rw [hn.tangled,value_eq ha.made,length_annotateIn]

/-- Parameters and targets are assigned, and nothing else. -/
theorem assigned_annotateIn (hu : (annotateIn ns tokens)[i]? = some u) :
    u.flags.assigned = true ↔
      u.flags.param = true ∨ ∃ o, Assigns (annotateIn ns tokens) o i := by
  rcases noted_or_untargeted hu with ⟨a,h,hn⟩ | hn
  · exact ⟨fun _ => .inr ⟨a.colon,h.assigns⟩,fun _ => by rw [hn.flags]⟩
  · rw [hn.flags]
    refine ⟨.inl,fun hp => hp.resolve_right ?_⟩
    rintro ⟨o,ho⟩
    obtain ⟨a,ha,-⟩ := assigns_iff.mp ho
    exact hn.free a ha

theorem marked_annotateIn (hu : (annotateIn ns tokens)[i]? = some u)
    (hm : u.flags.amended = true ∨ u.flags.global = true ∨ u.flags.lambda = true) :
    ∃ o, Assigns (annotateIn ns tokens) o i := by
  rcases noted_or_untargeted hu with ⟨a,h,-⟩ | hn
  · exact ⟨a.colon,h.assigns⟩
  · rw [hn.flags] at hm
    rcases hm with hm | hm | hm <;> exact absurd hm nofun

theorem exclusive_annotateIn (hu : (annotateIn ns tokens)[i]? = some u) :
    ¬(u.flags.amended = true ∧ u.flags.global = true) := by
  rcases noted_or_untargeted hu with ⟨a,h,hn⟩ | hn
  · rw [hn.flags]
    exact not_amends_and_global h.made
  · rw [hn.flags]
    exact fun hm => absurd hm.1 nofun

theorem lambda_annotateIn (hu : (annotateIn ns tokens)[i]? = some u) :
    u.flags.lambda = true ↔
      ∃ v, u.tangled = some v ∧ ∃ w, (annotateIn ns tokens)[v]? = some w ∧ w.kind = .openBrace := by
  simp only [kind_iff]
  rcases noted_or_untargeted hu with ⟨a,h,hn⟩ | hn
  · rw [hn.flags,hn.tangled]
    exact lambda_iff h.made
  · rw [hn.flags]
    refine ⟨nofun,?_⟩
    rintro ⟨v,hv,hk⟩
    obtain ⟨a,ha,-⟩ := hn.targetOf hv
    exact absurd (hk.symm.trans ha.identifier.1) nofun

theorem ranked_annotateIn (hu : (annotateIn ns tokens)[i]? = some u) :
    u.group ≠ [] ↔ 1 ≤ u.order := by
  rcases noted_or_untargeted hu with ⟨a,h,hn⟩ | hn
  · rw [hn.group,hn.order]
    cases a.target.shared <;> simp
  · simp [hn.group,hn.order]

theorem grouped_annotateIn (hu : (annotateIn ns tokens)[i]? = some u) (hg : u.group ≠ []) :
    Grouped (annotateIn ns tokens) i u := by
  rcases noted_or_untargeted hu with ⟨a,h,hn⟩ | hn
  · have hs : a.target.shared ≠ [] := hn.group ▸ hg
    obtain ⟨hl,hp,hamends⟩ := shared_of_mem h.made hs
    have hmembers := members_of_shared hs
    have hnodup : a.target.shared.Nodup := hp.imp Nat.ne_of_lt
    have hrank : ∀ {m}, (if a.target.shared.isEmpty then 0 else a.target.shared.idxOf m + 1) =
        a.target.shared.idxOf m + 1 :=
      if_neg fun he => hs (List.isEmpty_iff.mp he)
    refine ⟨hn.group ▸ hl,hn.group ▸ hp,?_,fun k m hm => ?_,?_⟩
    · rw [hn.group,hn.order,hrank]
      exact List.getElem?_idxOf (hmembers ▸ h.member)
    · rw [hn.group] at hm
      have hmem := TargetOf.of_shared h.made (List.mem_of_getElem? hm)
      obtain ⟨v,hv,hnv⟩ := hmem.noted
      obtain ⟨hk,rfl⟩ := List.getElem?_eq_some_iff.mp hm
      refine ⟨v,hv,?_,hnv.group.trans hn.group.symm,hnv.tangled.trans hn.tangled.symm,?_,?_⟩
      · rw [hnv.order,hrank,hnodup.idxOf_getElem k hk]
      · rw [hnv.flags,hn.flags,hmem.param_eq_false hs hv,h.param_eq_false hs hu]
      · rw [hnv.flags]
        exact hamends
    · obtain ⟨c,hc,hassign,htied⟩ := tied_colon h.made
      exact ⟨a.colon,c,hc,hassign,by rw [htied,hmembers,hn.group],h.assigns⟩
  · exact absurd hn.group hg

/-- Whatever the tokens are, the links between them are those of assignments. -/
theorem annotate_wellLinked (tokens : List Token) : WellLinked tokens (annotate tokens) where
  kinds := kinds_annotateIn none tokens
  described _ _ _ hu hr := described_annotateIn hu hr
  tied _ _ _ hu hm := tied_annotateIn hu hm
  unique _ _ _ ho hk := unique_annotateIn ho hk
  target _ _ ho := target_annotateIn ho
  assigned _ _ hu := assigned_annotateIn hu
  marked _ _ hu hm := marked_annotateIn hu hm
  exclusive _ _ hu := exclusive_annotateIn hu
  lambda _ _ hu := lambda_annotateIn hu
  ranked _ _ hu := ranked_annotateIn hu
  grouped _ _ hu hg := grouped_annotateIn hu hg

end

end Annotating
end QScope
