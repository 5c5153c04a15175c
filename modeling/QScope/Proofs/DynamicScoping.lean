import QScope.Proofs.Searches

/-! # Dynamic scoping: a name is local to a lambda that assigns it, and else global

The rule is stated by what the tokens of a text assign. Neither a lambda around that of a name nor
one inside it has a part in it. -/
namespace QScope.Resolution

/-- A token binds a name in the lambda with a given brace: it assigns all of its value, and not with
a double colon. -/
structure BindsIn (u : AnnotatedToken) (brace : Nat) (name : Text) : Prop where
  identifier : u.kind = .identifier
  plain : u.isQualified = false
  assigned : u.flags.assigned = true
  whole : u.flags.amended = false
  inside : u.flags.global = false
  scope : u.scope = some brace
  image : u.image = name

/-- A name is local in the lambda that it stands in when some token binds it there. -/
structure LocalIn (tokens : List AnnotatedToken) (t : AnnotatedToken) (brace : Nat) : Prop where
  plain : t.isQualified = false
  scope : t.scope = some brace
  bound : ∃ u ∈ tokens, BindsIn u brace t.image

/-- A name is global when some token assigns all of its value and is not local itself. -/
def GlobalAs (tokens : List AnnotatedToken) (name : Text) : Prop :=
  ∃ u ∈ tokens, u.kind = .identifier ∧ u.flags.assigned = true ∧ u.flags.amended = false ∧
    u.canonicalName = name ∧ ∀ brace, ¬LocalIn tokens u brace

/-- The binding of a name, and what is found of it. A local name is searched for in its own lambda
and nowhere else: other tokens neither are found nor change what is. -/
structure DynamicallyScoped (tokens : List AnnotatedToken) (t : AnnotatedToken) : Prop where
  local_iff : ∀ brace name,
    (Bindings.ofTokens tokens).resolve t = some (.inLambda brace name) ↔
      LocalIn tokens t brace ∧ name = t.image
  global_iff : ∀ name,
    (Bindings.ofTokens tokens).resolve t = some (.inNamespace name) ↔
      (∀ brace, ¬LocalIn tokens t brace) ∧ GlobalAs tokens name ∧ name = t.canonicalName
  unresolved : (∀ brace, ¬LocalIn tokens t brace) → ¬GlobalAs tokens t.canonicalName →
    (Bindings.ofTokens tokens).resolve t = none ∧
      ∀ search, search ≠ .completion → find search tokens t = []
  confined : ∀ brace, LocalIn tokens t brace → ∀ search, search ≠ .completion →
    (∀ u ∈ find search tokens t, u.scope = some brace) ∧
      ∀ others : List AnnotatedToken,
        others.filter (·.scope == some brace) = tokens.filter (·.scope == some brace) →
          find search others t = find search tokens t

section
variable {tokens others : List AnnotatedToken} {t u : AnnotatedToken} {brace : Nat} {name : Text}
  {search : Search}

theorem defines_iff : t.defines = true ↔
    t.kind = .identifier ∧ t.flags.assigned = true ∧ t.flags.amended = false := by
  simp [AnnotatedToken.defines,AnnotatedToken.isAssigned,AnnotatedToken.isIdentifier,and_assoc]

theorem mem_locals_iff_bindsIn :
    (brace,name) ∈ (Bindings.ofTokens tokens).locals ↔ ∃ u ∈ tokens, BindsIn u brace name := by
  rw [Bindings.mem_locals]
  refine exists_congr fun u => and_congr_right fun _ => ?_
  rw [defines_iff,localKey?_eq_some]
  constructor
  · rintro ⟨⟨hi,ha,hw⟩,hg,hq,hs,hn⟩
    exact ⟨hi,hq,ha,hw,hg,hs,hn⟩
  · rintro ⟨hi,hq,ha,hw,hg,hs,hn⟩
    exact ⟨⟨hi,ha,hw⟩,hg,hq,hs,hn⟩

theorem localIn_iff : LocalIn tokens t brace ↔
    localKey? t = some (brace,t.image) ∧ (brace,t.image) ∈ (Bindings.ofTokens tokens).locals := by
  rw [localKey?_eq_some,mem_locals_iff_bindsIn]
  constructor
  · rintro ⟨hq,hs,hb⟩
    exact ⟨⟨hq,hs,rfl⟩,hb⟩
  · rintro ⟨⟨hq,hs,-⟩,hb⟩
    exact ⟨hq,hs,hb⟩

theorem local?_eq_none_iff_localIn :
    Bindings.local? (Bindings.ofTokens tokens).locals t = none ↔
      ∀ brace, ¬LocalIn tokens t brace := by
  rw [Bindings.local?_eq_none]
  constructor
  · intro h brace hl
    obtain ⟨hk,hm⟩ := localIn_iff.mp hl
    exact h _ hk hm
  · rintro h ⟨brace,name⟩ hk hm
    obtain rfl : name = t.image := image_of_localKey? hk
    exact h brace (localIn_iff.mpr ⟨hk,hm⟩)

theorem mem_globals_iff_globalAs :
    name ∈ (Bindings.ofTokens tokens).globals ↔ GlobalAs tokens name := by
  rw [Bindings.mem_globals]
  refine exists_congr fun u => and_congr_right fun _ => ?_
  rw [defines_iff,local?_eq_none_iff_localIn,and_assoc,and_assoc,and_comm (b := _ = name)]

theorem resolve_inLambda_iff (hi : t.isIdentifier = true) :
    (Bindings.ofTokens tokens).resolve t = some (.inLambda brace name) ↔
      LocalIn tokens t brace ∧ name = t.image := by
  rw [Bindings.resolve_eq_inLambda,localIn_iff]
  constructor
  · rintro ⟨-,hk,hm⟩
    obtain rfl : name = t.image := image_of_localKey? hk
    exact ⟨⟨hk,hm⟩,rfl⟩
  · rintro ⟨⟨hk,hm⟩,rfl⟩
    exact ⟨hi,hk,hm⟩

theorem resolve_inNamespace_iff (hi : t.isIdentifier = true) :
    (Bindings.ofTokens tokens).resolve t = some (.inNamespace name) ↔
      (∀ brace, ¬LocalIn tokens t brace) ∧ GlobalAs tokens name ∧ name = t.canonicalName := by
  rw [Bindings.resolve_eq_inNamespace,local?_eq_none_iff_localIn,mem_globals_iff_globalAs]
  constructor
  · rintro ⟨-,hl,hc,hg⟩
    exact ⟨hl,hg,hc.symm⟩
  · rintro ⟨hl,hg,hc⟩
    exact ⟨hi,hl,hc.symm,hg⟩

theorem resolve_eq_none_of_unbound (hi : t.isIdentifier = true)
    (hl : ∀ brace, ¬LocalIn tokens t brace) (hg : ¬GlobalAs tokens t.canonicalName) :
    (Bindings.ofTokens tokens).resolve t = none := by
  rw [Option.eq_none_iff_forall_ne_some]
  rintro (⟨brace,name⟩ | name) hr
  · exact hl brace ((resolve_inLambda_iff hi).mp hr).1
  · obtain ⟨-,hn,rfl⟩ := (resolve_inNamespace_iff hi).mp hr
    exact hg hn

/-! Searches for a local name -/

/-- Where a name is local depends on the tokens of that lambda only. -/
theorem LocalIn.congr
    (h : others.filter (·.scope == some brace) = tokens.filter (·.scope == some brace))
    (hl : LocalIn tokens t brace) : LocalIn others t brace := by
  obtain ⟨u,hu,hb⟩ := hl.bound
  refine ⟨hl.plain,hl.scope,u,?_,hb⟩
  have hm : u ∈ tokens.filter (·.scope == some brace) :=
    List.mem_filter.mpr ⟨hu,beq_iff_eq.mpr hb.scope⟩
  rw [← h] at hm
  exact (List.mem_filter.mp hm).1

/-- The occurrences of a local name are those of its image in its lambda. -/
theorem resolve_beq_inLambda (hl : LocalIn tokens t brace) (u : AnnotatedToken) :
    ((Bindings.ofTokens tokens).resolve u == some (.inLambda brace t.image)) =
      ((u.isIdentifier && !u.isQualified && u.image == t.image) && u.scope == some brace) := by
  rw [Bool.eq_iff_iff,beq_iff_eq,Bindings.resolve_eq_inLambda,localKey?_eq_some]
  simp only [Bool.and_eq_true,Bool.not_eq_true',beq_iff_eq]
  constructor
  · rintro ⟨hi,⟨hq,hs,hn⟩,-⟩
    exact ⟨⟨⟨hi,hq⟩,hn⟩,hs⟩
  · rintro ⟨⟨⟨hi,hq⟩,hn⟩,hs⟩
    exact ⟨hi,⟨hq,hs,hn⟩,(localIn_iff.mp hl).2⟩

theorem find_of_localIn (hi : t.isIdentifier = true) (hl : LocalIn tokens t brace)
    (hs : search ≠ .completion) : find search tokens t =
      ((tokens.filter (·.scope == some brace)).filter fun u =>
        u.isIdentifier && !u.isQualified && u.image == t.image).filter search.keeps := by
  have hb := (resolve_inLambda_iff hi).mpr ⟨hl,rfl⟩
  rw [Editing.find_of_resolve hs hb,Editing.occurrences,
    List.filter_congr fun u _ => resolve_beq_inLambda hl u,
    List.filter_filter (p := fun u : AnnotatedToken => u.isIdentifier && _ && _)]

/-- Identifiers are bound by the rule, whatever else is in the text. -/
theorem resolve_dynamicallyScoped (tokens : List AnnotatedToken) (t : AnnotatedToken)
    (hi : t.isIdentifier = true) : DynamicallyScoped tokens t where
  local_iff _ _ := resolve_inLambda_iff hi
  global_iff _ := resolve_inNamespace_iff hi
  unresolved hl hg := by
    have hr := resolve_eq_none_of_unbound hi hl hg
    exact ⟨hr,fun search hs => Editing.find_of_resolve_eq_none hs hr⟩
  confined brace hl search hs := by
    rw [find_of_localIn hi hl hs]
    constructor
    · intro u hu
      have hm := (List.mem_filter.mp (List.mem_filter.mp hu).1).1
      exact beq_iff_eq.mp (List.mem_filter.mp hm).2
    · intro others h
      rw [find_of_localIn hi (hl.congr h) hs,h]

end

/-- The name in the inner lambda is global: that the outer one assigns it does not count. -/
theorem inner_name_dynamicallyScoped :
    ((Annotating.parse [] "a:1\nf:{a:2;{a}}".toList).get ⟨11,by decide +kernel⟩).isIdentifier =
        true ∧
      DynamicallyScoped (Annotating.parse [] "a:1\nf:{a:2;{a}}".toList)
        ((Annotating.parse [] "a:1\nf:{a:2;{a}}".toList).get ⟨11,by decide +kernel⟩) ∧
      (Bindings.ofTokens (Annotating.parse [] "a:1\nf:{a:2;{a}}".toList)).resolve
          ((Annotating.parse [] "a:1\nf:{a:2;{a}}".toList).get ⟨11,by decide +kernel⟩) =
        some (.inNamespace "a".toList) :=
  ⟨by decide +kernel,resolve_dynamicallyScoped _ _ (by decide +kernel),by decide +kernel⟩

end QScope.Resolution
