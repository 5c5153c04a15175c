import Mathlib.Data.List.Pairwise
import QScope.Linting
import QScope.Proofs.LayoutRuns
import QScope.Proofs.Searches

/-! # Usage findings: what is said of a local name follows from the occurrences of its binding

The linter looks at the names of each lambda and never at bindings. Its verdict is stated here of
what a search for references finds. -/
namespace QScope.Linting
open Resolution Annotating

/-- The rules on the use of local names. -/
def Rule.isUsage : Rule → Bool
  | unusedParam | unusedVar | declaredAfterUse => true
  | lexerError | assignReservedWord | invalidEscape | deprecatedDatetime => false

def usageFindings (tokens : List AnnotatedToken) : List Finding :=
  (lint [] tokens).filter (·.problem.rule.isUsage)

/-- An occurrence of a local name that assigns all of its value in its lambda. -/
def binds (t : AnnotatedToken) : Bool := t.flags.assigned && !t.flags.amended && !t.flags.global

/-- The findings on a binding, from the occurrences that bind it and the others: it is unused
without others, and it is read too early when the first of these comes before the first that binds,
unless that is a parameter. -/
def verdict : List AnnotatedToken → List AnnotatedToken → List Finding
  | first :: _,[] =>
    [⟨first,if first.flags.param then .unusedParam first.image else .unusedVar first.image⟩]
  | first :: _,read :: _ =>
    if first.flags.param = false ∧ read.index < first.index then
      [⟨read,.readBeforeAssigned first.image first.span.start⟩]
    else []
  | [],_ => []

/-- The findings on the use of names are the verdicts on the local bindings: each is on a token of
one, and those on tokens of one binding are its verdict. Indices are places in the list. -/
structure UsageAgrees (tokens : List AnnotatedToken) : Prop where
  numbered : ∀ (i : Nat) (t : AnnotatedToken), tokens[i]? = some t → t.index = i
  bound : ∀ (t : AnnotatedToken) (brace : Nat) (name : Text),
    (Bindings.ofTokens tokens).resolve t = some (.inLambda brace name) →
      (find .reference tokens t).filter binds ≠ [] ∧
      (usageFindings tokens).filter (fun f =>
          (Bindings.ofTokens tokens).resolve f.token == some (.inLambda brace name)) =
        verdict ((find .reference tokens t).filter binds)
          ((find .reference tokens t).filter (!binds ·))
  only : ∀ f ∈ usageFindings tokens, ∃ brace name,
    (Bindings.ofTokens tokens).resolve f.token = some (.inLambda brace name)

/-! The findings on the use of names -/

theorem flatMap_followed {α β : Type} (l : List α) (f : α → List β) :
    (followed l).flatMap (fun x => f x.1) = l.flatMap f := by
  induction l with
  | nil => rfl
  | cons a l ih => rw [followed,List.flatMap_cons,List.flatMap_cons,ih]

section
variable {tokens : List AnnotatedToken} {t u : AnnotatedToken} {following : Option AnnotatedToken}
  {p : Problem} {brace : Nat} {name : Text} {key : Nat × Text}

theorem isUsage_of_usage? (h : usage? tokens t = some p) :
    p.rule.isUsage = true := by
  obtain ⟨key,-,h⟩ := Option.bind_eq_some_iff.mp h
  dsimp only at h
  split at h
  · cases h
  · split at h
    · obtain rfl := Option.some.inj h
      split <;> rfl
    · cases h
  · split at h
    · obtain rfl := Option.some.inj h
      rfl
    · cases h

theorem filter_disabled_nil (ps : List Problem) :
    ps.filter (fun p => !([] : List Text).contains p.rule.code) = ps :=
  List.filter_eq_self.mpr fun _ _ => rfl

theorem rule_of_reservedWord? (h : reservedWord? t following = some p) :
    p.rule = .assignReservedWord ∧ t.kind = .keyword := by
  rw [reservedWord?] at h
  split at h
  · rename_i hk
    cases h
    exact ⟨rfl,hk.1⟩
  · cases h

theorem rule_of_reservedNamespace? (h : reservedNamespace? t = some p) :
    p.rule = .assignReservedWord ∧ t.kind = .identifier := by
  rw [reservedNamespace?] at h
  split at h
  · rename_i ha
    have hk : t.kind = .identifier := beq_iff_eq.mp (Bool.and_eq_true_iff.mp ha).1
    split at h
    · split at h
      · cases h
        exact ⟨rfl,hk⟩
      · cases h
    · cases h
  · cases h

theorem rule_of_invalidEscape? (h : invalidEscape? t = some p) : p.rule = .invalidEscape := by
  rw [invalidEscape?] at h
  split at h
  · obtain ⟨escape,-,rfl⟩ := Option.map_eq_some_iff.mp h
    rfl
  · cases h

theorem rule_of_deprecatedDatetime? (h : deprecatedDatetime? t = some p) :
    p.rule = .deprecatedDatetime := by
  rw [deprecatedDatetime?] at h
  split at h
  · cases h
    rfl
  · cases h

theorem rule_of_lexical (h : t.error.map Problem.lexical = some p) : p.rule = .lexerError := by
  obtain ⟨e,-,rfl⟩ := Option.map_eq_some_iff.mp h
  rfl

theorem problems_eq (tokens : List AnnotatedToken) (t : AnnotatedToken)
    (following : Option AnnotatedToken) : problems tokens t following =
      (t.error.map .lexical).toList ++ ((reservedWord? t following).toList ++
        ((reservedNamespace? t).toList ++ ((invalidEscape? t).toList ++
          ((deprecatedDatetime? t).toList ++ (usage? tokens t).toList)))) := by
  rw [problems,List.filterMap_eq_flatMap_toList]
  simp

theorem filter_toList_of_rule {o : Option Problem} {rule : Rule}
    (h : ∀ p, o = some p → p.rule = rule) (q : Rule → Bool) :
    o.toList.filter (fun p => q p.rule) = if q rule then o.toList else [] := by
  split
  · rename_i hr
    refine List.filter_eq_self.mpr fun p hp => ?_
    rw [h p (Option.mem_toList.mp hp),hr]
  · rename_i hr
    refine List.filter_eq_nil_iff.mpr fun p hp => ?_
    rw [h p (Option.mem_toList.mp hp)]
    exact hr

/-- The problems that some rules find. -/
theorem filter_problems (q : Rule → Bool) (following : Option AnnotatedToken) :
    (problems tokens t following).filter (fun p => q p.rule) =
      (if q .lexerError then (t.error.map Problem.lexical).toList else []) ++
      ((if q .assignReservedWord then (reservedWord? t following).toList else []) ++
      ((if q .assignReservedWord then (reservedNamespace? t).toList else []) ++
      ((if q .invalidEscape then (invalidEscape? t).toList else []) ++
      ((if q .deprecatedDatetime then (deprecatedDatetime? t).toList else []) ++
        (usage? tokens t).toList.filter fun p => q p.rule)))) := by
  simp only [problems_eq,List.filter_append]
  rw [filter_toList_of_rule (fun _ => rule_of_lexical),
    filter_toList_of_rule (fun _ h => (rule_of_reservedWord? h).1),
    filter_toList_of_rule (fun _ h => (rule_of_reservedNamespace? h).1),
    filter_toList_of_rule (fun _ => rule_of_invalidEscape?),
    filter_toList_of_rule (fun _ => rule_of_deprecatedDatetime?)]

/-- No other rule says anything on the use of names. -/
theorem filter_isUsage_problems (following : Option AnnotatedToken) :
    (problems tokens t following).filter (·.rule.isUsage) = (usage? tokens t).toList :=
  (filter_problems Rule.isUsage following).trans
    (List.filter_eq_self.mpr fun _ hp => isUsage_of_usage? (Option.mem_toList.mp hp))

theorem usageFindings_eq (tokens : List AnnotatedToken) :
    usageFindings tokens = tokens.filterMap fun t => (usage? tokens t).map (⟨t,·⟩) := by
  have hone : ∀ x : AnnotatedToken × Option AnnotatedToken,
      (((problems tokens x.1 x.2).filter fun p => !([] : List Text).contains p.rule.code).map
          (Finding.mk x.1)).filter (·.problem.rule.isUsage) =
        ((usage? tokens x.1).map (Finding.mk x.1)).toList := by
    intro x
    rw [filter_disabled_nil,List.filter_map]
    exact (congrArg (List.map _) (filter_isUsage_problems x.2)).trans Option.toList_map.symm
  rw [List.filterMap_eq_flatMap_toList,← flatMap_followed,usageFindings,lint,List.filter_flatMap]
  exact List.flatMap_congr fun x _ => hone x

/-! The occurrences of a local name -/

theorem usageKey?_eq_some : usageKey? t = some key ↔
    t.isIdentifier = true ∧ localKey? t = some key := by
  rw [usageKey?,localKey?]
  cases hi : t.isIdentifier <;> cases hq : t.isQualified <;> simp

theorem resolve_eq_inLambda_iff_usageKey? :
    (Bindings.ofTokens tokens).resolve t = some (.inLambda brace name) ↔
      usageKey? t = some (brace,name) ∧ (brace,name) ∈ (Bindings.ofTokens tokens).locals := by
  rw [Bindings.resolve_eq_inLambda,usageKey?_eq_some,and_assoc]

/-- All uses of a name in a lambda. -/
def uses (tokens : List AnnotatedToken) (key : Nat × Text) : List AnnotatedToken :=
  tokens.filter fun u => usageKey? u == some key

theorem mem_uses : u ∈ uses tokens key ↔ u ∈ tokens ∧ usageKey? u = some key := by
  rw [uses,List.mem_filter,beq_iff_eq]

theorem image_of_mem_uses (h : u ∈ uses tokens key) : u.image = key.2 :=
  (image_of_localKey? (usageKey?_eq_some.mp (mem_uses.mp h).2).2).symm

theorem mem_locals_iff_uses :
    key ∈ (Bindings.ofTokens tokens).locals ↔ (uses tokens key).filter definesLocal ≠ [] := by
  rw [Bindings.mem_locals,← List.length_pos_iff,List.length_pos_iff_exists_mem]
  simp only [List.mem_filter,mem_uses,usageKey?_eq_some,definesLocal,Bool.and_eq_true,
    Bool.not_eq_true']
  constructor
  · rintro ⟨u,hu,hd,hg,hk⟩
    exact ⟨u,⟨hu,isIdentifier_of_defines hd,hk⟩,hd,hg⟩
  · rintro ⟨u,⟨hu,-,hk⟩,hd,hg⟩
    exact ⟨u,hu,hd,hg,hk⟩

theorem definesLocal_eq_binds (h : u ∈ uses tokens key) : definesLocal u = binds u := by
  have hi := (usageKey?_eq_some.mp (mem_uses.mp h).2).1
  rw [definesLocal,AnnotatedToken.defines,AnnotatedToken.isAssigned,hi,Bool.true_and,binds]

theorem find_reference_eq_uses
    (h : (Bindings.ofTokens tokens).resolve t = some (.inLambda brace name)) :
    find .reference tokens t = uses tokens (brace,name) := by
  have hm := (resolve_eq_inLambda_iff_usageKey?.mp h).2
  rw [Editing.find_of_resolve (show Search.reference ≠ .completion from nofun) h,
    filter_keeps .reference nofun,Editing.occurrences,uses]
  refine List.filter_congr fun u _ => ?_
  rw [Bool.eq_iff_iff,beq_iff_eq,beq_iff_eq,resolve_eq_inLambda_iff_usageKey?,and_iff_left hm]

theorem usage?_of_key (h : usageKey? t = some key) : usage? tokens t =
    match (uses tokens key).filter definesLocal,(uses tokens key).filter (!definesLocal ·) with
    | [],_ => none
    | first :: _,[] =>
      if t.index = first.index then
        some (if first.flags.param then .unusedParam t.image else .unusedVar t.image)
      else none
    | first :: _,read :: _ =>
      if t.index = read.index ∧ read.index < first.index ∧ first.flags.param = false then
        some (.readBeforeAssigned t.image first.span.start)
      else none := by
  rw [usage?,h]
  rfl

/-- What is said of a name in a lambda is said only where some token binds it there. -/
theorem mem_locals_of_usage? (h : usage? tokens t = some p) :
    ∃ key, usageKey? t = some key ∧ key ∈ (Bindings.ofTokens tokens).locals := by
  obtain ⟨key,hk,-⟩ := Option.bind_eq_some_iff.mp h
  refine ⟨key,hk,mem_locals_iff_uses.mpr fun hn => ?_⟩
  rw [usage?_of_key hk,hn] at h
  cases h

/-! The verdict on one binding -/

theorem filterMap_of_index {β : Type} {f : AnnotatedToken → Option β} {b : β}
    (hn : ∀ (i : Nat) (t : AnnotatedToken), tokens[i]? = some t → t.index = i)
    (hu : u ∈ tokens) (hb : f u = some b) (hf : ∀ t ∈ tokens, t.index ≠ u.index → f t = none) :
    tokens.filterMap f = [b] := by
  have hp : tokens.Pairwise fun x y => x.index < y.index := by
    rw [List.pairwise_iff_getElem]
    intro i j hi hj hij
    rwa [hn i _ (List.getElem?_eq_getElem hi),hn j _ (List.getElem?_eq_getElem hj)]
  obtain ⟨front,back,rfl⟩ := List.append_of_mem hu
  obtain ⟨-,hback,hfront⟩ := List.pairwise_append.mp hp
  have hnone : front.filterMap f = [] ∧ back.filterMap f = [] := by
    constructor
    · refine List.filterMap_eq_nil_iff.mpr fun t ht => hf t (List.mem_append_left _ ht) ?_
      exact Nat.ne_of_lt (hfront t ht u List.mem_cons_self)
    · refine List.filterMap_eq_nil_iff.mpr fun t ht =>
        hf t (List.mem_append_right _ (List.mem_cons_of_mem u ht)) ?_
      exact Nat.ne_of_gt ((List.pairwise_cons.mp hback).1 t ht)
  rw [List.filterMap_append,List.filterMap_cons_some hb,hnone.1,hnone.2]
  rfl

/-- The findings on the tokens of a binding. -/
def findingsOn (tokens : List AnnotatedToken) (key : Nat × Text) (t : AnnotatedToken) :
    Option Finding :=
  if usageKey? t = some key then (usage? tokens t).map (⟨t,·⟩) else none

theorem filter_usageFindings (hm : (brace,name) ∈ (Bindings.ofTokens tokens).locals) :
    (usageFindings tokens).filter (fun f =>
        (Bindings.ofTokens tokens).resolve f.token == some (.inLambda brace name)) =
      tokens.filterMap (findingsOn tokens (brace,name)) := by
  rw [usageFindings_eq,List.filter_filterMap]
  refine List.filterMap_congr fun t _ => ?_
  have hr : (Bindings.ofTokens tokens).resolve t = some (.inLambda brace name) ↔
      usageKey? t = some (brace,name) := by
    rw [resolve_eq_inLambda_iff_usageKey?,and_iff_left hm]
  rw [findingsOn]
  cases usage? tokens t with
  | none => simp
  | some p => simp [Option.filter,hr]

theorem filterMap_findingsOn
    (hn : ∀ (i : Nat) (t : AnnotatedToken), tokens[i]? = some t → t.index = i)
    (hd : (uses tokens key).filter definesLocal ≠ []) :
    tokens.filterMap (findingsOn tokens key) =
      verdict ((uses tokens key).filter definesLocal)
        ((uses tokens key).filter (!definesLocal ·)) := by
  obtain ⟨first,ds,hds⟩ := List.exists_cons_of_ne_nil hd
  have hfirst : first ∈ uses tokens key :=
    (List.mem_filter.mp (hds ▸ List.mem_cons_self)).1
  cases hrs : (uses tokens key).filter (!definesLocal ·) with
  | nil =>
    -- nothing but assignments: the first of them is unused
    rw [hds,verdict]
    refine filterMap_of_index hn (mem_uses.mp hfirst).1 ?_ fun t _ ht => ?_
    · rw [findingsOn,if_pos (mem_uses.mp hfirst).2,usage?_of_key (mem_uses.mp hfirst).2,hds,hrs]
      exact congrArg _ (if_pos rfl)
    · rw [findingsOn]
      split_ifs with hk
      · rw [usage?_of_key hk,hds,hrs]
        exact congrArg _ (if_neg ht)
      · rfl
  | cons read rs =>
    have hread : read ∈ uses tokens key :=
      (List.mem_filter.mp (hrs ▸ List.mem_cons_self)).1
    rw [hds,verdict]
    by_cases he : first.flags.param = false ∧ read.index < first.index
    · rw [if_pos he]
      refine filterMap_of_index hn (mem_uses.mp hread).1 ?_ fun t _ ht => ?_
      · rw [findingsOn,if_pos (mem_uses.mp hread).2,usage?_of_key (mem_uses.mp hread).2,hds,hrs]
        dsimp only
        rw [if_pos ⟨rfl,he.2,he.1⟩,image_of_mem_uses hread,image_of_mem_uses hfirst]
        rfl
      · rw [findingsOn]
        split_ifs with hk
        · rw [usage?_of_key hk,hds,hrs]
          exact congrArg _ (if_neg fun h => ht h.1)
        · rfl
    · rw [if_neg he]
      refine List.filterMap_eq_nil_iff.mpr fun t _ => ?_
      rw [findingsOn]
      split_ifs with hk
      · rw [usage?_of_key hk,hds,hrs]
        exact congrArg _ (if_neg fun h => he ⟨h.2.2,h.2.1⟩)
      · rfl

/-- The linter and the search for references agree on the use of every local name. -/
theorem annotate_usageAgrees (ns : Option Text) (ts : List Token) :
    UsageAgrees (annotateIn ns ts) where
  numbered _ _ h := index_annotateIn h
  bound t brace name h := by
    have hm := (resolve_eq_inLambda_iff_usageKey?.mp h).2
    have hd := mem_locals_iff_uses.mp hm
    rw [find_reference_eq_uses h,← List.filter_congr fun u hu => definesLocal_eq_binds hu,
      ← List.filter_congr fun u hu => congrArg not (definesLocal_eq_binds hu)]
    refine ⟨hd,?_⟩
    rw [filter_usageFindings hm,filterMap_findingsOn (fun _ _ h => index_annotateIn h) hd]
  only f hf := by
    rw [usageFindings_eq] at hf
    obtain ⟨t,-,ht⟩ := List.mem_filterMap.mp hf
    obtain ⟨p,hp,rfl⟩ := Option.map_eq_some_iff.mp ht
    obtain ⟨key,hk,hm⟩ := mem_locals_of_usage? hp
    exact ⟨key.1,key.2,resolve_eq_inLambda_iff_usageKey?.mpr ⟨hk,hm⟩⟩

end

end QScope.Linting
