import Mathlib.Data.List.Sort
import QScope.Proofs.UsagePasses

/-! # Rule passes: one rule after the other, sorted in the end, finds what all find together

A disabled rule is passed over, or its findings are left out afterwards. Either way what remains is
what the other rules find, in the order of the tokens. -/
namespace QScope.Linting
open Annotating

section
variable {α : Type} (key : α → Nat) {l m : List α}

theorem decide_le_trans (a b c : α) (hab : decide (key a ≤ key b) = true)
    (hbc : decide (key b ≤ key c) = true) : decide (key a ≤ key c) = true := by
  rw [decide_eq_true_eq] at *
  exact hab.trans hbc

theorem decide_le_total (a b : α) : (decide (key a ≤ key b) || decide (key b ≤ key a)) = true := by
  rw [Bool.or_eq_true,decide_eq_true_eq,decide_eq_true_eq]
  exact Nat.le_total _ _

/-- Sorting by a key leaves the elements with equal keys in their order. -/
theorem filter_mergeSort (l : List α) (k : Nat) :
    (l.mergeSort fun a b => key a ≤ key b).filter (key · == k) = l.filter (key · == k) := by
  have hpairwise : (l.filter (key · == k)).Pairwise fun a b => decide (key a ≤ key b) = true := by
    refine List.pairwise_of_forall_mem_list fun a ha b hb => ?_
    rw [List.mem_filter,beq_iff_eq] at ha hb
    rw [decide_eq_true_eq,ha.2,hb.2]
  have hsub : (l.filter (key · == k)).Sublist (l.mergeSort fun a b => key a ≤ key b) :=
    List.sublist_mergeSort (decide_le_trans key) (decide_le_total key) hpairwise
      List.filter_sublist
  have hself : (l.filter (key · == k)).filter (key · == k) = l.filter (key · == k) :=
    List.filter_eq_self.mpr fun a ha => (List.mem_filter.mp ha).2
  refine ((hself ▸ hsub.filter (key · == k)).eq_of_length ?_).symm
  exact (((List.mergeSort_perm l _).filter _).length_eq).symm

theorem pairwise_mergeSort (l : List α) :
    (l.mergeSort fun a b => key a ≤ key b).Pairwise fun a b => key a ≤ key b :=
  (List.pairwise_mergeSort (decide_le_trans key) (decide_le_total key) l).imp of_decide_eq_true

theorem mem_iff_of_filter_eq (h : ∀ k, l.filter (key · == k) = m.filter (key · == k)) (a : α) :
    a ∈ l ↔ a ∈ m := by
  have hself : ∀ l : List α, a ∈ l ↔ a ∈ l.filter (key · == key a) := by simp
  rw [hself l,h,← hself m]

/-- Two lists in the order of their keys are equal if they have the same elements of each key, in
the same order. -/
theorem eq_of_filter_eq (hl : l.Pairwise fun a b => key a ≤ key b)
    (hm : m.Pairwise fun a b => key a ≤ key b)
    (h : ∀ k, l.filter (key · == k) = m.filter (key · == k)) : l = m := by
  induction l generalizing m with
  | nil =>
    refine (List.eq_nil_iff_forall_not_mem.mpr fun a ha => ?_).symm
    exact List.not_mem_nil ((mem_iff_of_filter_eq key h a).mpr ha)
  | cons a l ih =>
    cases m with
    | nil => exact absurd ((mem_iff_of_filter_eq key h a).mp List.mem_cons_self) List.not_mem_nil
    | cons b m =>
      have hmem := mem_iff_of_filter_eq key h
      obtain ⟨hal,hl⟩ := List.pairwise_cons.mp hl
      have hbm := (List.pairwise_cons.mp hm).1
      -- each of the first elements has the least key of all
      have hle : key a ≤ key b := by
        rcases List.mem_cons.mp ((hmem b).mpr List.mem_cons_self) with rfl | hb
        · exact Nat.le_refl _
        · exact hal b hb
      have hge : key b ≤ key a := by
        rcases List.mem_cons.mp ((hmem a).mp List.mem_cons_self) with rfl | ha
        · exact Nat.le_refl _
        · exact hbm a ha
      have hfirst := h (key a)
      rw [List.filter_cons,List.filter_cons,Nat.le_antisymm hge hle,beq_self_eq_true,if_pos rfl,
        if_pos rfl] at hfirst
      obtain rfl := (List.cons.inj hfirst).1
      refine congrArg (a :: ·) (ih hl (List.pairwise_cons.mp hm).2 fun k => ?_)
      have hk := h k
      rw [List.filter_cons,List.filter_cons] at hk
      split at hk
      · exact (List.cons.inj hk).2
      · exact hk

end

/-! The rules one after the other -/

/-- The findings of one rule, which looks at a token and the one after it. -/
def findingsBy (rule : AnnotatedToken → Option AnnotatedToken → Option Problem)
    (tokens : List AnnotatedToken) : List Finding :=
  (followed tokens).flatMap fun (t,following) => (rule t following).toList.map (⟨t,·⟩)

/-- The findings of a pass that is made only if its rule is not disabled. -/
def pass (disabled : List Text) (rule : Rule) (found : List Finding) : List Finding :=
  if disabled.contains rule.code then [] else found

/-- The findings of one rule after the other. The rules on the use of names share a pass, which is
made in any case. -/
def passes (disabled : List Text) (tokens : List AnnotatedToken) : List Finding :=
  pass disabled .lexerError (findingsBy (fun t _ => t.error.map .lexical) tokens) ++
  pass disabled .assignReservedWord
    (findingsBy reservedWord? tokens ++ findingsBy (fun t _ => reservedNamespace? t) tokens) ++
  pass disabled .invalidEscape (findingsBy (fun t _ => invalidEscape? t) tokens) ++
  pass disabled .deprecatedDatetime (findingsBy (fun t _ => deprecatedDatetime? t) tokens) ++
  (localUsage tokens).filter fun f => !disabled.contains f.problem.rule.code

def lintByRules (disabled : List Text) (tokens : List AnnotatedToken) : List Finding :=
  (passes disabled tokens).mergeSort fun f g => f.token.index ≤ g.token.index

/-- The place of a rule among the findings on one token. -/
def Rule.rank : Rule → Nat
  | lexerError => 0
  | assignReservedWord => 1
  | invalidEscape => 2
  | deprecatedDatetime => 3
  | unusedParam | unusedVar | declaredAfterUse => 4

/-- What disabling rules does to the findings in tokens. Rule by rule the same is found as token by
token, and disabled rules are missing from what is found without any disabled, which is in the order
of the tokens and of the rules. -/
structure DisablesExactly (tokens : List AnnotatedToken) : Prop where
  rulewise : ∀ disabled, lintByRules disabled tokens = lint disabled tokens
  filtered : ∀ disabled, lint disabled tokens =
    (lint [] tokens).filter fun f => !disabled.contains f.problem.rule.code
  ordered : (lint [] tokens).Pairwise fun f g => f.token.index < g.token.index ∨
    f.token.index = g.token.index ∧ f.problem.rule.rank < g.problem.rule.rank

section
variable {tokens : List AnnotatedToken} {t : AnnotatedToken} {following : Option AnnotatedToken}
  {p : Problem} {disabled : List Text}

theorem rank_of_usage? (h : usage? tokens t = some p) : p.rule.rank = 4 := by
  have hu := isUsage_of_usage? h
  cases hr : p.rule <;> rw [hr] at hu <;> first | rfl | cases hu

/-- Problems in the order of their rules, one of each at most and none of a rule before the rank
`n`. -/
structure Ranked (n : Nat) (ps : List Problem) : Prop where
  increasing : ps.Pairwise fun p q => p.rule.rank < q.rule.rank
  least : ∀ p ∈ ps, n ≤ p.rule.rank

theorem Ranked.append {n : Nat} {o : Option Problem} {ps : List Problem}
    (h : Ranked (n + 1) ps) (ho : ∀ p, o = some p → p.rule.rank = n) :
    Ranked n (o.toList ++ ps) := by
  cases o with
  | none => exact ⟨h.increasing,fun p hp => Nat.le_of_succ_le (h.least p hp)⟩
  | some q =>
    have hq := ho q rfl
    refine ⟨List.pairwise_cons.mpr ⟨fun p hp => ?_,h.increasing⟩,fun p hp => ?_⟩
    · rw [hq]
      exact h.least p hp
    · rcases List.mem_cons.mp hp with rfl | hp
      · exact hq.ge
      · exact Nat.le_of_succ_le (h.least p hp)

/-- The problems of a token are in the order of the rules, one of each at most. -/
theorem ranked_problems (tokens : List AnnotatedToken) (t : AnnotatedToken)
    (following : Option AnnotatedToken) : Ranked 0 (problems tokens t following) := by
  have husage : Ranked 4 (usage? tokens t).toList := by
    refine List.append_nil (usage? tokens t).toList ▸ Ranked.append ⟨.nil,nofun⟩ fun p => ?_
    exact rank_of_usage?
  have hdatetime := husage.append (o := deprecatedDatetime? t) fun p h => by
    rw [rule_of_deprecatedDatetime? h]
    rfl
  have hescape := hdatetime.append (o := invalidEscape? t) fun p h => by
    rw [rule_of_invalidEscape? h]
    rfl
  have hreserved : Ranked 1 ((reservedWord? t following).toList ++ ((reservedNamespace? t).toList ++
      ((invalidEscape? t).toList ++
        ((deprecatedDatetime? t).toList ++ (usage? tokens t).toList)))) := by
    cases hword : reservedWord? t following with
    | none =>
      exact hescape.append fun p h => by
        rw [(rule_of_reservedNamespace? h).1]
        rfl
    | some q =>
      have hnone : reservedNamespace? t = none := by
        refine Option.eq_none_iff_forall_ne_some.mpr fun p h => ?_
        have hk := (rule_of_reservedWord? hword).2
        rw [(rule_of_reservedNamespace? h).2] at hk
        cases hk
      rw [hnone]
      refine hescape.append (o := some q) fun p h => ?_
      obtain rfl := Option.some.inj h
      rw [(rule_of_reservedWord? hword).1]
      rfl
  rw [problems_eq]
  exact hreserved.append fun p h => by
    rw [rule_of_lexical h]
    rfl

theorem getElem?_followed (tokens : List AnnotatedToken) (k : Nat) :
    (followed tokens)[k]? = tokens[k]?.map fun t => (t,tokens[k + 1]?) := by
  induction tokens generalizing k with
  | nil => rfl
  | cons t tokens ih =>
    cases k with
    | zero => simp [followed,List.head?_eq_getElem?]
    | succ k => exact ih k

/-! The findings on one token -/

theorem filter_pass (rule : Rule) (found : List Finding) (q : Finding → Bool) :
    (pass disabled rule found).filter q = pass disabled rule (found.filter q) := by
  rw [pass,pass]
  split <;> rfl

theorem pass_append (rule : Rule) (found more : List Finding) :
    pass disabled rule (found ++ more) = pass disabled rule found ++ pass disabled rule more := by
  rw [pass,pass,pass]
  split <;> rfl

/-- To pass over a rule is to leave out its findings. -/
theorem pass_toList {rule : Rule} {o : Option Problem} (h : ∀ p, o = some p → p.rule = rule)
    (t : AnnotatedToken) : pass disabled rule (o.toList.map (Finding.mk t)) =
      (o.toList.filter fun p => !disabled.contains p.rule.code).map (Finding.mk t) := by
  cases o with
  | none =>
    rw [pass]
    split <;> rfl
  | some p =>
    rw [pass,← h p rfl,Option.toList_some,List.filter_cons,List.filter_nil]
    cases disabled.contains p.rule.code <;> rfl

theorem lint_eq_filter (disabled : List Text) (tokens : List AnnotatedToken) :
    lint disabled tokens =
      (lint [] tokens).filter fun f => !disabled.contains f.problem.rule.code := by
  rw [lint,lint,List.filter_flatMap]
  refine List.flatMap_congr fun x _ => ?_
  dsimp only
  rw [filter_disabled_nil,List.filter_map]
  rfl

section
variable (hn : ∀ (i : Nat) (t : AnnotatedToken), tokens[i]? = some t → t.index = i)
include hn

theorem index_of_followed {i : Nat} {x : AnnotatedToken × Option AnnotatedToken}
    (hx : (followed tokens)[i]? = some x) : x.1.index = i := by
  rw [getElem?_followed] at hx
  obtain ⟨t,ht,rfl⟩ := Option.map_eq_some_iff.mp hx
  exact hn i t ht

/-- The findings on one token are those that are made at it. -/
theorem filter_flatMap_followed (found : AnnotatedToken → Option AnnotatedToken → List Problem)
    (k : Nat) :
    ((followed tokens).flatMap fun (t,following) => (found t following).map (Finding.mk t)).filter
        (·.token.index == k) =
      tokens[k]?.toList.flatMap fun t => (found t tokens[k + 1]?).map (Finding.mk t) := by
  rw [filter_flatMap_index (fun i x => index_of_followed hn),getElem?_followed]
  · cases tokens[k]? <;> rfl
  · intro x f hf
    obtain ⟨p,-,rfl⟩ := List.mem_map.mp hf
    rfl

theorem filter_findingsBy (rule : AnnotatedToken → Option AnnotatedToken → Option Problem)
    (k : Nat) :
    (findingsBy rule tokens).filter (·.token.index == k) =
      tokens[k]?.toList.flatMap fun t => (rule t tokens[k + 1]?).toList.map (Finding.mk t) :=
  filter_flatMap_followed hn (fun t following => (rule t following).toList) k

theorem filter_passes (disabled : List Text) (k : Nat) :
    (passes disabled tokens).filter (·.token.index == k) = tokens[k]?.toList.flatMap fun t =>
      ((problems tokens t tokens[k + 1]?).filter fun p => !disabled.contains p.rule.code).map
        (Finding.mk t) := by
  have husage : ((localUsage tokens).filter fun f => !disabled.contains f.problem.rule.code).filter
      (·.token.index == k) =
        ((localUsage tokens).filter (·.token.index == k)).filter fun f =>
          !disabled.contains f.problem.rule.code :=
    List.filter_comm _ _ _
  simp only [passes,List.filter_append,filter_pass,filter_findingsBy hn]
  rw [husage,filter_localUsage hn]
  cases tokens[k]? with
  | none => simp [pass]
  | some t =>
    simp only [Option.toList_some,List.flatMap_singleton,pass_append,problems_eq,
      List.filter_append,List.map_append]
    rw [pass_toList fun _ => rule_of_lexical,pass_toList fun _ h => (rule_of_reservedWord? h).1,
      pass_toList fun _ h => (rule_of_reservedNamespace? h).1,
      pass_toList fun _ => rule_of_invalidEscape?,pass_toList fun _ => rule_of_deprecatedDatetime?]
    have hlast : ((usage? tokens t).map (Finding.mk t)).toList.filter (fun f =>
        !disabled.contains f.problem.rule.code) =
          ((usage? tokens t).toList.filter fun p => !disabled.contains p.rule.code).map
            (Finding.mk t) := by
      rw [Option.toList_map,List.filter_map]
      rfl
    rw [hlast]
    simp only [List.append_assoc]

theorem filter_lint (disabled : List Text) (k : Nat) :
    (lint disabled tokens).filter (·.token.index == k) = tokens[k]?.toList.flatMap fun t =>
      ((problems tokens t tokens[k + 1]?).filter fun p => !disabled.contains p.rule.code).map
        (Finding.mk t) :=
  filter_flatMap_followed hn (fun t following =>
    (problems tokens t following).filter fun p => !disabled.contains p.rule.code) k

theorem lint_ordered (disabled : List Text) :
    (lint disabled tokens).Pairwise fun f g => f.token.index < g.token.index ∨
      f.token.index = g.token.index ∧ f.problem.rule.rank < g.problem.rule.rank := by
  rw [lint,List.pairwise_flatMap]
  constructor
  · intro x _
    refine List.pairwise_map.mpr ?_
    exact ((ranked_problems tokens x.1 x.2).increasing.filter _).imp fun h => .inr ⟨rfl,h⟩
  · refine List.pairwise_iff_getElem.mpr fun i j hi hj hij f hf g hg => .inl ?_
    obtain ⟨p,-,rfl⟩ := List.mem_map.mp hf
    obtain ⟨q,-,rfl⟩ := List.mem_map.mp hg
    have hx := index_of_followed hn (List.getElem?_eq_getElem hi)
    have hy := index_of_followed hn (List.getElem?_eq_getElem hj)
    change (followed tokens)[i].1.index < (followed tokens)[j].1.index
    rw [hx,hy]
    exact hij

theorem lintByRules_eq (disabled : List Text) :
    lintByRules disabled tokens = lint disabled tokens := by
  refine eq_of_filter_eq (fun f : Finding => f.token.index) ?_ ?_ fun k => ?_
  · exact pairwise_mergeSort (fun f : Finding => f.token.index) _
  · exact (lint_ordered hn disabled).imp fun h => h.elim Nat.le_of_lt fun h => h.1.le
  · rw [lintByRules,filter_mergeSort fun f : Finding => f.token.index,filter_passes hn,
      filter_lint hn]

end

/-- Whatever the tokens are, disabled rules are left out exactly. -/
theorem annotate_disablesExactly (ns : Option Text) (ts : List Token) :
    DisablesExactly (annotateIn ns ts) where
  rulewise := lintByRules_eq fun _ _ h => index_annotateIn h
  filtered disabled := lint_eq_filter disabled _
  ordered := lint_ordered (fun _ _ h => index_annotateIn h) []

end

end QScope.Linting
