import QScope.Proofs.BracketPairs
import QScope.Proofs.OutlineWalks

/-! # Outline members: the names that an outline shows, and the lambdas that hide theirs

The search for the names in a lambda goes from names to names behind them. So it ends, and what it
finds is what can be reached from the names assigned at the top. A lambda that no name is assigned
hides the names in it, and those in all lambdas that it holds. -/
namespace QScope

namespace Forest

/-- The values of the nodes, roots before their children. -/
def nodes {α : Type} : Forest α → List α
  | empty => []
  | tree a children rest => a :: nodes children ++ nodes rest

end Forest

namespace BracketLayout
open Assignments

/-- The brace of the lambda that the token at an index stands in. -/
def lambdaAt (tokens : List Token) (i : Nat) : Option Nat := (enclosing tokens i).head?

/-- The token at an index is there and is no brace. -/
def KeepsLambda (tokens : List Token) (i : Nat) : Prop :=
  ∃ kind, kindAt tokens i = some kind ∧ kind ≠ .openBrace ∧ kind ≠ .closeBrace

section
variable {ns : Option Text} {tokens : List Token} {i j k m : Nat}

/-- Behind a token that is no brace there is the same lambda, or a statement opens. -/
theorem lambdaAt_succ (h : KeepsLambda tokens i) : lambdaAt tokens (i + 1) =
    if opensStatement tokens (i + 1) then none else lambdaAt tokens i := by
  obtain ⟨kind,hk,ho,hc⟩ := h
  rw [lambdaAt,enclosing,hk,opensStatement]
  split
  · rfl
  · split
    · rename_i h
      exact absurd (Option.some.inj h) ho
    · rename_i h
      exact absurd (Option.some.inj h) hc
    · rfl

/-- Where the lambda around an earlier token is left, none is entered. -/
theorem lambdaAt_left (hi : KeepsLambda tokens i)
    (h : lambdaAt tokens i = none ∨ lambdaAt tokens i = lambdaAt tokens m) :
    lambdaAt tokens (i + 1) = none ∨ lambdaAt tokens (i + 1) = lambdaAt tokens m := by
  rw [lambdaAt_succ hi]
  split
  · exact .inl rfl
  · exact h

theorem Paired.lambdaAt_eq (h : Paired ns tokens j k) : lambdaAt tokens j = lambdaAt tokens k := by
  obtain ⟨t,round,ht,-,hj,-⟩ := h.exists_brackets
  obtain ⟨u,hu,-⟩ := Option.map_eq_some_iff.mp hj
  rw [lambdaAt,lambdaAt,← (nested_reached ns hu).brace,← (nested_reached ns ht).brace]
  exact h.brace_eq hu ht

/-- Among names and semicolons of one statement the lambda is the same. -/
theorem lambdaAt_inside (hu : Unbroken tokens j (k + 1))
    (hr : ∀ r, j < r → r < k →
      kindAt tokens r = some .identifier ∨ kindAt tokens r = some .semicolon)
    (hk : k < tokens.length) (hjm : j < m) (hmk : m ≤ k) :
    lambdaAt tokens m = lambdaAt tokens (j + 1) := by
  induction m,hjm using Nat.le_induction with
  | base => rfl
  | succ m hjm ih =>
    have hs : opensStatement tokens (m + 1) = false := by
      have ht : tokens[m + 1]? = some tokens[m + 1] := List.getElem?_eq_getElem (by omega)
      rw [opensStatement_eq ht]
      exact hu _ _ (by omega) (by omega) ht
    have hm : KeepsLambda tokens m := by
      rcases hr m hjm hmk with h | h <;> exact ⟨_,h,nofun,nofun⟩
    rw [lambdaAt_succ hm,hs,if_neg Bool.false_ne_true]
    exact ih (by omega)

end
end BracketLayout

namespace Assignments
open BracketLayout

section
variable {ns : Option Text} {tokens : List Token} {k m m' : Nat} {x : Target}

theorem EndsAt.lambdaAt_group {is : List Nat}
    (h : EndsAt tokens (places 0 (.start ns) tokens) k (.group is)) (hm : m ∈ is) :
    lambdaAt tokens m = lambdaAt tokens k := by
  obtain ⟨-,-,hb⟩ := h.nameBehind (places_fits ns tokens) hm
  cases hb with
  | separator _ hj hk hc ho hr =>
    have hlt := lt_length_of_kindAt hc
    have hunbroken := Paired.unbroken ho
    rw [lambdaAt_inside hunbroken hr hlt hj hk.le,
      lambdaAt_inside hunbroken hr hlt (hj.trans hk) le_rfl]

/-- Behind a target is the lambda that its names stand in, or a statement opens in between. -/
theorem EndsAt.lambdaAt_eq (h : EndsAt tokens (places 0 (.start ns) tokens) k x)
    (hm : m ∈ x.members) :
    lambdaAt tokens k = none ∨ lambdaAt tokens k = lambdaAt tokens m := by
  obtain ⟨hi,-,hb⟩ := h.nameBehind (places_fits ns tokens) hm
  cases hb with
  | colon hk => exact .inr (hk ▸ rfl)
  | bracket _ ho =>
    rw [← Paired.lambdaAt_eq ho]
    exact lambdaAt_left ⟨_,hi,nofun,nofun⟩ (.inr rfl)
  | separator => exact .inr (h.lambdaAt_group hm).symm

/-- The names of one target stand in one lambda. -/
theorem EndsAt.lambdaAt_members (h : EndsAt tokens (places 0 (.start ns) tokens) k x)
    (hm : m ∈ x.members) (hm' : m' ∈ x.members) : lambdaAt tokens m = lambdaAt tokens m' := by
  cases x with
  | name i | item i => rw [List.mem_singleton.mp hm,List.mem_singleton.mp hm']
  | group is => exact (h.lambdaAt_group hm).trans (h.lambdaAt_group hm').symm

theorem EndsAt.keepsLambda {found : List Place} (h : EndsAt tokens found k x) :
    KeepsLambda tokens k := by
  cases h with
  | name hk | item hk | group hk => exact ⟨_,hk,nofun,nofun⟩

theorem Made.keepsLambda {found : List Place} {t : Token} {p : Place} {a : Assignment}
    (h : Made tokens found k t p a) (hf : Fits tokens found) : KeepsLambda tokens (k + 1) := by
  have hassign := h.kind hf
  refine ⟨t.kind,kindAt_eq_some h.token,fun hk => ?_,fun hk => ?_⟩
  · cases hk ▸ hassign
  · cases hk ▸ hassign

/-- A value stands in the lambda of the names that it is assigned to, or a statement opens in
between. -/
theorem Made.lambdaAt_value {t : Token} {p : Place} {a : Assignment}
    (h : Made tokens (places 0 (.start ns) tokens) k t p a) (hm : m ∈ a.target.members) :
    lambdaAt tokens (k + 2) = none ∨ lambdaAt tokens (k + 2) = lambdaAt tokens m := by
  have hcolon := lambdaAt_left h.endsAt.keepsLambda (h.endsAt.lambdaAt_eq hm)
  exact lambdaAt_left (h.keepsLambda (places_fits ns tokens)) hcolon

end
end Assignments

namespace Outlines
open Annotating Assignments BracketLayout Editing

/-- The name is assigned the lambda with the brace at index `j`. -/
structure Names (t : AnnotatedToken) (j : Nat) : Prop where
  assigned : t.isAssigned = true
  lambda : t.flags.lambda = true
  value : t.tangled = some j

/-- No name is assigned the lambda with the brace at index `j`. -/
def Anonymous (tokens : List AnnotatedToken) (j : Nat) : Prop := ∀ t ∈ tokens, ¬Names t j

/-- The lambdas that the one with the brace at index `k` holds, by their braces: itself, and those
that stand in such a lambda or are assigned to a name there. -/
inductive Holds (tokens : List AnnotatedToken) (k : Nat) : Nat → Prop
  | self : Holds tokens k k
  | brace {j m : Nat} {b : AnnotatedToken} (hb : tokens[j]? = some b) (hs : b.scope = some m)
      (outer : Holds tokens k m) : Holds tokens k j
  | name {j m : Nat} {t : AnnotatedToken} (ht : t ∈ tokens) (hn : Names t j)
      (hs : t.scope = some m) (outer : Holds tokens k m) : Holds tokens k j

/-- The names that a search from the top on comes to. -/
inductive Listed (tokens : List AnnotatedToken) : AnnotatedToken → Prop
  | top {t : AnnotatedToken} (h : t ∈ assignedIn tokens none) : Listed tokens t
  | inside {t u : AnnotatedToken} (hu : Listed tokens u) (hl : u.flags.lambda = true)
      (h : t ∈ assignedIn tokens u.tangled) : Listed tokens t

section
variable {tokens before ts : List AnnotatedToken} {scope : Option Nat} {t u : AnnotatedToken}
  {j k : Nat}

theorem mem_assignedIn :
    t ∈ assignedIn tokens scope ↔ t ∈ tokens ∧ t.isAssigned = true ∧ t.scope = scope := by
  simp [assignedIn]

theorem height_ofScope_le (scope : Option Nat) (ts : List AnnotatedToken) :
    (ofScope scope ts).height ≤ ts.length := by
  induction ts generalizing scope with
  | nil => exact Nat.le_refl 0
  | cons t ts ih =>
    rw [ofScope,List.length_cons]
    split
    · rw [Forest.height]
      refine Nat.max_le.mpr ⟨Nat.succ_le_succ ?_,(ih scope).trans (Nat.le_succ _)⟩
      split
      · exact ih _
      · exact Nat.zero_le _
    · exact (ih scope).trans (Nat.le_succ _)

/-! An outline has the names that the search comes to -/

theorem mem_nodes_of_mem (h : t ∈ assignedIn ts scope) : t ∈ (ofScope scope ts).nodes := by
  induction ts with
  | nil => cases h
  | cons a ts ih =>
    rw [ofScope]
    by_cases hs : a.isAssigned ∧ a.scope = scope
    · rw [assignedIn_cons_of_pos hs] at h
      rw [if_pos hs,Forest.nodes]
      rcases List.mem_cons.mp h with rfl | h
      · exact List.mem_cons_self
      · exact List.mem_append_right _ (ih h)
    · rw [assignedIn_cons_of_neg hs] at h
      rw [if_neg hs]
      exact ih h

/-- With a name an outline has the names in its lambda, all of which are among the tokens left. -/
theorem mem_nodes_below (hd : Descends tokens) (ht : tokens = before ++ ts)
    (hu : u ∈ (ofScope scope ts).nodes) (hl : u.flags.lambda = true)
    (h : t ∈ assignedIn tokens u.tangled) : t ∈ (ofScope scope ts).nodes := by
  induction ts generalizing before scope with
  | nil => cases hu
  | cons a ts ih =>
    have hts := ht.trans (List.append_cons before a ts)
    rw [ofScope] at hu ⊢
    by_cases hs : a.isAssigned ∧ a.scope = scope
    · rw [if_pos hs,Forest.nodes,List.mem_append,List.mem_cons] at hu ⊢
      rcases hu with (rfl | hu) | hu
      · subst ht
        rw [hd.assignedIn_eq hl] at h
        rw [if_pos hl]
        exact .inl (.inr (mem_nodes_of_mem h))
      · split at hu
        · rename_i ha
          rw [if_pos ha]
          exact .inl (.inr (ih hts hu))
        · cases hu
      · exact .inr (ih hts hu)
    · rw [if_neg hs] at hu ⊢
      exact ih hts hu

theorem listed_of_mem_nodes (hts : ts ⊆ tokens)
    (hs : ∀ t ∈ assignedIn tokens scope, Listed tokens t) (h : t ∈ (ofScope scope ts).nodes) :
    Listed tokens t := by
  induction ts generalizing scope with
  | nil => cases h
  | cons a ts ih =>
    obtain ⟨ha,hts⟩ := List.cons_subset.mp hts
    rw [ofScope] at h
    split at h
    · rename_i hsel
      have hlisted := hs a (mem_assignedIn.mpr ⟨ha,hsel⟩)
      rw [Forest.nodes,List.mem_append,List.mem_cons] at h
      rcases h with (rfl | h) | h
      · exact hlisted
      · split at h
        · rename_i hl
          exact ih hts (fun t ht => .inside hlisted hl ht) h
        · cases h
      · exact ih hts hs h
    · exact ih hts hs h

theorem mem_nodes_iff (hd : Descends tokens) :
    t ∈ (outline tokens).nodes ↔ Listed tokens t := by
  constructor
  · exact listed_of_mem_nodes (List.Subset.refl _) fun _ => .top
  · intro h
    induction h with
    | top h => exact mem_nodes_of_mem h
    | inside _ hl h ih => exact mem_nodes_below hd (List.nil_append _).symm ih hl h

/-! The lambdas around listed names -/

theorem Listed.mem (h : Listed tokens t) : t ∈ tokens ∧ t.isAssigned = true := by
  cases h with
  | top h | inside _ _ h => exact (mem_assignedIn.mp h).imp_right And.left

theorem Listed.exists_names (h : Listed tokens t) (hs : t.scope = some j) :
    ∃ u, Listed tokens u ∧ Names u j := by
  cases h with
  | top h => cases hs.symm.trans (mem_assignedIn.mp h).2.2
  | inside hu hl h => exact ⟨_,hu,hu.mem.2,hl,(mem_assignedIn.mp h).2.2.symm.trans hs⟩

/-- A name that the search does not come to is in a lambda that an anonymous one holds. The
induction is on the index, since the names that a lambda is assigned to stand in front of it. -/
theorem listed_or_holds (hd : Descends tokens) (ht : t ∈ tokens) (ha : t.isAssigned = true) :
    Listed tokens t ∨ ∃ j k, t.scope = some j ∧ Holds tokens k j ∧ Anonymous tokens k := by
  induction hn : t.index using Nat.strongRecOn generalizing t with
  | ind n ih =>
    cases hs : t.scope with
    | none => exact .inl (.top (mem_assignedIn.mpr ⟨ht,ha,hs⟩))
    | some j =>
      by_cases hanon : Anonymous tokens j
      · exact .inr ⟨j,j,rfl,.self,hanon⟩
      · obtain ⟨u,hu,hnames⟩ : ∃ u ∈ tokens, Names u j := by
          simpa [Anonymous] using hanon
        have hscope := hs.trans hnames.value.symm
        have hlt := hd.inside u hu t ht hnames.lambda hscope
        rcases ih u.index (hn ▸ hlt) hu hnames.assigned rfl with h | ⟨m,k,hm,hk,hanon⟩
        · exact .inl (.inside h hnames.lambda (mem_assignedIn.mpr ⟨ht,ha,hscope⟩))
        · exact .inr ⟨j,k,rfl,.name hu hnames hm hk,hanon⟩

end

section
variable {ns : Option Text} {tokens : List Token} {i j k m : Nat} {t u b : AnnotatedToken}

theorem scope_of_kindAt {kind : Kind} (hk : kindAt tokens i = some kind) (hc : kind ≠ .closeBrace)
    (ht : (annotateIn ns tokens)[i]? = some t) : t.scope = lambdaAt tokens i := by
  obtain ⟨v,hv,rfl⟩ := Option.map_eq_some_iff.mp hk
  rw [scope_annotateIn hv ht,if_neg hc,lambdaAt]

/-- The assignment that makes a lambda the value of a name. -/
theorem Names.exists_target (hi : (annotateIn ns tokens)[i]? = some t) (h : Names t j) :
    ∃ a, TargetOf ns tokens a i ∧ a.value = some j ∧ kindAt tokens j = some .openBrace := by
  rcases noted_or_untargeted hi with ⟨a,ha,hn⟩ | hn
  · have hvalue : a.value = some j := hn.tangled.symm.trans h.value
    have hlambda : a.lambda = true := by
      rw [← h.lambda,hn.flags]
    obtain ⟨v,hv,hbrace⟩ := (lambda_iff ha.made).mp hlambda
    obtain rfl := Option.some.inj (hv.symm.trans hvalue)
    exact ⟨a,ha,hvalue,hbrace⟩
  · have hlambda := h.lambda
    rw [hn.flags] at hlambda
    cases hlambda

theorem colon_of_value {a : Assignment} (ha : a ∈ assignmentsIn ns tokens)
    (hv : a.value = some j) : j = a.colon + 1 := by
  rw [value_eq ha] at hv
  split at hv
  · exact (Option.some.inj hv).symm
  · cases hv

/-- The names that a lambda is assigned to stand in one lambda. -/
theorem Names.scope_eq (hi : (annotateIn ns tokens)[i]? = some t) (h : Names t j)
    (hk : (annotateIn ns tokens)[k]? = some u) (h' : Names u j) : t.scope = u.scope := by
  obtain ⟨a,ha,hvalue,-⟩ := h.exists_target hi
  obtain ⟨b,hb,hvalue',-⟩ := h'.exists_target hk
  have hcolon := colon_of_value ha.made hvalue
  have hcolon' := colon_of_value hb.made hvalue'
  obtain rfl : a = b := eq_of_colon ha.made hb.made (by omega)
  obtain ⟨o,c,p,hm⟩ := made_of_mem ha.made
  rw [scope_of_kindAt ha.identifier.1 nofun hi,scope_of_kindAt hb.identifier.1 nofun hk]
  exact hm.endsAt.lambdaAt_members ha.member hb.member

/-- A lambda that stands in another one is assigned to names in that. -/
theorem Names.scope_of_brace (hi : (annotateIn ns tokens)[i]? = some t) (h : Names t j)
    (hj : (annotateIn ns tokens)[j]? = some b) (hs : b.scope = some m) : t.scope = some m := by
  obtain ⟨a,ha,hvalue,hbrace⟩ := h.exists_target hi
  obtain ⟨o,c,p,hm⟩ := made_of_mem ha.made
  obtain rfl : j = o + 2 := by rw [colon_of_value ha.made hvalue,hm.colon]
  rw [scope_of_kindAt hbrace nofun hj] at hs
  rw [scope_of_kindAt ha.identifier.1 nofun hi,← hs]
  refine ((hm.lambdaAt_value ha.member).resolve_left fun hn => ?_).symm
  cases hn.symm.trans hs

/-- A lambda that holds listed names is assigned to a name. -/
theorem Holds.exists_names (h : Holds (annotateIn ns tokens) k j)
    (ht : Listed (annotateIn ns tokens) t) (hs : t.scope = some j) :
    ∃ u ∈ annotateIn ns tokens, Names u k := by
  induction h generalizing t with
  | self =>
    obtain ⟨u,hu,hn⟩ := ht.exists_names hs
    exact ⟨u,hu.mem.1,hn⟩
  | brace hb hm _ ih =>
    obtain ⟨u,hu,hn⟩ := ht.exists_names hs
    obtain ⟨i,hi⟩ := List.mem_iff_getElem?.mp hu.mem.1
    exact ih hu (hn.scope_of_brace hi hb hm)
  | name hv hn' hm _ ih =>
    obtain ⟨u,hu,hn⟩ := ht.exists_names hs
    obtain ⟨i,hi⟩ := List.mem_iff_getElem?.mp hu.mem.1
    obtain ⟨k,hk⟩ := List.mem_iff_getElem?.mp hv
    exact ih hu ((hn.scope_eq hi hk hn').trans hm)

end

/-- The outline of annotated tokens. The search for it comes to an end, as it goes from each name to
names with larger indices. It shows a name that is assigned at the top, or in a lambda that is
assigned to a name shown, and no other: those hidden are in a lambda that an anonymous one holds. -/
structure OutlineComplete (tokens : List AnnotatedToken) : Prop where
  ends : ∀ levels, tokens.length ≤ levels →
    symbolTrees tokens levels = some ((outline tokens).map trimmedSymbol)
  symbols : documentSymbols false tokens = (outline tokens).map assignedSymbol
  descends : ∀ t ∈ tokens, t.flags.lambda = true → ∀ u ∈ assignedIn tokens t.tangled,
    t.index < u.index
  shown : ∀ t ∈ (outline tokens).nodes, t ∈ tokens ∧ t.isAssigned = true
  listed : ∀ t ∈ tokens, t.isAssigned = true → (t ∈ (outline tokens).nodes ↔ t.scope = none ∨
    ∃ u ∈ (outline tokens).nodes, ∃ j b, Names u j ∧ tokens[j]? = some b ∧
      b.kind = .openBrace ∧ t.scope = some j)
  hidden : ∀ t ∈ tokens, t.isAssigned = true → (t ∉ (outline tokens).nodes ↔
    ∃ j k, t.scope = some j ∧ Holds tokens k j ∧ Anonymous tokens k)

theorem annotate_outlineComplete (tokens : List Token) : OutlineComplete (annotate tokens) := by
  have hd : Descends (annotate tokens) := descends_annotateIn none tokens
  constructor
  case ends =>
    exact fun levels hl => symbolTrees_eq hd ((height_ofScope_le none _).trans hl)
  case symbols => rfl
  case descends =>
    intro t ht hl u hu
    obtain ⟨hu,-,hs⟩ := mem_assignedIn.mp hu
    exact hd.inside t ht u hu hl hs
  case shown => exact fun t ht => ((mem_nodes_iff hd).mp ht).mem
  case listed =>
    intro t ht ha
    constructor
    · intro h
      cases hs : t.scope with
      | none => exact .inl rfl
      | some j =>
        obtain ⟨u,hu,hn⟩ := ((mem_nodes_iff hd).mp h).exists_names hs
        obtain ⟨i,hi⟩ := List.mem_iff_getElem?.mp hu.mem.1
        obtain ⟨v,hv,b,hb,hk⟩ := (lambda_annotateIn hi).mp hn.lambda
        obtain rfl := Option.some.inj (hv.symm.trans hn.value)
        exact .inr ⟨u,(mem_nodes_iff hd).mpr hu,v,b,hn,hb,hk,rfl⟩
    · rintro (hs | ⟨u,hu,j,b,hn,-,-,hs⟩)
      · exact mem_nodes_of_mem (mem_assignedIn.mpr ⟨ht,ha,hs⟩)
      · have hscope := hs.trans hn.value.symm
        exact (mem_nodes_iff hd).mpr
          (.inside ((mem_nodes_iff hd).mp hu) hn.lambda (mem_assignedIn.mpr ⟨ht,ha,hscope⟩))
  case hidden =>
    intro t ht ha
    rw [mem_nodes_iff hd]
    constructor
    · exact (listed_or_holds hd ht ha).resolve_left
    · rintro ⟨j,k,hs,hk,hanon⟩ hl
      obtain ⟨u,hu,hn⟩ := Holds.exists_names hk hl hs
      exact hanon u hu hn

/-- The last lambda has no name, and hides the one in it along with its own names. -/
example : (outline (parse [] "(f;g):{a:1};{h:{b:1}}".toList)).nodes.map (·.image) =
    ["f","a","g","a"].map String.toList := by
  decide +kernel

end Outlines
end QScope
