import Mathlib.Data.List.Forall2
import Mathlib.Tactic.SplitIfs
import QScope.Resolution

/-! # Binding lookup: which names are defined, and which tokens refer to them -/
namespace QScope.Resolution

section
variable {t : AnnotatedToken}

theorem image_of_localKey? {k : Nat × Text} (h : localKey? t = some k) : k.2 = t.image := by
  rw [localKey?] at h
  split_ifs at h
  obtain ⟨brace,-,rfl⟩ := Option.map_eq_some_iff.mp h
  rfl

theorem not_isQualified_of_localKey? {k : Nat × Text} (h : localKey? t = some k) :
    t.isQualified = false := by
  rw [localKey?] at h
  split_ifs at h with hq
  simpa using hq

theorem localKey?_eq_some {brace : Nat} {name : Text} : localKey? t = some (brace,name) ↔
    t.isQualified = false ∧ t.scope = some brace ∧ t.image = name := by
  rw [localKey?]
  split_ifs with hq
  · simp [hq]
  · rw [Option.map_eq_some_iff]
    constructor
    · rintro ⟨j,hj,hjk⟩
      obtain ⟨rfl,hn⟩ := Prod.mk.inj hjk
      exact ⟨Bool.eq_false_iff.mpr hq,hj,hn⟩
    · rintro ⟨-,hs,rfl⟩
      exact ⟨brace,hs,rfl⟩

theorem isIdentifier_of_defines (h : t.defines = true) : t.isIdentifier = true := by
  simp only [AnnotatedToken.defines,AnnotatedToken.isAssigned,Bool.and_eq_true] at h
  exact h.1.1

end

namespace Bindings
variable {b : Bindings} {t : AnnotatedToken}

theorem mem_locals {ts : List AnnotatedToken} {k : Nat × Text} : k ∈ (ofTokens ts).locals ↔
    ∃ t ∈ ts, t.defines = true ∧ t.flags.global = false ∧ localKey? t = some k := by
  simp only [ofTokens,List.mem_filterMap,List.mem_filter,Bool.not_eq_true',and_assoc]

theorem mem_globals {ts : List AnnotatedToken} {name : Text} : name ∈ (ofTokens ts).globals ↔
    ∃ t ∈ ts, t.defines = true ∧ local? (ofTokens ts).locals t = none ∧ t.canonicalName = name := by
  simp only [ofTokens,List.mem_map,List.mem_filter,Option.isNone_iff_eq_none,and_assoc]

theorem local?_eq_some {defined : List (Nat × Text)} {binding : Binding} :
    local? defined t = some binding ↔
      ∃ k, localKey? t = some k ∧ k ∈ defined ∧ binding = .inLambda k.1 k.2 := by
  rw [local?]
  split
  · rename_i brace name hk
    split_ifs with hc
    · simp [hk,show (brace,name) ∈ defined by simpa using hc,eq_comm]
    · simp [hk,show (brace,name) ∉ defined by simpa using hc]
  · rename_i hk
    simp [hk]

theorem local?_eq_none {defined : List (Nat × Text)} :
    local? defined t = none ↔ ∀ k, localKey? t = some k → k ∉ defined := by
  rw [Option.eq_none_iff_forall_ne_some]
  simp only [ne_eq,local?_eq_some]
  constructor
  · exact fun h k hk hm => h _ ⟨k,hk,hm,rfl⟩
  · rintro h binding ⟨k,hk,hm,-⟩
    exact h k hk hm

theorem resolve_eq_inLambda {brace : Nat} {name : Text} :
    b.resolve t = some (.inLambda brace name) ↔
      t.isIdentifier = true ∧ localKey? t = some (brace,name) ∧ (brace,name) ∈ b.locals := by
  rw [resolve]
  split_ifs with hi
  · cases hl : local? b.locals t with
    | none =>
      dsimp only
      split_ifs
      · simpa [hi] using local?_eq_none.mp hl (brace,name)
      · simpa [hi] using local?_eq_none.mp hl (brace,name)
    | some binding =>
      obtain ⟨⟨j,m⟩,hk,hm,rfl⟩ := local?_eq_some.mp hl
      simp only [Option.some.injEq,Binding.inLambda.injEq,hi,hk,Prod.mk.injEq,true_and]
      exact ⟨fun h => ⟨h,h.1 ▸ h.2 ▸ hm⟩,fun h => h.1⟩
  · simp [hi]

theorem resolve_eq_inNamespace {name : Text} :
    b.resolve t = some (.inNamespace name) ↔
      t.isIdentifier = true ∧ local? b.locals t = none ∧ t.canonicalName = name ∧
        name ∈ b.globals := by
  rw [resolve]
  split_ifs with hi
  · cases hl : local? b.locals t with
    | none =>
      dsimp only
      split_ifs with hc
      · simp only [Option.some.injEq,Binding.inNamespace.injEq,hi,true_and]
        exact ⟨fun h => ⟨h,h ▸ (by simpa using hc)⟩,fun h => h.1⟩
      · refine iff_of_false nofun ?_
        rintro ⟨-,-,rfl,hm⟩
        exact hc (by simpa using hm)
    | some binding =>
      obtain ⟨k,-,-,rfl⟩ := local?_eq_some.mp hl
      simp
  · simp [hi]

theorem isIdentifier_of_resolve {binding : Binding} (h : b.resolve t = some binding) :
    t.isIdentifier = true := by
  rw [resolve] at h
  split_ifs at h with hi
  exact hi

end Bindings

/-! What counts of the tokens of a text -/

/-- What resolution reads of a token. -/
def bare (t : AnnotatedToken) : AnnotatedToken :=
  {t with
    span := ⟨[],.origin,.origin⟩
    index := 0
    error := none
    tangled := none
    group := []
    order := 0}

theorem ofTokens_map_bare (ts : List AnnotatedToken) :
    Bindings.ofTokens (ts.map bare) = Bindings.ofTokens ts := by
  simp only [Bindings.ofTokens,List.filter_map,List.filterMap_map,List.map_map]
  rfl

theorem ofTokens_of_bare {ts ts' : List AnnotatedToken} (h : ts'.map bare = ts.map bare) :
    Bindings.ofTokens ts' = Bindings.ofTokens ts := by
  rw [← ofTokens_map_bare,h,ofTokens_map_bare]

theorem ofTokens_filter_defines (ts : List AnnotatedToken) :
    Bindings.ofTokens (ts.filter (·.defines)) = Bindings.ofTokens ts := by
  simp only [Bindings.ofTokens,List.filter_filter,Bool.and_self]

/-- Only definitions bind. -/
theorem ofTokens_of_definitions {ts ts' : List AnnotatedToken}
    (h : List.Forall₂ (fun t t' => t'.defines = t.defines ∧ (t.defines = true → bare t' = bare t))
      ts ts') : Bindings.ofTokens ts' = Bindings.ofTokens ts := by
  rw [← ofTokens_filter_defines ts,← ofTokens_filter_defines ts']
  apply ofTokens_of_bare
  induction h with
  | nil => rfl
  | @cons t t' ts ts' ht h ih =>
    cases hd : t.defines with
    | false =>
      rw [List.filter_cons_of_neg (by simp [ht.1,hd]),List.filter_cons_of_neg (by simp [hd]),ih]
    | true =>
      rw [List.filter_cons_of_pos hd,List.filter_cons_of_pos (ht.1.trans hd),List.map_cons,
        List.map_cons,ht.2 hd,ih]

theorem resolve_of_bare {t t' : AnnotatedToken} (h : bare t' = bare t) (b : Bindings) :
    b.resolve t' = b.resolve t := by
  change b.resolve (bare t') = b.resolve (bare t)
  rw [h]

end QScope.Resolution
