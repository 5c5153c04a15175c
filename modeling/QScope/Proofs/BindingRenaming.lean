import QScope.Proofs.BindingLookup
import QScope.Proofs.QualifiedNames

/-! # Binding renaming: a new name for all occurrences of a binding leaves the others apart

The name must be fresh: it is the last segment of no name in the text, so no binding is captured. -/
namespace QScope.Resolution
open Texts

namespace Binding

def name : Binding → Text
  | inLambda _ name => name
  | inNamespace name => name

/-- A binding under a new name; a global one stays in its namespace. -/
def named (w : Text) : Binding → Binding
  | inLambda brace _ => inLambda brace w
  | inNamespace name => inNamespace (DottedNames.replacement name w)

/-- What becomes of a binding when `target` gets a new name. -/
def renamed (target : Binding) (w : Text) (binding : Binding) : Binding :=
  if binding = target then target.named w else binding

theorem behindLast_named {w : Text} (hw : '.' ∉ w) (binding : Binding) :
    behindLast '.' (binding.named w).name = w := by
  cases binding with
  | inLambda brace name => exact behindLast_of_notMem hw
  | inNamespace name => exact DottedNames.behindLast_replacement hw name

/-- A new name that no binding has in its last segment makes no two bindings one. -/
theorem renamed_injective {target : Binding} {w : Text} (hw : '.' ∉ w) {x y : Binding}
    (hx : behindLast '.' x.name ≠ w) (hy : behindLast '.' y.name ≠ w)
    (h : renamed target w x = renamed target w y) : x = y := by
  rw [renamed,renamed] at h
  split_ifs at h with hxt hyt hyt
  · rw [hxt,hyt]
  · exact absurd (h ▸ behindLast_named hw target) hy
  · exact absurd (h ▸ behindLast_named hw target) hx
  · exact h

end Binding

/-- A token after the binding `target` has got a new name. -/
def renamed (b : Bindings) (target : Binding) (w : Text) (t : AnnotatedToken) : AnnotatedToken :=
  if b.resolve t = some target then {t with image := replacement t w} else t

section
variable (b : Bindings) (target : Binding) (w : Text) (t : AnnotatedToken)

@[simp] theorem isIdentifier_renamed : (renamed b target w t).isIdentifier = t.isIdentifier := by
  rw [renamed]
  split <;> rfl

@[simp] theorem scope_renamed : (renamed b target w t).scope = t.scope := by
  rw [renamed]
  split <;> rfl

@[simp] theorem ns_renamed : (renamed b target w t).ns = t.ns := by
  rw [renamed]
  split <;> rfl

@[simp] theorem flags_renamed : (renamed b target w t).flags = t.flags := by
  rw [renamed]
  split <;> rfl

@[simp] theorem defines_renamed : (renamed b target w t).defines = t.defines := by
  rw [renamed]
  split <;> rfl

variable {b target w t}

theorem renamed_of_resolve (h : b.resolve t = some target) :
    renamed b target w t = {t with image := DottedNames.replacement t.image w} := by
  rw [renamed,if_pos h,replacement,if_pos (Bindings.isIdentifier_of_resolve h)]

theorem renamed_of_ne (h : b.resolve t ≠ some target) : renamed b target w t = t := if_neg h

end

/-- A fresh plain name for a binding whose occurrences are qualified or plain. -/
structure Renaming (ts : List AnnotatedToken) (target : Binding) (w : Text) : Prop where
  plain : '.' ∉ w
  fresh : ∀ t ∈ ts, behindLast '.' t.image ≠ w
  bound : ∃ t ∈ ts, (Bindings.ofTokens ts).resolve t = some target
  written : ∀ t ∈ ts, (Bindings.ofTokens ts).resolve t = some target →
    t.isQualified = true ∨ '.' ∉ t.image

namespace Renaming
variable {ts : List AnnotatedToken} {target : Binding} {w : Text} {t u : AnnotatedToken}

theorem isQualified_renamed (h : Renaming ts target w) (t : AnnotatedToken) :
    (renamed (.ofTokens ts) target w t).isQualified = t.isQualified := by
  by_cases ht : (Bindings.ofTokens ts).resolve t = some target
  · rw [renamed_of_resolve ht]
    exact congrArg (t.isIdentifier && ·) (DottedNames.isQualified_replacement h.plain t.image)
  · rw [renamed_of_ne ht]

/-- Which binding a token would have as a local of its lambda. -/
theorem localKey?_renamed (h : Renaming ts target w) (t : AnnotatedToken) :
    localKey? (renamed (.ofTokens ts) target w t) = if t.isQualified then none
      else t.scope.map (·,(renamed (.ofTokens ts) target w t).image) := by
  rw [localKey?,h.isQualified_renamed,scope_renamed]

theorem exists_localKey?_renamed (h : Renaming ts target w) (t : AnnotatedToken) :
    (∃ k, localKey? (renamed (.ofTokens ts) target w t) = some k) ↔
      ∃ k, localKey? t = some k := by
  rw [h.localKey?_renamed,localKey?]
  split_ifs
  · rfl
  · cases t.scope with
    | none => rfl
    | some brace => exact iff_of_true ⟨_,rfl⟩ ⟨_,rfl⟩

/-- The tokens after the binding `target` has got a new name. -/
def renamedTokens (ts : List AnnotatedToken) (target : Binding) (w : Text) : List AnnotatedToken :=
  ts.map (renamed (.ofTokens ts) target w)

theorem mem_locals_renamedTokens {k : Nat × Text} :
    k ∈ (Bindings.ofTokens (renamedTokens ts target w)).locals ↔
      ∃ t ∈ ts, t.defines = true ∧ t.flags.global = false ∧
        localKey? (renamed (.ofTokens ts) target w t) = some k := by
  rw [Bindings.mem_locals]
  simp [renamedTokens]

/-- Definitions of local names are no occurrences of a global one. -/
theorem resolve_ne_of_defines {global : Text} {k : Nat × Text} (ht : t ∈ ts)
    (hd : t.defines = true) (hg : t.flags.global = false) (hk : localKey? t = some k) :
    (Bindings.ofTokens ts).resolve t ≠ some (.inNamespace global) := by
  intro hf
  have hl := (Bindings.resolve_eq_inNamespace.mp hf).2.1
  exact Bindings.local?_eq_none.mp hl k hk (Bindings.mem_locals.mpr ⟨t,ht,hd,hg,hk⟩)

/-- How the keys of a text change when a local name does. -/
theorem localKey?_inLambda {brace : Nat} {name : Text} {k : Nat × Text}
    (h : Renaming ts (.inLambda brace name) w) (hi : t.isIdentifier = true)
    (hk : localKey? t = some k) :
    ∃ k', localKey? (renamed (.ofTokens ts) (.inLambda brace name) w t) = some k' ∧
      Binding.inLambda k'.1 k'.2 =
        Binding.renamed (.inLambda brace name) w (.inLambda k.1 k.2) := by
  obtain ⟨s,-,hs⟩ := h.bound
  have hm := (Bindings.resolve_eq_inLambda.mp hs).2.2
  by_cases ht : (Bindings.ofTokens ts).resolve t = some (.inLambda brace name)
  · have hkey := (Bindings.resolve_eq_inLambda.mp ht).2.1
    obtain rfl : (brace,name) = k := Option.some.inj (hkey.symm.trans hk)
    have hq := not_isQualified_of_localKey? hk
    have hscope : t.scope = some brace := by
      rw [localKey?,hq,if_neg Bool.false_ne_true] at hk
      obtain ⟨j,hj,hjk⟩ := Option.map_eq_some_iff.mp hk
      rw [hj,(Prod.mk.inj hjk).1]
    refine ⟨(brace,w),?_,?_⟩
    · rw [AnnotatedToken.isQualified_eq hi] at hq
      rw [h.localKey?_renamed,AnnotatedToken.isQualified_eq hi,hq,if_neg Bool.false_ne_true,hscope,
        renamed_of_resolve ht]
      dsimp only
      rw [DottedNames.replacement_of_not_isQualified hq]
      rfl
    · rw [Binding.renamed,if_pos rfl]
      rfl
  · refine ⟨k,by rwa [renamed_of_ne ht],?_⟩
    rw [Binding.renamed,if_neg]
    intro he
    obtain ⟨rfl,rfl⟩ := Binding.inLambda.inj he
    exact ht (Bindings.resolve_eq_inLambda.mpr ⟨hi,hk,hm⟩)

theorem fresh_localKey? (h : Renaming ts target w) (ht : t ∈ ts) {k : Nat × Text}
    (hk : localKey? t = some k) : behindLast '.' (Binding.inLambda k.1 k.2).name ≠ w := by
  rw [Binding.name,image_of_localKey? hk]
  exact h.fresh t ht

/-- The keys of a token before and after: both are defined or none is, and as bindings the one
becomes the other. -/
structure Corresponds (ts : List AnnotatedToken) (target : Binding) (w : Text)
    (k k' : Nat × Text) : Prop where
  defined : k' ∈ (Bindings.ofTokens (renamedTokens ts target w)).locals ↔
    k ∈ (Bindings.ofTokens ts).locals
  binding : k ∈ (Bindings.ofTokens ts).locals →
    Binding.inLambda k'.1 k'.2 = Binding.renamed target w (.inLambda k.1 k.2)

theorem key_inLambda {brace : Nat} {name : Text} {k : Nat × Text}
    (h : Renaming ts (.inLambda brace name) w) (hu : u ∈ ts) (hi : u.isIdentifier = true)
    (hk : localKey? u = some k) :
    ∃ k', localKey? (renamed (.ofTokens ts) (.inLambda brace name) w u) = some k' ∧
      Corresponds ts (.inLambda brace name) w k k' := by
  obtain ⟨k',hk',he⟩ := h.localKey?_inLambda hi hk
  refine ⟨k',hk',?_,fun _ => he⟩
  rw [mem_locals_renamedTokens,Bindings.mem_locals]
  constructor
  · rintro ⟨t,ht,hd,hg,hkt⟩
    refine ⟨t,ht,hd,hg,?_⟩
    obtain ⟨j,hj⟩ := (h.exists_localKey?_renamed t).mp ⟨k',hkt⟩
    obtain ⟨j',hj',hje⟩ := h.localKey?_inLambda (isIdentifier_of_defines hd) hj
    obtain rfl := Option.some.inj (hj'.symm.trans hkt)
    have hb := Binding.renamed_injective h.plain (h.fresh_localKey? ht hj) (h.fresh_localKey? hu hk)
      (hje.symm.trans he)
    obtain ⟨h1,h2⟩ := Binding.inLambda.inj hb
    rw [hj,Prod.ext h1 h2]
  · rintro ⟨t,ht,hd,hg,hkt⟩
    refine ⟨t,ht,hd,hg,?_⟩
    obtain ⟨j',hj',hje⟩ := h.localKey?_inLambda (isIdentifier_of_defines hd) hkt
    obtain ⟨h1,h2⟩ := Binding.inLambda.inj (hje.trans he.symm)
    rw [hj',Prod.ext h1 h2]

theorem key_inNamespace {global : Text} {k : Nat × Text}
    (h : Renaming ts (.inNamespace global) w) (hk : localKey? u = some k) :
    ∃ k', localKey? (renamed (.ofTokens ts) (.inNamespace global) w u) = some k' ∧
      Corresponds ts (.inNamespace global) w k k' := by
  -- No definition of a local name changes, and no changed name has a definition.
  have hsame : ∀ {k : Nat × Text},
      k ∈ (Bindings.ofTokens (renamedTokens ts (.inNamespace global) w)).locals ↔
        k ∈ (Bindings.ofTokens ts).locals := by
    intro k
    rw [mem_locals_renamedTokens,Bindings.mem_locals]
    constructor
    · rintro ⟨t,ht,hd,hg,hkt⟩
      obtain ⟨j,hj⟩ := (h.exists_localKey?_renamed t).mp ⟨k,hkt⟩
      rw [renamed_of_ne (resolve_ne_of_defines ht hd hg hj)] at hkt
      exact ⟨t,ht,hd,hg,hkt⟩
    · rintro ⟨t,ht,hd,hg,hkt⟩
      refine ⟨t,ht,hd,hg,?_⟩
      rwa [renamed_of_ne (resolve_ne_of_defines ht hd hg hkt)]
  by_cases hf : (Bindings.ofTokens ts).resolve u = some (.inNamespace global)
  · have hl := Bindings.local?_eq_none.mp (Bindings.resolve_eq_inNamespace.mp hf).2.1 k hk
    obtain ⟨k',hk'⟩ := (h.exists_localKey?_renamed u).mpr ⟨k,hk⟩
    refine ⟨k',hk',iff_of_false (fun hm => ?_) hl,fun hm => absurd hm hl⟩
    obtain ⟨t,ht,-,-,hkt⟩ := Bindings.mem_locals.mp (hsame.mp hm)
    have hw := image_of_localKey? hk'
    rw [image_of_localKey? hkt,renamed_of_resolve hf] at hw
    refine h.fresh t ht ?_
    rw [hw]
    exact DottedNames.behindLast_replacement h.plain u.image
  · refine ⟨k,by rwa [renamed_of_ne hf],hsame,fun _ => ?_⟩
    rw [Binding.renamed,if_neg nofun]

theorem exists_key (h : Renaming ts target w) (hu : u ∈ ts) (hi : u.isIdentifier = true)
    {k : Nat × Text} (hk : localKey? u = some k) :
    ∃ k', localKey? (renamed (.ofTokens ts) target w u) = some k' ∧
      Corresponds ts target w k k' := by
  cases target with
  | inLambda brace name => exact h.key_inLambda hu hi hk
  | inNamespace global => exact h.key_inNamespace hk

theorem local?_renamed (h : Renaming ts target w) (hu : u ∈ ts) (hi : u.isIdentifier = true) :
    Bindings.local? (Bindings.ofTokens (renamedTokens ts target w)).locals
        (renamed (.ofTokens ts) target w u) =
      (Bindings.local? (Bindings.ofTokens ts).locals u).map (Binding.renamed target w) := by
  cases hl : Bindings.local? (Bindings.ofTokens ts).locals u with
  | none =>
    refine Bindings.local?_eq_none.mpr fun k' hk' hm => ?_
    obtain ⟨k,hk⟩ := (h.exists_localKey?_renamed u).mp ⟨k',hk'⟩
    obtain ⟨j,hj,hc⟩ := h.exists_key hu hi hk
    obtain rfl := Option.some.inj (hj.symm.trans hk')
    exact Bindings.local?_eq_none.mp hl k hk (hc.defined.mp hm)
  | some binding =>
    obtain ⟨k,hk,hm,rfl⟩ := Bindings.local?_eq_some.mp hl
    obtain ⟨k',hk',hc⟩ := h.exists_key hu hi hk
    exact Bindings.local?_eq_some.mpr ⟨k',hk',hc.defined.mpr hm,(hc.binding hm).symm⟩

/-- The occurrences of a global name have one canonical name again. -/
theorem canonicalName_renamed (h : Renaming ts target w) (hu : u ∈ ts)
    (hi : u.isIdentifier = true) (hl : Bindings.local? (Bindings.ofTokens ts).locals u = none) :
    Binding.inNamespace (renamed (.ofTokens ts) target w u).canonicalName =
      Binding.renamed target w (.inNamespace u.canonicalName) := by
  by_cases hf : (Bindings.ofTokens ts).resolve u = some target
  · cases target with
    | inLambda brace name =>
      obtain ⟨-,hk,hm⟩ := Bindings.resolve_eq_inLambda.mp hf
      exact absurd hm (Bindings.local?_eq_none.mp hl _ hk)
    | inNamespace global =>
      obtain rfl := (Bindings.resolve_eq_inNamespace.mp hf).2.2.1
      rw [Binding.renamed,if_pos rfl,Binding.named]
      congr 1
      have hi' := isIdentifier_renamed (.ofTokens ts) (.inNamespace u.canonicalName) w u
      have hq' := h.isQualified_renamed u
      have himage := congrArg (·.image) (renamed_of_resolve (w := w) hf)
      dsimp only at himage
      rw [hi] at hi'
      cases hq : u.isQualified with
      | true =>
        rw [AnnotatedToken.canonicalName_of_isQualified (hq'.trans hq),himage,
          AnnotatedToken.canonicalName_of_isQualified hq]
      | false =>
        have hdot := (h.written u hu hf).resolve_left (by rw [hq]; exact nofun)
        have hn := DottedNames.replacement_of_not_isQualified
          ((AnnotatedToken.isQualified_eq hi).symm.trans hq) w
        rw [AnnotatedToken.canonicalName_of_plain hi' (hq'.trans hq),ns_renamed,himage,
          AnnotatedToken.canonicalName_of_plain hi hq,hn]
        cases u.ns with
        | none => exact hn.symm
        | some path => exact (DottedNames.replacement_qualify path hdot h.plain).symm
  · rw [renamed_of_ne hf,Binding.renamed,if_neg]
    rintro rfl
    obtain ⟨s,-,hs⟩ := h.bound
    exact hf (Bindings.resolve_eq_inNamespace.mpr
      ⟨hi,hl,rfl,(Bindings.resolve_eq_inNamespace.mp hs).2.2.2⟩)

theorem fresh_canonicalName (h : Renaming ts target w) (hu : u ∈ ts)
    (hi : u.isIdentifier = true) :
    behindLast '.' (Binding.inNamespace u.canonicalName).name ≠ w := by
  rw [Binding.name,AnnotatedToken.behindLast_canonicalName hi]
  exact h.fresh u hu

theorem mem_globals_renamedTokens (h : Renaming ts target w) (hu : u ∈ ts)
    (hi : u.isIdentifier = true)
    (hl : Bindings.local? (Bindings.ofTokens ts).locals u = none) :
    (renamed (.ofTokens ts) target w u).canonicalName ∈
        (Bindings.ofTokens (renamedTokens ts target w)).globals ↔
      u.canonicalName ∈ (Bindings.ofTokens ts).globals := by
  rw [Bindings.mem_globals,Bindings.mem_globals]
  have hcu := h.canonicalName_renamed hu hi hl
  constructor
  · rintro ⟨t',ht',hd,hlt,hct⟩
    obtain ⟨t,ht,rfl⟩ := List.mem_map.mp ht'
    rw [defines_renamed] at hd
    have hit := isIdentifier_of_defines hd
    rw [h.local?_renamed ht hit,Option.map_eq_none_iff] at hlt
    refine ⟨t,ht,hd,hlt,?_⟩
    have hc := h.canonicalName_renamed ht hit hlt
    rw [hct] at hc
    exact Binding.inNamespace.inj (Binding.renamed_injective h.plain
      (h.fresh_canonicalName ht hit) (h.fresh_canonicalName hu hi) (hc.symm.trans hcu))
  · rintro ⟨t,ht,hd,hlt,hct⟩
    have hit := isIdentifier_of_defines hd
    have hc := h.canonicalName_renamed ht hit hlt
    rw [hct] at hc
    refine ⟨_,List.mem_map_of_mem ht,by rwa [defines_renamed],?_,?_⟩
    · rw [h.local?_renamed ht hit,hlt,Option.map_none]
    · exact Binding.inNamespace.inj (hc.trans hcu.symm)

/-- After a renaming every token refers to what has become of its binding. -/
theorem resolve_renamed (h : Renaming ts target w) (hu : u ∈ ts) :
    (Bindings.ofTokens (renamedTokens ts target w)).resolve (renamed (.ofTokens ts) target w u) =
      ((Bindings.ofTokens ts).resolve u).map (Binding.renamed target w) := by
  cases hi : u.isIdentifier with
  | false =>
    rw [Bindings.resolve,Bindings.resolve,isIdentifier_renamed,hi]
    rfl
  | true =>
    have hlocal := h.local?_renamed hu hi
    rw [Bindings.resolve,Bindings.resolve,isIdentifier_renamed,hi,if_pos rfl,if_pos rfl,hlocal]
    cases hl : Bindings.local? (Bindings.ofTokens ts).locals u with
    | some binding => rfl
    | none =>
      have hm := h.mem_globals_renamedTokens hu hi hl
      have hc := h.canonicalName_renamed hu hi hl
      simp only [Option.map_none,List.contains_iff_mem,hm]
      split_ifs
      · rw [hc,Option.map_some]
      · rfl

/-- No two bindings of tokens become one. -/
theorem resolve_injective (h : Renaming ts target w) {t u : AnnotatedToken} (ht : t ∈ ts)
    (hu : u ∈ ts)
    (he : ((Bindings.ofTokens ts).resolve t).map (Binding.renamed target w) =
      ((Bindings.ofTokens ts).resolve u).map (Binding.renamed target w)) :
    (Bindings.ofTokens ts).resolve t = (Bindings.ofTokens ts).resolve u := by
  have hfresh : ∀ {t : AnnotatedToken} {binding : Binding}, t ∈ ts →
      (Bindings.ofTokens ts).resolve t = some binding → behindLast '.' binding.name ≠ w := by
    intro t binding ht hb
    cases binding with
    | inLambda brace name =>
      exact h.fresh_localKey? ht (Bindings.resolve_eq_inLambda.mp hb).2.1
    | inNamespace name =>
      obtain ⟨hi,-,rfl,-⟩ := Bindings.resolve_eq_inNamespace.mp hb
      exact h.fresh_canonicalName ht hi
  cases hbt : (Bindings.ofTokens ts).resolve t with
  | none =>
    rw [hbt,Option.map_none,eq_comm,Option.map_eq_none_iff] at he
    exact he.symm
  | some x =>
    cases hbu : (Bindings.ofTokens ts).resolve u with
    | none => rw [hbt,hbu] at he; cases he
    | some y =>
      rw [hbt,hbu,Option.map_some,Option.map_some,Option.some.injEq] at he
      rw [Binding.renamed_injective h.plain (hfresh ht hbt) (hfresh hu hbu) he]

end Renaming
end QScope.Resolution
