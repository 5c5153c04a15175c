import QScope.Proofs.RenamedGlobals

/-! # Relative names: what a namespace writes for a name denotes that name there

A name of a namespace has a path and a last part, which stands alone at home and behind the path
everywhere else. A name of the root has no path, and so denotes another one wherever a plain name
takes the namespace that it is written in. -/
namespace QScope

namespace Namespaces

theorem ofToken_of_qualify {t : Token} {path name : Text} (hk : t.kind = .identifier)
    (hi : t.image = DottedNames.qualify path name) (hn : '.' ∉ name) (ns : Option Text) :
    ofToken ns t = some path := by
  rw [ofToken,if_pos ⟨hk,by rw [hi]; rfl⟩,hi,DottedNames.split_qualify path hn]

end Namespaces

namespace AnnotatedToken
variable {x : AnnotatedToken} {home : Option Text} {path : Text}

/-- An identifier of a namespace has a name that stands alone at home, whether or not its own image
spells out the path. -/
theorem exists_relative (hi : x.isIdentifier = true)
    (hx : x.ns = Namespaces.ofToken home x.toToken) (hns : x.ns = some path) :
    ∃ name, name.head? ≠ some '.' ∧
      ∀ viewer, x.nameIn viewer = DottedNames.prefixed name (some path) viewer := by
  have hk : x.kind = .identifier := eq_of_beq hi
  cases hq : x.isQualified with
  | true =>
    rw [isQualified_eq hi] at hq
    obtain ⟨inner,name,himage,hn⟩ := DottedNames.exists_qualify hq
    rw [Namespaces.ofToken_of_qualify hk himage hn,hns] at hx
    obtain rfl := Option.some.inj hx
    refine ⟨name,DottedNames.head?_ne_of_notMem hn,fun viewer => ?_⟩
    rw [nameIn,if_pos hi,DottedNames.relative,himage,DottedNames.split_qualify path hn]
    rfl
  | false =>
    refine ⟨x.image,fun hd => ?_,fun viewer => ?_⟩
    · rw [isQualified_eq hi] at hq
      rw [Namespaces.ofToken_of_dotted hk hd hq,hns] at hx
      cases hx
    · rw [nameIn_of_not_isQualified hi hq,hns]

theorem isQualified_of_root (hi : x.isIdentifier = true)
    (hx : x.ns = Namespaces.ofToken home x.toToken) (hns : x.ns = none) :
    x.isQualified = false := by
  refine Bool.eq_false_iff.mpr fun hq => ?_
  rw [isQualified_eq hi] at hq
  obtain ⟨path,name,himage,hn⟩ := DottedNames.exists_qualify hq
  rw [Namespaces.ofToken_of_qualify (eq_of_beq hi) himage hn,hns] at hx
  cases hx

end AnnotatedToken

namespace Editing
open Annotating DottedNames

/-- The names that namespaces write for the identifiers of a text. Those of a namespace denote the
same names again and have no path exactly at home. Those of the root never have one, and denote the
same only in the root or with a dot in front. -/
structure NamesRoundTrip (tokens : List AnnotatedToken) : Prop where
  denotes : ∀ x ∈ tokens, x.isIdentifier = true → x.ns ≠ none → ∀ viewer,
    denoted viewer x (x.nameIn viewer) = x.canonicalName
  bare : ∀ x ∈ tokens, x.isIdentifier = true → x.ns ≠ none → ∀ viewer,
    (reread viewer x (x.nameIn viewer)).isQualified = false ↔ viewer = x.ns
  root : ∀ x ∈ tokens, x.isIdentifier = true → x.ns = none → ∀ viewer,
    x.nameIn viewer = x.image ∧
      (denoted viewer x (x.nameIn viewer) = x.canonicalName ↔
        viewer = none ∨ x.image.head? = some '.')

section
variable {x : AnnotatedToken} {name path : Text}

theorem denoted_prefixed (hi : x.isIdentifier = true) (hn : name.head? ≠ some '.')
    (path : Text) (viewer : Option Text) :
    denoted viewer x (prefixed name (some path) viewer) = qualify path name := by
  by_cases hv : some path = viewer
  · subst hv
    rw [prefixed_self,denoted_of_undotted hi hn,prefixed_some]
  · have hp : prefixed name (some path) viewer = qualify path name := if_neg hv
    rw [hp,denoted_of_isQualified hi (isQualified_qualify path name)]

theorem isQualified_prefixed (hn : name.head? ≠ some '.') (path : Text) (viewer : Option Text) :
    isQualified (prefixed name (some path) viewer) = false ↔ viewer = some path := by
  by_cases hv : some path = viewer
  · subst hv
    rw [prefixed_self]
    exact iff_of_true (isQualified_of_head? hn) rfl
  · have hp : prefixed name (some path) viewer = qualify path name := if_neg hv
    rw [hp,isQualified_qualify]
    exact iff_of_false nofun (Ne.symm hv)

/-- A name with nothing but a dot in front denotes itself wherever it is written. -/
theorem denoted_of_dotted (hi : x.isIdentifier = true) (hd : name.head? = some '.')
    (hq : isQualified name = false) (viewer : Option Text) : denoted viewer x name = name := by
  have hns : (reread viewer x name).ns = none :=
    Namespaces.ofToken_of_dotted (t := {x.toToken with image := name}) (eq_of_beq hi) hd hq viewer
  rw [denoted_of_plain hi hq,hns,prefixed_none]

theorem qualify_ne (path name : Text) : qualify path name ≠ name := fun h => by
  have hl := congrArg List.length h
  simp [qualify] at hl
  omega

end

theorem parse_namesRoundTrip (file t : Text) : NamesRoundTrip (parse file t) where
  denotes x hx hi hne viewer := by
    obtain ⟨path,hns⟩ := Option.ne_none_iff_exists'.mp hne
    obtain ⟨name,hn,hv⟩ := AnnotatedToken.exists_relative hi (ns_eq_ofToken hx) hns
    rw [AnnotatedToken.canonicalName,hv,hv,denoted_prefixed hi hn,prefixed_some]
  bare x hx hi hne viewer := by
    obtain ⟨path,hns⟩ := Option.ne_none_iff_exists'.mp hne
    obtain ⟨name,hn,hv⟩ := AnnotatedToken.exists_relative hi (ns_eq_ofToken hx) hns
    rw [isQualified_reread hi,hv,hns]
    exact isQualified_prefixed hn path viewer
  root x hx hi hns viewer := by
    have hq := AnnotatedToken.isQualified_of_root hi (ns_eq_ofToken hx) hns
    have hname : ∀ viewer, x.nameIn viewer = x.image := fun viewer => by
      rw [AnnotatedToken.nameIn_of_not_isQualified hi hq,hns,prefixed_none]
    refine ⟨hname viewer,?_⟩
    rw [AnnotatedToken.canonicalName,hname,hname]
    by_cases hd : x.image.head? = some '.'
    · rw [AnnotatedToken.isQualified_eq hi] at hq
      exact iff_of_true (denoted_of_dotted hi hd hq viewer) (.inr hd)
    · rw [denoted_of_undotted hi hd]
      simp only [hd,or_false]
      cases viewer with
      | none => exact iff_of_true rfl rfl
      | some path =>
        rw [prefixed_some]
        exact iff_of_false (qualify_ne path x.image) (Option.some_ne_none path)

end Editing
end QScope
