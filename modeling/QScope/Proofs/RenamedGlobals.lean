import QScope.Proofs.LambdaNamespaces
import QScope.Proofs.Searches

/-! # Renamed globals: the names that a rename leaves of the occurrences of one global

A rename keeps the namespace that an occurrence spells out and drops everything else that stands in
front of its last segment. So a dotted name that is written from the inside of a namespace, and a
name with nothing but a dot in front, leave the global that they were occurrences of. -/
namespace QScope

namespace Annotating
open BracketLayout

/-- The namespace that is in effect at a token of a text. -/
def statementNs (file t : Text) (x : AnnotatedToken) : Option Text :=
  (reached 0 (.start none) (Lexing.tokenize file t) x.index).ns

theorem ns_eq_ofToken {file t : Text} {x : AnnotatedToken} (hx : x ∈ parse file t) :
    x.ns = Namespaces.ofToken (statementNs file t x) x.toToken :=
  ns_annotateIn (getElem?_index hx)

end Annotating

namespace Editing
open Resolution Annotating

/-- A token with another image, read in a statement with the namespace `home`. -/
def reread (home : Option Text) (x : AnnotatedToken) (image : Text) : AnnotatedToken :=
  {x with
    image := image
    ns := Namespaces.ofToken home {x.toToken with image := image}}

/-- The global that an image denotes in the place of a token. -/
def denoted (home : Option Text) (x : AnnotatedToken) (image : Text) : Text :=
  (reread home x image).canonicalName

/-- What a rename keeps in front of an occurrence: the namespace that is spelled out there, or the
one of the statement. -/
def keptNs (home : Option Text) (image : Text) : Option Text := (DottedNames.split image).1.or home

/-- What the occurrences of the global `c` denote under a new name. -/
structure Moves (home : AnnotatedToken → Option Text) (c w : Text)
    (occurrences : List AnnotatedToken) : Prop where
  denotes : ∀ x ∈ occurrences, denoted (home x) x (replacement x w) =
    DottedNames.prefixed w (keptNs (home x) x.image) none
  follows : ∀ x ∈ occurrences, denoted (home x) x (replacement x w) = DottedNames.replacement c w ↔
    x.isQualified = true ∨ '.' ∉ x.image ∨ home x = none
  together : (∃ global, ∀ x ∈ occurrences, denoted (home x) x (replacement x w) = global) ↔
    ∃ ns, ∀ x ∈ occurrences, keptNs (home x) x.image = ns

section
variable {file t c w : Text} {x : AnnotatedToken} {home : Option Text}

@[simp] theorem isIdentifier_reread (home : Option Text) (x : AnnotatedToken) (image : Text) :
    (reread home x image).isIdentifier = x.isIdentifier := rfl

theorem isQualified_reread (hi : x.isIdentifier = true) (home : Option Text) (image : Text) :
    (reread home x image).isQualified = DottedNames.isQualified image := by
  rw [AnnotatedToken.isQualified,isIdentifier_reread,hi,Bool.true_and]
  rfl

theorem denoted_of_isQualified {image : Text} (hi : x.isIdentifier = true)
    (hq : DottedNames.isQualified image = true) (home : Option Text) :
    denoted home x image = image :=
  AnnotatedToken.canonicalName_of_isQualified ((isQualified_reread hi home image).trans hq)

theorem denoted_of_plain {image : Text} (hi : x.isIdentifier = true)
    (hq : DottedNames.isQualified image = false) (home : Option Text) :
    denoted home x image = DottedNames.prefixed image (reread home x image).ns none := by
  have hi' : (reread home x image).isIdentifier = true := hi
  have hq' : (reread home x image).isQualified = false := (isQualified_reread hi home image).trans hq
  rw [denoted,AnnotatedToken.canonicalName,AnnotatedToken.nameIn_of_not_isQualified hi' hq']
  rfl

theorem denoted_of_undotted (hi : x.isIdentifier = true) (hw : w.head? ≠ some '.')
    (home : Option Text) : denoted home x w = DottedNames.prefixed w home none := by
  have hns : (reread home x w).ns = home := Namespaces.ofToken_of_undotted hw home
  rw [denoted_of_plain hi (DottedNames.isQualified_of_head? hw),hns]

theorem denoted_replacement (hi : x.isIdentifier = true) (hw : '.' ∉ w) (home : Option Text) :
    denoted home x (replacement x w) = DottedNames.prefixed w (keptNs home x.image) none := by
  rw [replacement,if_pos hi,keptNs]
  cases hq : DottedNames.isQualified x.image with
  | true =>
    obtain ⟨path,name,himage,hn⟩ := DottedNames.exists_qualify hq
    rw [himage,DottedNames.replacement_qualify path hn hw,DottedNames.split_qualify path hn,
      denoted_of_isQualified hi (DottedNames.isQualified_qualify path w),Option.some_or,
      DottedNames.prefixed_some]
  | false =>
    rw [DottedNames.replacement_of_not_isQualified hq,DottedNames.split_of_not_isQualified hq,
      denoted_of_undotted hi (DottedNames.head?_ne_of_notMem hw),Option.none_or]

/-- A rename keeps the namespace of the global, but for a dotted name that is written from the
inside of a namespace. -/
theorem keptNs_eq_iff (hi : x.isIdentifier = true)
    (hns : x.ns = Namespaces.ofToken home x.toToken) :
    keptNs home x.image = (DottedNames.split x.canonicalName).1 ↔
      x.isQualified = true ∨ '.' ∉ x.image ∨ home = none := by
  cases hq : x.isQualified with
  | true =>
    rw [AnnotatedToken.canonicalName_of_isQualified hq]
    rw [AnnotatedToken.isQualified_eq hi] at hq
    obtain ⟨path,name,himage,hn⟩ := DottedNames.exists_qualify hq
    rw [keptNs,himage,DottedNames.split_qualify path hn,Option.some_or]
    exact iff_of_true rfl (.inl rfl)
  | false =>
    rw [AnnotatedToken.canonicalName_of_plain hi hq]
    rw [AnnotatedToken.isQualified_eq hi] at hq
    rw [keptNs,DottedNames.split_of_not_isQualified hq,Option.none_or]
    simp only [Bool.false_eq_true,false_or]
    by_cases hd : x.image.head? = some '.'
    · -- a name with nothing but a dot in front is a global of the root wherever it stands
      rw [hns,Namespaces.ofToken_of_dotted (beq_iff_eq.mp hi) hd hq]
      have hmem := List.mem_of_mem_head? hd
      rw [DottedNames.split_of_not_isQualified hq]
      simp [hmem]
    · rw [hns,Namespaces.ofToken_of_undotted hd]
      cases home with
      | none =>
        rw [DottedNames.split_of_not_isQualified hq]
        exact iff_of_true rfl (.inr rfl)
      | some path =>
        by_cases hmem : '.' ∈ x.image
        · simpa [hmem] using (DottedNames.split_qualify_ne hmem).symm
        · rw [DottedNames.split_qualify path hmem]
          exact iff_of_true rfl (.inl hmem)

/-- The names that a rename leaves of a global, and when they are one. -/
theorem rename_moves {s : AnnotatedToken}
    (hb : (Bindings.ofTokens (parse file t)).resolve s = some (.inNamespace c)) (hw : '.' ∉ w) :
    Moves (statementNs file t) c w (find .rename (parse file t) s) := by
  have hsearch : Search.rename ≠ .completion := nofun
  have hfind : ∀ x ∈ find .rename (parse file t) s, x ∈ parse file t ∧ x.isIdentifier = true ∧
      x.canonicalName = c := by
    intro x hx
    rw [find_of_resolve hsearch hb,filter_keeps .rename nofun] at hx
    obtain ⟨hx,hxb⟩ := mem_occurrences.mp hx
    obtain ⟨hi,-,hc,-⟩ := Bindings.resolve_eq_inNamespace.mp hxb
    exact ⟨hx,hi,hc⟩
  have hdenotes : ∀ x ∈ find .rename (parse file t) s,
      denoted (statementNs file t x) x (replacement x w) =
        DottedNames.prefixed w (keptNs (statementNs file t x) x.image) none :=
    fun x hx => denoted_replacement (hfind x hx).2.1 hw _
  constructor
  case denotes => exact hdenotes
  case follows =>
    intro x hx
    obtain ⟨hm,hi,rfl⟩ := hfind x hx
    rw [hdenotes x hx,DottedNames.replacement_eq_prefixed hw,DottedNames.prefixed_inj hw]
    exact keptNs_eq_iff hi (ns_eq_ofToken hm)
  case together =>
    constructor
    · rintro ⟨global,hall⟩
      refine ⟨(DottedNames.split global).1,fun x hx => ?_⟩
      rw [← hall x hx,hdenotes x hx,DottedNames.split_prefixed hw]
    · rintro ⟨ns,hall⟩
      refine ⟨DottedNames.prefixed w ns none,fun x hx => ?_⟩
      rw [hdenotes x hx,hall x hx]

/-- A plain name at home and the qualified one elsewhere go on together. -/
theorem rename_moves_spellings :
    (Bindings.ofTokens (parse [] "\\d .n\nb:1\n\\d .\n.n.b".toList)).resolve
        ((parse [] "\\d .n\nb:1\n\\d .\n.n.b".toList).get ⟨1,by decide +kernel⟩) =
          some (.inNamespace ".n.b".toList) ∧
      '.' ∉ "w".toList ∧
      ∃ global, ∀ x ∈ find .rename (parse [] "\\d .n\nb:1\n\\d .\n.n.b".toList)
          ((parse [] "\\d .n\nb:1\n\\d .\n.n.b".toList).get ⟨1,by decide +kernel⟩),
        denoted (statementNs [] "\\d .n\nb:1\n\\d .\n.n.b".toList x) x
          (replacement x "w".toList) = global := by
  have hb : (Bindings.ofTokens (parse [] "\\d .n\nb:1\n\\d .\n.n.b".toList)).resolve
      ((parse [] "\\d .n\nb:1\n\\d .\n.n.b".toList).get ⟨1,by decide +kernel⟩) =
        some (.inNamespace ".n.b".toList) := by decide +kernel
  have hw : '.' ∉ "w".toList := by decide
  have hm := rename_moves hb hw
  exact ⟨hb,hw,hm.together.mpr ⟨some ['n'],by decide +kernel⟩⟩

/-- The occurrences of some global are no occurrences of one global under a new name. -/
def Splits (t w : Text) : Prop :=
  ∃ s ∈ parse [] t, (∃ c, (Bindings.ofTokens (parse [] t)).resolve s = some (.inNamespace c)) ∧
    '.' ∉ w ∧ ¬∃ global, ∀ x ∈ find .rename (parse [] t) s,
      denoted (statementNs [] t x) x (replacement x w) = global

theorem splits_of_denoted {s : AnnotatedToken} {a b : Text} (hs : s ∈ parse [] t)
    (hb : (Bindings.ofTokens (parse [] t)).resolve s = some (.inNamespace c)) (hw : '.' ∉ w)
    (h : (find .rename (parse [] t) s).map
      (fun x => denoted (statementNs [] t x) x (replacement x w)) = [a,b]) (hab : a ≠ b) :
    Splits t w := by
  refine ⟨s,hs,⟨c,hb⟩,hw,?_⟩
  rintro ⟨global,hall⟩
  have hglobal : ∀ d ∈ [a,b], d = global := by
    rw [← h]
    exact List.forall_mem_map.mpr hall
  exact hab ((hglobal a (by simp)).trans (hglobal b (by simp)).symm)

/-- A dotted name that is written from the inside of its namespace, and a name of the root that is
used in another namespace. -/
theorem rename_splits :
    Splits "\\d .n\na.b:1\n.n.a.b".toList "w".toList ∧
      Splits ".x:1\n\\d .n\n.x".toList "w".toList := by
  constructor
  · exact splits_of_denoted (a := ".n.w".toList) (b := ".n.a.w".toList)
      (List.get_mem (parse [] "\\d .n\na.b:1\n.n.a.b".toList) ⟨1,by decide +kernel⟩)
      (c := ".n.a.b".toList) (by decide +kernel) (by decide) (by decide +kernel) (by decide)
  · exact splits_of_denoted (a := "w".toList) (b := ".n.w".toList)
      (List.get_mem (parse [] ".x:1\n\\d .n\n.x".toList) ⟨0,by decide +kernel⟩)
      (c := ".x".toList) (by decide +kernel) (by decide) (by decide +kernel) (by decide)

end

end Editing
end QScope
