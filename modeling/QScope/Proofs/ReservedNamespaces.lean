import QScope.Proofs.LintVerdicts
import QScope.Proofs.NamespaceSwitches

/-! # Reserved namespaces: the two spellings of an assignment into them, and the one that is reported

A name can spell out its namespace, or stand alone behind a switch to it. Both are one global, but
only of the first one does the linter see the namespace. -/
namespace QScope

namespace DottedNames
variable {path name ns last : Text}

/-- Two undotted parts can be read back from the name that they make. -/
theorem qualify_inj (hns : '.' ∉ ns) (hlast : '.' ∉ last) :
    qualify path name = qualify ns last ↔ path = ns ∧ name = last := by
  refine ⟨fun h => ?_,fun ⟨hp,hn⟩ => by rw [hp,hn]⟩
  have hcount : ∀ p n : Text, (qualify p n).count '.' = p.count '.' + n.count '.' + 2 := by
    intro p n
    simp only [qualify,List.cons_append,List.count_cons_self,List.count_append]
    omega
  have hdots := congrArg (List.count '.') h
  rw [hcount,hcount,List.count_eq_zero.mpr hns,List.count_eq_zero.mpr hlast] at hdots
  have hname : '.' ∉ name := List.count_eq_zero.mp (by omega)
  have hsplit := congrArg split h
  rw [split_qualify path hname,split_qualify ns hlast] at hsplit
  obtain ⟨hp,hn⟩ := Prod.mk.inj hsplit
  exact ⟨Option.some.inj hp,hn⟩

end DottedNames

namespace AnnotatedToken
open DottedNames
variable {t : AnnotatedToken} {ns last : Text}

/-- A plain name is that of an undotted namespace when it stands there itself. -/
theorem canonicalName_eq_qualify (hi : t.isIdentifier = true) (hq : t.isQualified = false)
    (hns : '.' ∉ ns) (hlast : '.' ∉ last) :
    t.canonicalName = qualify ns last ↔ t.ns = some ns ∧ t.image = last := by
  rw [canonicalName_of_plain hi hq]
  cases t.ns with
  | none =>
    refine iff_of_false (fun h => ?_) nofun
    have himage : t.image = qualify ns last := h
    rw [isQualified_eq hi,himage,isQualified_qualify] at hq
    cases hq
  | some path =>
    dsimp only
    rw [qualify_inj hns hlast,Option.some.injEq]

end AnnotatedToken

namespace Linting
open Annotating BracketLayout DottedNames Resolution

/-- A name of one segment in a namespace of the language itself. -/
def IsReservedName (name : Text) : Prop :=
  ∃ ns ∈ reservedNamespaces, ∃ last, '.' ∉ last ∧ name = qualify ns last

/-- A token is reported as an assignment into a reserved namespace. -/
def IsGuarded (tokens : List AnnotatedToken) (x : AnnotatedToken) : Prop :=
  ∃ ns, (⟨x,.reservedNamespace ns⟩ : Finding) ∈ lint [] tokens

/-- The assignments that are reported are those of reserved names that spell out the namespace, and
none of them is local. The others stand alone in a statement that is in the namespace. -/
structure NamesGuarded (file t : Text) : Prop where
  named : ∀ x ∈ parse file t, ∀ ns,
    (⟨x,.reservedNamespace ns⟩ : Finding) ∈ lint [] (parse file t) →
      x.isAssigned = true ∧ ns ∈ reservedNamespaces ∧
        ∃ last, '.' ∉ last ∧ x.canonicalName = qualify ns last
  global : ∀ x ∈ parse file t, IsGuarded (parse file t) x → ∀ brace name,
    (Bindings.ofTokens (parse file t)).resolve x ≠ some (.inLambda brace name)
  spelled : ∀ x ∈ parse file t, x.isAssigned = true → x.isQualified = true →
    (IsGuarded (parse file t) x ↔ IsReservedName x.canonicalName)
  plain : ∀ x ∈ parse file t, x.isAssigned = true → x.isQualified = false →
    ¬IsGuarded (parse file t) x ∧
      (IsReservedName x.canonicalName ↔ '.' ∉ x.image ∧ ∃ ns ∈ reservedNamespaces,
        InEffect (Lexing.tokenize file t) x.index (some ns))

section
variable {file t : Text} {tokens : List AnnotatedToken} {x : AnnotatedToken} {ns : Text}

theorem dot_notMem_reserved : ∀ ns ∈ reservedNamespaces, '.' ∉ ns := by decide

theorem isIdentifier_of_isAssigned (h : x.isAssigned = true) : x.isIdentifier = true :=
  (Bool.and_eq_true_iff.mp h).1

/-- What is said of an assigned name goes by its image. -/
theorem reservedNamespace?_eq_some : reservedNamespace? x = some (.reservedNamespace ns) ↔
    x.isAssigned = true ∧ ns ∈ reservedNamespaces ∧
      ∃ last, '.' ∉ last ∧ x.image = qualify ns last := by
  rw [reservedNamespace?]
  split
  · rename_i ha
    cases hq : isQualified x.image with
    | true =>
      obtain ⟨path,name,himage,hn⟩ := exists_qualify hq
      rw [himage,split_qualify path hn]
      dsimp only
      constructor
      · intro h
        split at h
        · rename_i hmem
          cases h
          exact ⟨ha,List.contains_iff_mem.mp hmem,name,hn,rfl⟩
        · cases h
      · rintro ⟨-,hmem,last,hlast,h⟩
        obtain ⟨rfl,-⟩ := (qualify_inj (dot_notMem_reserved ns hmem) hlast).mp h
        exact if_pos (List.contains_iff_mem.mpr hmem)
    | false =>
      rw [split_of_not_isQualified hq]
      refine iff_of_false (by simp) ?_
      rintro ⟨-,-,last,-,h⟩
      rw [h,isQualified_qualify] at hq
      cases hq
  · rename_i ha
    exact iff_of_false (by simp) fun h => ha h.1

/-- A finding of the reserved namespaces is one on the image of an assigned name. -/
theorem mem_lint_reservedNamespace (hx : x ∈ tokens) :
    (⟨x,.reservedNamespace ns⟩ : Finding) ∈ lint [] tokens ↔
      x.isAssigned = true ∧ ns ∈ reservedNamespaces ∧
        ∃ last, '.' ∉ last ∧ x.image = qualify ns last := by
  rw [mem_lint,← reservedNamespace?_eq_some]
  have hword : ∀ following, reservedWord? x following ≠ some (.reservedNamespace ns) := by
    intro following h
    rw [reservedWord?] at h
    split at h <;> cases h
  have hproblems : ∀ following, .reservedNamespace ns ∈ problems tokens x following ↔
      reservedNamespace? x = some (.reservedNamespace ns) := by
    intro following
    rw [mem_problems_assignReservedWord rfl]
    exact or_iff_right (hword following)
  simp only [hproblems]
  constructor
  · rintro ⟨-,-,h,-⟩
    exact h
  · intro h
    obtain ⟨i,hi⟩ := List.mem_iff_getElem?.mp hx
    exact ⟨i,hi,h,List.not_mem_nil⟩

/-- A plain name is never reported. -/
theorem not_isGuarded (hx : x ∈ tokens) (hq : x.isQualified = false) : ¬IsGuarded tokens x := by
  rintro ⟨ns,h⟩
  obtain ⟨ha,-,last,-,himage⟩ := (mem_lint_reservedNamespace hx).mp h
  rw [AnnotatedToken.isQualified_eq (isIdentifier_of_isAssigned ha),himage,
    isQualified_qualify] at hq
  cases hq

theorem isQualified_of_isGuarded (hx : x ∈ tokens) (h : IsGuarded tokens x) :
    x.isQualified = true := by
  by_contra hq
  exact not_isGuarded hx (Bool.eq_false_iff.mpr hq) h

/-- A qualified name is reported for what it is. -/
theorem isGuarded_iff (hx : x ∈ tokens) (ha : x.isAssigned = true) (hq : x.isQualified = true) :
    IsGuarded tokens x ↔ IsReservedName x.canonicalName := by
  rw [AnnotatedToken.canonicalName_of_isQualified hq,IsGuarded,IsReservedName]
  simp only [mem_lint_reservedNamespace hx,ha,true_and]

/-- A plain name is a reserved one when it is undotted and its statement is in the namespace. -/
theorem isReservedName_iff (hx : x ∈ parse file t) (hi : x.isIdentifier = true)
    (hq : x.isQualified = false) : IsReservedName x.canonicalName ↔
      '.' ∉ x.image ∧ ∃ ns ∈ reservedNamespaces,
        InEffect (Lexing.tokenize file t) x.index (some ns) := by
  have heffect := inEffect_reached (fun _ hu => Lexing.trim_of_command hu) (index_lt hx).le
  have hns : ∀ ns, '.' ∉ x.image →
      (x.ns = some ns ↔ InEffect (Lexing.tokenize file t) x.index (some ns)) := by
    intro ns hd
    rw [ns_of_index hx,Namespaces.ofToken_of_undotted (head?_ne_of_notMem hd)]
    exact ⟨fun h => h ▸ heffect,heffect.unique⟩
  constructor
  · rintro ⟨ns,hmem,last,hlast,h⟩
    obtain ⟨hhome,rfl⟩ :=
      (AnnotatedToken.canonicalName_eq_qualify hi hq (dot_notMem_reserved ns hmem) hlast).mp h
    exact ⟨hlast,ns,hmem,(hns ns hlast).mp hhome⟩
  · rintro ⟨hd,ns,hmem,h⟩
    refine ⟨ns,hmem,x.image,hd,?_⟩
    rw [AnnotatedToken.canonicalName_eq_qualify hi hq (dot_notMem_reserved ns hmem) hd]
    exact ⟨(hns ns hd).mpr h,rfl⟩

end

theorem parse_namesGuarded (file t : Text) : NamesGuarded file t where
  named x hx ns h := by
    have hq := isQualified_of_isGuarded hx ⟨ns,h⟩
    rw [AnnotatedToken.canonicalName_of_isQualified hq]
    exact (mem_lint_reservedNamespace hx).mp h
  global x hx h brace name hr := by
    obtain ⟨-,hk,-⟩ := Bindings.resolve_eq_inLambda.mp hr
    have hq := isQualified_of_isGuarded hx h
    rw [not_isQualified_of_localKey? hk] at hq
    cases hq
  spelled _ hx ha hq := isGuarded_iff hx ha hq
  plain _ hx ha hq :=
    ⟨not_isGuarded hx hq,isReservedName_iff hx (isIdentifier_of_isAssigned ha) hq⟩

/-- The same global from the inside of its namespace and from the outside. -/
def spellings : Text := "\\d .q\nx:1\n\\d .\n.q.x:2".toList

/-- The qualified name is reported, and the plain one is not. -/
theorem parse_namesGuarded_spellings :
    (∃ x ∈ (parse [] spellings)[1]?, x.canonicalName = ".q.x".toList ∧
      ¬IsGuarded (parse [] spellings) x) ∧
    ∃ x ∈ (parse [] spellings)[5]?, x.canonicalName = ".q.x".toList ∧
      IsGuarded (parse [] spellings) x := by
  obtain ⟨x,hx,hname,ha,hq⟩ : ∃ x ∈ (parse [] spellings)[1]?, x.canonicalName = ".q.x".toList ∧
      x.isAssigned = true ∧ x.isQualified = false := by
    decide +kernel
  obtain ⟨y,hy,hname',ha',hq'⟩ : ∃ y ∈ (parse [] spellings)[5]?,
      y.canonicalName = ".q.x".toList ∧ y.isAssigned = true ∧ y.isQualified = true := by
    decide +kernel
  have h := parse_namesGuarded [] spellings
  refine ⟨⟨x,hx,hname,(h.plain x (List.mem_of_getElem? hx) ha hq).1⟩,y,hy,hname',?_⟩
  rw [h.spelled y (List.mem_of_getElem? hy) ha' hq',hname']
  exact ⟨"q".toList,by decide,"x".toList,by decide,by decide⟩

/-- A plain name behind a switch to a reserved namespace is a global of it and is not reported. -/
theorem plain_name_unguarded :
    ¬∀ (t : Text) (x : AnnotatedToken), x ∈ parse [] t → x.isAssigned = true →
      (∀ brace name, (Bindings.ofTokens (parse [] t)).resolve x ≠ some (.inLambda brace name)) →
        IsReservedName x.canonicalName → IsGuarded (parse [] t) x := by
  intro h
  obtain ⟨x,hx,hname,ha,hq,hr⟩ : ∃ x ∈ (parse [] "\\d .q\nx:1".toList)[1]?,
      x.canonicalName = ".q.x".toList ∧ x.isAssigned = true ∧ x.isQualified = false ∧
        (Bindings.ofTokens (parse [] "\\d .q\nx:1".toList)).resolve x =
          some (.inNamespace ".q.x".toList) := by
    decide +kernel
  have hmem := List.mem_of_getElem? hx
  have hreserved : IsReservedName x.canonicalName :=
    ⟨"q".toList,by decide,"x".toList,by decide,hname⟩
  refine not_isGuarded hmem hq (h _ x hmem ha (fun brace name hl => ?_) hreserved)
  cases hr.symm.trans hl

end Linting
end QScope
