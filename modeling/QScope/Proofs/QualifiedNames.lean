import QScope.Annotating
import QScope.Proofs.Offsets

/-! # Qualified names: a namespace path and a last segment, and the one spelling for all viewers -/
namespace QScope
open Texts

namespace DottedNames
variable {name image w : Text}

theorem splitAtLastDot_append (path : Text) (h : '.' ∉ name) :
    splitAtLastDot (path ++ '.' :: name) = (path,name) := by
  have hb : ((path ++ '.' :: name).reverse.takeWhile (· != '.')).reverse = name :=
    (behindLast_append_cons '.' path name).trans (behindLast_of_notMem h)
  have hl : (path ++ '.' :: name).length - name.length - 1 = path.length := by
    rw [List.length_append,List.length_cons]
    omega
  rw [splitAtLastDot,hb,hl,List.take_left]

theorem exists_last_dot {t : Text} (h : '.' ∈ t) :
    ∃ path name, t = path ++ '.' :: name ∧ '.' ∉ name := by
  induction t with
  | nil => cases h
  | cons c t ih =>
    by_cases ht : '.' ∈ t
    · obtain ⟨path,name,rfl,hn⟩ := ih ht
      exact ⟨c :: path,name,rfl,hn⟩
    · obtain rfl := (List.mem_cons.mp h).resolve_right ht
      exact ⟨[],t,rfl,ht⟩

theorem isQualified_qualify (path name : Text) : isQualified (qualify path name) = true := by
  have hc : 2 ≤ (qualify path name).count '.' := by
    simp only [qualify,List.cons_append,List.count_cons_self,List.count_append]
    omega
  simpa [isQualified,qualify] using hc

/-- A name is qualified when two dots are in it, one of them in front. -/
theorem exists_qualify (h : isQualified image = true) :
    ∃ path name, image = qualify path name ∧ '.' ∉ name := by
  rw [isQualified,Bool.and_eq_true,beq_iff_eq,decide_eq_true_eq] at h
  obtain ⟨t,rfl⟩ := List.head?_eq_some_iff.mp h.1
  have ht : '.' ∈ t := List.count_pos_iff.mp (by simpa using h.2)
  obtain ⟨path,name,rfl,hn⟩ := exists_last_dot ht
  exact ⟨path,name,rfl,hn⟩

theorem isQualified_of_notMem (h : '.' ∉ image) : isQualified image = false := by
  rw [isQualified,List.count_eq_zero.mpr h]
  simp

theorem split_qualify (path : Text) (h : '.' ∉ name) :
    split (qualify path name) = (some path,name) := by
  have hd : (qualify path name).drop 1 = path ++ '.' :: name := rfl
  rw [split,isQualified_qualify,if_pos rfl,hd,splitAtLastDot_append path h]

theorem split_of_not_isQualified (h : isQualified image = false) : split image = (none,image) := by
  rw [split,h,if_neg nofun]

theorem isQualified_of_head? (h : image.head? ≠ some '.') : isQualified image = false := by
  rw [isQualified,beq_eq_false_iff_ne.mpr h,Bool.false_and]

@[simp] theorem prefixed_none (name : Text) (viewer : Option Text) :
    prefixed name none viewer = name := rfl

/-- At home a name needs no prefix. -/
@[simp] theorem prefixed_self (name : Text) (home : Option Text) :
    prefixed name home home = name := by
  cases home with
  | none => rfl
  | some ns => exact if_pos rfl

theorem prefixed_some (name path : Text) : prefixed name (some path) none = qualify path name :=
  (if_neg nofun : (if some path = none then name else _) = _)

theorem head?_ne_of_notMem (h : '.' ∉ image) : image.head? ≠ some '.' :=
  fun hh => h (List.mem_of_mem_head? hh)

theorem replacement_qualify (path : Text) (h : '.' ∉ name) (hw : '.' ∉ w) :
    replacement (qualify path name) w = qualify path w := by
  rw [replacement,split_qualify path h]
  exact if_neg (head?_ne_of_notMem hw)

theorem replacement_of_not_isQualified (h : isQualified image = false) (w : Text) :
    replacement image w = w := by
  rw [replacement,split_of_not_isQualified h]

theorem isQualified_replacement (hw : '.' ∉ w) (image : Text) :
    isQualified (replacement image w) = isQualified image := by
  cases h : isQualified image with
  | true =>
    obtain ⟨path,name,rfl,hn⟩ := exists_qualify h
    rw [replacement_qualify path hn hw,isQualified_qualify]
  | false => rw [replacement_of_not_isQualified h,isQualified_of_notMem hw]

/-- A plain name can be read back from the name that a namespace makes of it. -/
theorem split_prefixed (hw : '.' ∉ w) (ns : Option Text) : split (prefixed w ns none) = (ns,w) := by
  cases ns with
  | none => exact split_of_not_isQualified (isQualified_of_notMem hw)
  | some path => rw [prefixed_some,split_qualify path hw]

theorem prefixed_inj (hw : '.' ∉ w) {ns ns' : Option Text} :
    prefixed w ns none = prefixed w ns' none ↔ ns = ns' := by
  refine ⟨fun h => ?_,fun h => by rw [h]⟩
  have hs := congrArg split h
  rw [split_prefixed hw,split_prefixed hw] at hs
  exact congrArg Prod.fst hs

/-- A renamed name is the new one with the old prefix. -/
theorem replacement_eq_prefixed (hw : '.' ∉ w) (image : Text) :
    replacement image w = prefixed w (split image).1 none := by
  cases h : isQualified image with
  | true =>
    obtain ⟨path,name,rfl,hn⟩ := exists_qualify h
    rw [replacement_qualify path hn hw,split_qualify path hn,prefixed_some]
  | false => rw [replacement_of_not_isQualified h,split_of_not_isQualified h,prefixed_none]

/-- Behind a namespace a name with a dot goes on with the path. -/
theorem split_qualify_ne {path : Text} (hd : '.' ∈ image) :
    (split (qualify path image)).1 ≠ some path := by
  obtain ⟨inner,name,rfl,hn⟩ := exists_last_dot hd
  have hq : qualify path (inner ++ '.' :: name) = qualify (path ++ '.' :: inner) name := by
    simp [qualify]
  rw [hq,split_qualify _ hn]
  intro h
  have hl := congrArg List.length (Option.some.inj h)
  simp at hl

theorem behindLast_qualify (path name : Text) :
    behindLast '.' (qualify path name) = behindLast '.' name :=
  behindLast_append_cons '.' ('.' :: path) name

/-- A new name is the last segment of whatever it makes of an old one. -/
theorem behindLast_replacement (hw : '.' ∉ w) (image : Text) :
    behindLast '.' (replacement image w) = w := by
  cases h : isQualified image with
  | true =>
    obtain ⟨path,name,rfl,hn⟩ := exists_qualify h
    rw [replacement_qualify path hn hw,behindLast_qualify,behindLast_of_notMem hw]
  | false => rw [replacement_of_not_isQualified h,behindLast_of_notMem hw]

end DottedNames

namespace AnnotatedToken
open DottedNames
variable {t : AnnotatedToken}

theorem isQualified_eq (hi : t.isIdentifier = true) :
    t.isQualified = DottedNames.isQualified t.image := by
  rw [isQualified,hi,Bool.true_and]

theorem canonicalName_of_isQualified (h : t.isQualified = true) : t.canonicalName = t.image := by
  rw [isQualified,Bool.and_eq_true] at h
  obtain ⟨path,name,hq,hn⟩ := exists_qualify h.2
  rw [canonicalName,nameIn,if_pos h.1,relative,hq,split_qualify path hn]
  exact if_neg nofun

theorem nameIn_of_not_isQualified (hi : t.isIdentifier = true) (hq : t.isQualified = false)
    (viewer : Option Text) : t.nameIn viewer = prefixed t.image t.ns viewer := by
  rw [isQualified_eq hi] at hq
  rw [nameIn,if_pos hi,relative,split_of_not_isQualified hq]

/-- The canonical name of a plain identifier: at home in a namespace it takes that in front. -/
theorem canonicalName_of_plain (hi : t.isIdentifier = true) (h : t.isQualified = false) :
    t.canonicalName = match t.ns with
      | none => t.image
      | some path => qualify path t.image := by
  rw [canonicalName,nameIn_of_not_isQualified hi h]
  cases t.ns with
  | none => rfl
  | some path => exact prefixed_some t.image path

theorem behindLast_canonicalName (hi : t.isIdentifier = true) :
    behindLast '.' t.canonicalName = behindLast '.' t.image := by
  cases h : t.isQualified with
  | true => rw [canonicalName_of_isQualified h]
  | false =>
    rw [canonicalName_of_plain hi h]
    cases t.ns with
    | none => rfl
    | some path => exact behindLast_qualify path t.image

end AnnotatedToken
end QScope
