import QScope.Proofs.BindingRenaming
import QScope.Proofs.EditedNames
import QScope.Proofs.Searches

/-! # Renaming: the edits of a rename leave a text whose names are bound as before

A text is edited, read again and annotated again. New names are single lexemes wherever old ones
were, annotations do not depend on them, and a fresh name is bound to nothing else. -/
namespace QScope
open Texts

/-! New names -/

/-- A name for a binding of a text: a letter and word characters behind it, no keyword and in no
part of the text. -/
structure NewName (t w : Text) : Prop where
  letter : TokenExtents.startsWith CharacterClasses.isNameStart w = true
  word : ∀ c ∈ w, CharacterClasses.isWordChar c = true
  free : w ∉ Keywords.all
  fresh : ¬ w <:+: t

theorem NewName.plain {t w : Text} (h : NewName t w) : '.' ∉ w := fun hd => by
  cases h.word '.' hd

namespace Lexing
open CharacterClasses TokenExtents

/-- Behind a dot one segment may take the place of another. -/
theorem nameRun_segment {path name w : Text}
    (h : nameRun (path ++ '.' :: name) = (path ++ '.' :: name).length)
    (hw : startsWith isNameStart w = true) (hr : nameRun w = w.length) :
    nameRun (path ++ '.' :: w) = (path ++ '.' :: w).length := by
  induction path with
  | nil => exact nameRun_cons_eq_length.mpr ⟨by rw [hw]; rfl,hr⟩
  | cons c path ih =>
    obtain ⟨hc,hrest⟩ := nameRun_cons_eq_length.mp h
    refine nameRun_cons_eq_length.mpr ⟨?_,ih hrest⟩
    cases path with
    | nil => exact hc
    | cons d path => exact hc

theorem isName_of_newName {t w : Text} (h : NewName t w) : IsName w := by
  cases w with
  | nil => cases h.letter
  | cons c w =>
    exact .mk (Or.inl h.letter)
      (nameRun_of_isWordChar fun d hd => h.word d (List.mem_cons_of_mem c hd))

theorem isName_qualify {path name t w : Text} (hx : IsName (DottedNames.qualify path name))
    (h : NewName t w) : IsName (DottedNames.qualify path w) := by
  generalize hq : DottedNames.qualify path name = x at hx
  obtain ⟨opens,run⟩ := hx
  obtain ⟨rfl,rfl⟩ := List.cons.inj hq
  have hs := opens.resolve_left nofun
  refine .mk (Or.inr ⟨rfl,?_⟩) (nameRun_segment run h.letter
    (nameRun_of_isWordChar h.word))
  cases path with
  | nil => cases hs.2
  | cons c path => exact hs.2

theorem dot_notMem_keyword {k : Text} (h : k ∈ Keywords.all) : '.' ∉ k := by
  have hall : ∀ k ∈ Keywords.all, '.' ∉ k := by decide +kernel
  exact hall k h

/-- The new image of a name that is qualified or plain is a name that opens like the old one. -/
theorem respelled_replacement {x t w : Text} (hx : IsName x) (h : NewName t w)
    (hd : DottedNames.isQualified x = true ∨ '.' ∉ x) :
    Respelled ⟨.token .identifier none,x⟩
      ⟨.token .identifier none,DottedNames.replacement x w⟩ := by
  rcases hd with hq | hx'
  · obtain ⟨path,name,rfl,hn⟩ := DottedNames.exists_qualify hq
    rw [DottedNames.replacement_qualify path hn h.plain]
    refine .name hx (isName_qualify hx h) (fun hk => ?_) fun _ => rfl
    exact dot_notMem_keyword hk List.mem_cons_self
  · rw [DottedNames.replacement_of_not_isQualified (DottedNames.isQualified_of_notMem hx')]
    exact .name hx (isName_of_newName h) h.free fun hh =>
      absurd hh (DottedNames.head?_ne_of_notMem hx')

theorem isInfix_image {file t : Text} {token : Token} (h : token ∈ tokenize file t) :
    token.image <:+: t := by
  obtain ⟨a,b,hab⟩ := List.append_of_mem (mem_of_locate h)
  have hs := spelling_lexemes '\n' t
  rw [hab,spelling,List.flatMap_append,List.flatMap_cons] at hs
  exact ⟨spelling a,spelling b,by rw [← hs,List.append_assoc]; rfl⟩

end Lexing

/-- A new last segment leaves a qualified name in its namespace, a plain name in any. -/
theorem Namespaces.ofToken_replacement {t t' : Token} {w : Text} (hw : '.' ∉ w)
    (hk : t'.kind = t.kind) (hi : t'.image = DottedNames.replacement t.image w)
    (hd : DottedNames.isQualified t.image = true ∨ '.' ∉ t.image) (ns : Option Text) :
    ofToken ns t' = ofToken ns t := by
  rw [ofToken,ofToken,hk,hi]
  rcases hd with hq | hx
  · obtain ⟨path,name,hp,hn⟩ := DottedNames.exists_qualify hq
    rw [hp,DottedNames.replacement_qualify path hn hw,DottedNames.split_qualify path hn,
      DottedNames.split_qualify path hw]
    rfl
  · rw [DottedNames.replacement_of_not_isQualified (DottedNames.isQualified_of_notMem hx),
      if_neg fun h => DottedNames.head?_ne_of_notMem hw h.2,
      if_neg fun h => DottedNames.head?_ne_of_notMem hx h.2]

namespace Editing
open Resolution Annotating Lexing

/-- A token and what has become of it when the occurrences of a binding have got a new name. -/
structure Kept (occurrences : List AnnotatedToken) (w : Text) (x y : AnnotatedToken) : Prop
    extends x.Agrees y where
  error : y.error = x.error
  image : y.image = if x ∈ occurrences then replacement x w else x.image

/-- The tokens of a text before and after a renaming: as many as before, each as it was but for the
new images, and bound together exactly as they were. -/
structure Renamed (occurrences : List AnnotatedToken) (w : Text)
    (before after : List AnnotatedToken) : Prop where
  length : after.length = before.length
  kept : ∀ (i : Nat) (x y : AnnotatedToken), before[i]? = some x → after[i]? = some y →
    Kept occurrences w x y
  unresolved : ∀ (i : Nat) (x y : AnnotatedToken), before[i]? = some x → after[i]? = some y →
    ((Bindings.ofTokens after).resolve y = none ↔ (Bindings.ofTokens before).resolve x = none)
  bindings : ∀ (i j : Nat) (x y x' y' : AnnotatedToken), before[i]? = some x →
    after[i]? = some y → before[j]? = some x' → after[j]? = some y' →
    ((Bindings.ofTokens after).resolve y = (Bindings.ofTokens after).resolve y' ↔
      (Bindings.ofTokens before).resolve x = (Bindings.ofTokens before).resolve x')

/-- What a rename finds are the occurrences of one binding. -/
theorem found_rename {tokens : List AnnotatedToken} {cursor : Position}
    (h : found .rename tokens cursor ≠ []) :
    ∃ target, found .rename tokens cursor = occurrences tokens target := by
  rw [found] at h ⊢
  cases hc : cursorToken tokens cursor with
  | none =>
    rw [hc] at h
    exact absurd rfl h
  | some source =>
    rw [hc] at h
    dsimp only at h ⊢
    cases hi : source.isIdentifier with
    | false =>
      rw [find,hi] at h
      exact absurd rfl h
    | true =>
      rw [find,hi,if_pos rfl] at h ⊢
      dsimp only at h ⊢
      cases hr : (Bindings.ofTokens tokens).resolve source with
      | none =>
        rw [hr] at h
        exact absurd rfl h
      | some target => exact ⟨target,rfl⟩

/-- The new images by index. -/
def newImages (tokens : List AnnotatedToken) (target : Binding) (w : Text) (i : Nat) :
    Option Text :=
  (tokens[i]?.filter fun x => (Bindings.ofTokens tokens).resolve x == some target).map
    (replacement · w)

theorem newImages_eq_some {tokens : List AnnotatedToken} {target : Binding} {w image : Text}
    {i : Nat} : newImages tokens target w i = some image ↔
      ∃ x, tokens[i]? = some x ∧ (Bindings.ofTokens tokens).resolve x = some target ∧
        image = DottedNames.replacement x.image w := by
  simp only [newImages,Option.map_eq_some_iff,Option.filter_eq_some_iff,beq_iff_eq]
  constructor
  · rintro ⟨x,⟨hx,hr⟩,rfl⟩
    exact ⟨x,hx,hr,by rw [replacement,if_pos (Bindings.isIdentifier_of_resolve hr)]⟩
  · rintro ⟨x,hx,hr,rfl⟩
    exact ⟨x,⟨hx,hr⟩,by rw [replacement,if_pos (Bindings.isIdentifier_of_resolve hr)]⟩

section
variable {file t w : Text} {cursor : Position} {target : Binding}

theorem newImages_index {x : AnnotatedToken} (hx : x ∈ parse file t) :
    newImages (parse file t) target w x.index =
      if (Bindings.ofTokens (parse file t)).resolve x = some target then some (replacement x w)
      else none := by
  obtain ⟨i,hi⟩ := List.mem_iff_getElem?.mp hx
  rw [newImages,index_of_parse hi,hi]
  split
  · rename_i hr
    simp [Option.filter,hr]
  · rename_i hr
    simp [Option.filter,hr]

theorem renameEdits_eq
    (hf : found .rename (parse file t) cursor = occurrences (parse file t) target) :
    renameEdits (parse file t) cursor w =
      (tokenize file t).filterMap (edit? (newImages (parse file t) target w)) := by
  rw [renameEdits,hf,occurrences,← map_toToken_parse,List.filterMap_map,← List.filterMap_eq_map,
    List.filterMap_filter]
  apply List.filterMap_congr
  intro x hx
  simp only [Function.comp,edit?,newImages_index hx,beq_iff_eq]
  split <;> rfl

/-- The tokens that get a new image are identifiers without fault. -/
theorem token_of_newImages
    (hd : ∀ x ∈ parse file t, (Bindings.ofTokens (parse file t)).resolve x = some target →
      x.isQualified = true ∨ '.' ∉ x.image)
    {token : Token} (ht : token ∈ tokenize file t) {image : Text}
    (hi : newImages (parse file t) target w token.index = some image) :
    token.kind = .identifier ∧ token.error = none ∧ IsName token.image ∧
      image = DottedNames.replacement token.image w ∧
      (DottedNames.isQualified token.image = true ∨ '.' ∉ token.image) := by
  obtain ⟨i,hti⟩ := List.mem_iff_getElem?.mp ht
  rw [tokenize_numbered hti] at hi
  obtain ⟨x,hx,hr,rfl⟩ := newImages_eq_some.mp hi
  have hid := Bindings.isIdentifier_of_resolve hr
  have hxt : x.toToken = token := by
    rw [← map_toToken_parse,List.getElem?_map,hx] at hti
    exact Option.some.inj hti
  have hdot := hd x (List.mem_of_getElem? hx) hr
  rw [AnnotatedToken.isQualified_eq hid] at hdot
  subst hxt
  have hk : x.kind = .identifier := by simpa [AnnotatedToken.isIdentifier] using hid
  have hm := mem_of_locate ht
  rw [hk] at hm
  exact ⟨hk,(isName_of_mem hm).1,(isName_of_mem hm).2.1,rfl,hdot⟩

/-- Token by token, the text with the new name is annotated as before. -/
theorem parse_renameEdits (hw : NewName t w)
    (hf : found .rename (parse file t) cursor = occurrences (parse file t) target)
    (hd : ∀ x ∈ parse file t, (Bindings.ofTokens (parse file t)).resolve x = some target →
      x.isQualified = true ∨ '.' ∉ x.image) :
    List.Forall₂ (Kept (found .rename (parse file t) cursor) w) (parse file t)
      (parse file (applyEdits t (renameEdits (parse file t) cursor w))) := by
  have hnew : Respells (newImages (parse file t) target w) (tokenize file t) := by
    intro token ht image hi
    obtain ⟨hk,he,hn,rfl,hdot⟩ := token_of_newImages hd ht hi
    rw [hk,he]
    exact respelled_replacement hn hw hdot
  have hedited := parse_applyEdits hnew
  rw [← renameEdits_eq hf] at hedited
  have hmem := (List.forall₂_and_left _ _).mpr ⟨fun x hx => hx,hedited⟩
  refine hmem.imp fun x y h => ?_
  obtain ⟨hx,hr⟩ := h
  have himage := hr.image
  rw [newImages_index hx] at himage
  refine ⟨hr.agrees fun ns => ?_,hr.error,?_⟩
  · split at himage
    · rename_i hb
      have hi := Bindings.isIdentifier_of_resolve hb
      have hdot := hd x hx hb
      rw [AnnotatedToken.isQualified_eq hi] at hdot
      refine Namespaces.ofToken_replacement hw.plain hr.kind ?_ hdot ns
      rw [himage,Option.getD_some,replacement,if_pos hi]
    · rw [Namespaces.ofToken,Namespaces.ofToken,hr.kind,himage,Option.getD_none]
  · rw [himage,hf]
    simp only [occurrences,List.mem_filter,hx,true_and,beq_iff_eq]
    split <;> rfl

theorem renaming_of_found (hw : NewName t w)
    (hf : found .rename (parse file t) cursor = occurrences (parse file t) target)
    (hne : found .rename (parse file t) cursor ≠ [])
    (hd : ∀ x ∈ parse file t, (Bindings.ofTokens (parse file t)).resolve x = some target →
      x.isQualified = true ∨ '.' ∉ x.image) : Renaming (parse file t) target w where
  plain := hw.plain
  fresh x hx hb := by
    have ht : x.toToken ∈ tokenize file t := by
      rw [← map_toToken_parse]
      exact List.mem_map_of_mem hx
    have hs := isSuffix_behindLast '.' x.image
    rw [hb] at hs
    exact hw.fresh (hs.isInfix.trans (isInfix_image ht))
  bound := by
    obtain ⟨x,hx⟩ := List.exists_mem_of_ne_nil _ hne
    rw [hf,occurrences,List.mem_filter,beq_iff_eq] at hx
    exact ⟨x,hx.1,hx.2⟩
  written := hd

end

section
variable {before after : List AnnotatedToken} {target : Binding} {w : Text}

theorem kept_getElem? {xs : List AnnotatedToken} (h : List.Forall₂ (Kept xs w) before after)
    {i : Nat} {x y : AnnotatedToken} (hx : before[i]? = some x) (hy : after[i]? = some y) :
    Kept xs w x y := by
  obtain ⟨hi,rfl⟩ := List.getElem?_eq_some_iff.mp hx
  obtain ⟨hj,rfl⟩ := List.getElem?_eq_some_iff.mp hy
  exact h.get hi hj

theorem bare_of_kept {x y : AnnotatedToken} (hx : x ∈ before)
    (h : Kept (occurrences before target) w x y) :
    bare y = bare (renamed (.ofTokens before) target w x) := by
  have himage := h.image
  simp only [occurrences,List.mem_filter,hx,true_and,beq_iff_eq] at himage
  rw [renamed]
  split
  · rename_i hr
    rw [if_pos hr] at himage
    simp only [bare,himage,h.kind,h.scope,h.ns,h.flags]
  · rename_i hr
    rw [if_neg hr] at himage
    simp only [bare,himage,h.kind,h.scope,h.ns,h.flags]

theorem map_bare_of_kept (h : List.Forall₂ (Kept (occurrences before target) w) before after) :
    after.map bare = (Renaming.renamedTokens before target w).map bare := by
  apply List.ext_getElem?
  intro i
  rw [Renaming.renamedTokens,List.map_map,List.getElem?_map,List.getElem?_map]
  cases hx : before[i]? with
  | none =>
    rw [List.getElem?_eq_none_iff,h.length_eq,← List.getElem?_eq_none_iff] at hx
    rw [hx]
    rfl
  | some x =>
    obtain ⟨y,hy⟩ : ∃ y, after[i]? = some y := by
      have hi := (List.getElem?_eq_some_iff.mp hx).1
      rw [h.length_eq] at hi
      exact ⟨_,List.getElem?_eq_getElem hi⟩
    rw [hy,Option.map_some,Option.map_some,Function.comp,
      bare_of_kept (List.mem_of_getElem? hx) (kept_getElem? h hx hy)]

/-- Tokens that are kept but for the new name of a binding are bound as they were. -/
theorem renamed_of_kept (hr : Renaming before target w)
    (h : List.Forall₂ (Kept (occurrences before target) w) before after) :
    Renamed (occurrences before target) w before after := by
  have hresolve : ∀ {i : Nat} {x y : AnnotatedToken}, before[i]? = some x → after[i]? = some y →
      (Bindings.ofTokens after).resolve y =
        ((Bindings.ofTokens before).resolve x).map (Binding.renamed target w) := by
    intro i x y hx hy
    have hm := List.mem_of_getElem? hx
    rw [ofTokens_of_bare (map_bare_of_kept h),
      resolve_of_bare (bare_of_kept hm (kept_getElem? h hx hy)),hr.resolve_renamed hm]
  refine ⟨h.length_eq.symm,fun i x y hx hy => kept_getElem? h hx hy,?_,?_⟩
  · intro i x y hx hy
    rw [hresolve hx hy,Option.map_eq_none_iff]
  · intro i j x y x' y' hx hy hx' hy'
    rw [hresolve hx hy,hresolve hx' hy']
    constructor
    · exact hr.resolve_injective (List.mem_of_getElem? hx) (List.mem_of_getElem? hx')
    · exact congrArg _

end

/-- A rename to a new name, where all that is found is qualified or plain, preserves the tokens of
a text and their bindings. -/
theorem rename_preserves (file t : Text) (cursor : Position) (w : Text) (hw : NewName t w)
    (hne : renameEdits (parse file t) cursor w ≠ [])
    (hd : ∀ x ∈ found .rename (parse file t) cursor, x.isQualified = true ∨ '.' ∉ x.image) :
    Renamed (found .rename (parse file t) cursor) w (parse file t)
      (parse file (applyEdits t (renameEdits (parse file t) cursor w))) := by
  have hfound : found .rename (parse file t) cursor ≠ [] := by
    intro hn
    apply hne
    rw [renameEdits,hn,List.map_nil]
  obtain ⟨target,hf⟩ := found_rename hfound
  have hd' : ∀ x ∈ parse file t, (Bindings.ofTokens (parse file t)).resolve x = some target →
      x.isQualified = true ∨ '.' ∉ x.image := by
    intro x hx hr
    apply hd
    rw [hf]
    exact List.mem_filter.mpr ⟨hx,beq_iff_eq.mpr hr⟩
  have hkept := parse_renameEdits hw hf hd'
  have hr := renaming_of_found hw hf hfound hd'
  rw [hf] at hkept ⊢
  exact renamed_of_kept hr hkept

/-- Two spellings of one global get the new name. -/
theorem rename_preserves_spellings :
    NewName "\\d .n\na:.n.a".toList "c".toList ∧
      applyEdits "\\d .n\na:.n.a".toList
          (renameEdits (parse [] "\\d .n\na:.n.a".toList) ⟨1,0⟩ "c".toList) =
        "\\d .n\nc:.n.c".toList ∧
      Renamed (found .rename (parse [] "\\d .n\na:.n.a".toList) ⟨1,0⟩) "c".toList
        (parse [] "\\d .n\na:.n.a".toList)
        (parse [] (applyEdits "\\d .n\na:.n.a".toList
          (renameEdits (parse [] "\\d .n\na:.n.a".toList) ⟨1,0⟩ "c".toList))) := by
  have hw : NewName "\\d .n\na:.n.a".toList "c".toList := by
    refine ⟨rfl,fun d hd => ?_,by decide +kernel,by decide +kernel⟩
    obtain rfl : d = 'c' := List.mem_singleton.mp hd
    decide
  exact ⟨hw,by decide +kernel,
    rename_preserves [] _ ⟨1,0⟩ "c".toList hw (by decide +kernel) (by decide +kernel)⟩

end Editing
end QScope
