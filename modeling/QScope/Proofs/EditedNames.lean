import QScope.Proofs.BindingLookup
import QScope.Proofs.EditApplication
import QScope.Proofs.ParsedTokens

/-! # Edited names: a text with other names in the place of some is parsed as before -/
namespace QScope.Annotating
open Editing Lexing

/-- A token of a text and the one that the edited text has in its place. -/
structure Reparsed (new : Nat → Option Text) (x y : AnnotatedToken) : Prop
    extends x.Parallel y where
  index : y.index = x.index
  error : y.error = x.error
  image : y.image = (new x.index).getD x.image

section
variable {new : Nat → Option Text}

theorem equivalent_of_restated {token token' : Token} (h : Restated new token token')
    (hr : ∀ image, new token.index = some image →
      Respelled ⟨.token token.kind token.error,token.image⟩
        ⟨.token token.kind token.error,image⟩) : token.Equivalent token' := by
  refine ⟨h.kind,h.margin,fun hk => ?_⟩
  rw [h.image]
  cases hi : new token.index with
  | none => rfl
  | some image =>
    have hl := (hr image hi).eq_of_ne fun hs => hk (Shape.token.inj hs).1
    exact congrArg Lexeme.text hl

/-- Token by token, the text with new names is annotated as before. -/
theorem parse_applyEdits {file t : Text} (h : Respells new (tokenize file t)) :
    List.Forall₂ (Reparsed new) (parse file t)
      (parse file (applyEdits t ((tokenize file t).filterMap (edit? new)))) := by
  have hlex := tokenize_applyEdits h
  generalize applyEdits t ((tokenize file t).filterMap (edit? new)) = t' at hlex ⊢
  have hmem := (List.forall₂_and_left _ _).mpr ⟨fun token ht => ht,hlex⟩
  have hparallel := annotateIn_equivalent none (hmem.imp fun _ _ ht =>
    equivalent_of_restated ht.2 (h _ ht.1))
  rw [← map_toToken_parse,← map_toToken_parse file t',List.forall₂_map_left_iff,
    List.forall₂_map_right_iff] at hlex
  refine List.Forall₂.mp (fun x y hp hr => ?_) hparallel hlex
  exact ⟨hp,hr.index,hr.error,hr.image⟩

end

end QScope.Annotating

namespace QScope.Editing
open Annotating Lexing Resolution

/-! Another name in the place of one token -/

/-- A text with another name in the place of one of its tokens. -/
def replaced (t : Text) (c : AnnotatedToken) (image : Text) : Text :=
  applyEdits t [⟨c.span.range,image⟩]

/-- A name that can take the place of another token. -/
structure Replaces (image : Text) (c : AnnotatedToken) : Prop where
  name : IsName image
  free : image ∉ Keywords.all
  dots : c.image.head? = some '.' → image.head? = some '.'

section
variable {file t image : Text} {c x y : AnnotatedToken}

theorem isName_of_parse (hx : x ∈ parse file t) (hi : x.isIdentifier = true) :
    x.error = none ∧ IsName x.image ∧ x.image ∉ Keywords.all := by
  have hm := mem_of_locate (toToken_mem_tokenize hx)
  rw [show x.kind = .identifier from beq_iff_eq.mp hi] at hm
  exact isName_of_mem hm

theorem respells_of_replaces (hc : c ∈ parse file t) (hi : c.isIdentifier = true)
    (hr : Replaces image c) : Respells (only c.index image) (tokenize file t) := by
  intro token ht new hn
  obtain ⟨x,hx,rfl⟩ := List.mem_map.mp ((map_toToken_parse file t).symm ▸ ht)
  rw [only] at hn
  split at hn
  · rename_i hxc
    obtain rfl := Option.some.inj hn
    obtain rfl := eq_of_index hx hc hxc
    obtain ⟨he,hx,-⟩ := isName_of_parse hc hi
    rw [he,show x.kind = .identifier from beq_iff_eq.mp hi]
    exact .name hx hr.name hr.free hr.dots
  · cases hn

theorem replaced_eq (hc : c ∈ parse file t) (image : Text) : replaced t c image =
    applyEdits t ((tokenize file t).filterMap (edit? (only c.index image))) := by
  rw [filterMap_edit?_only image (fun _ _ => tokenize_numbered) (toToken_mem_tokenize hc)]
  rfl

theorem parse_replaced (hc : c ∈ parse file t) (hi : c.isIdentifier = true)
    (hr : Replaces image c) : List.Forall₂ (Reparsed (only c.index image)) (parse file t)
      (parse file (replaced t c image)) := by
  rw [replaced_eq hc]
  exact parse_applyEdits (respells_of_replaces hc hi hr)

/-- A token with the image that it had is as it was. -/
theorem bare_of_reparsed {new : Nat → Option Text} (h : Reparsed new x y)
    (hn : new x.index = none) : bare y = bare x := by
  have himage := h.image
  rw [hn,Option.getD_none] at himage
  obtain ⟨ns,hx,hy⟩ := h.ns
  have hns : y.ns = x.ns := by
    rw [hx,hy,Namespaces.ofToken,Namespaces.ofToken,h.kind,himage]
  simp only [bare,himage,hns,h.kind,h.scope,h.flags]

/-- A name that defines nothing can be replaced without a change to what is bound. -/
theorem ofTokens_replaced (hc : c ∈ parse file t) (hi : c.isIdentifier = true)
    (hd : c.defines = false) (hr : Replaces image c) :
    Bindings.ofTokens (parse file (replaced t c image)) = Bindings.ofTokens (parse file t) := by
  have hmem := (List.forall₂_and_left _ _).mpr ⟨fun x hx => hx,parse_replaced hc hi hr⟩
  refine ofTokens_of_definitions (hmem.imp fun x y h => ?_)
  obtain ⟨hx,h⟩ := h
  refine ⟨h.defines,fun hxd => bare_of_reparsed h (if_neg fun hxc => ?_)⟩
  rw [eq_of_index hx hc hxc,hd] at hxd
  cases hxd

/-- What stands in the place of the replaced token. -/
theorem exists_replaced (hc : c ∈ parse file t) (hi : c.isIdentifier = true)
    (hr : Replaces image c) : ∃ c', (parse file (replaced t c image))[c.index]? = some c' ∧
      c'.span.start = c.span.start ∧ c'.image = image ∧ c.Parallel c' := by
  have hp := parse_replaced hc hi hr
  have hci := getElem?_index hc
  obtain ⟨hlt,hcg⟩ := List.getElem?_eq_some_iff.mp hci
  have hlt' : c.index < (parse file (replaced t c image)).length := hp.length_eq ▸ hlt
  have hc' := List.getElem?_eq_getElem hlt'
  have hre : Reparsed (only c.index image) c (parse file (replaced t c image))[c.index] := by
    have := hp.get hlt hlt'
    rwa [List.get_eq_getElem,List.get_eq_getElem,hcg] at this
  refine ⟨_,hc',?_,?_,hre.toParallel⟩
  · have hs := start_of_applyEdits (respells_of_replaces hc hi hr) (n := c.index)
      fun j hj => if_neg (Nat.ne_of_lt hj)
    rw [← replaced_eq hc,← map_toToken_parse,← map_toToken_parse,List.getElem?_map,
      List.getElem?_map,hc',hci] at hs
    exact Option.some.inj hs
  · rw [hre.image,only,if_pos rfl,Option.getD_some]

end

end QScope.Editing
