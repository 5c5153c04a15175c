import QScope.Proofs.EquivalentTokens
import QScope.Proofs.PositionOrder
import QScope.Proofs.Tiling

/-! # Parsed tokens: those of the text, numbered, with spans one behind the other -/
namespace QScope.Annotating
open Lexing

/-- Tokens with spans one behind the other. -/
structure Spanned (tokens : List AnnotatedToken) : Prop where
  positive : ∀ t ∈ tokens, t.span.start.IsPositive ∧ t.span.stop.IsPositive
  forward : ∀ t ∈ tokens, t.span.start ≤ t.span.stop
  ordered : tokens.Pairwise fun t u => t.span.stop < u.span.start

section
variable {file t : Text}

theorem map_toToken_parse (file t : Text) : (parse file t).map (·.toToken) = tokenize file t :=
  map_toToken_annotateIn none fun _ _ => tokenize_numbered

theorem toToken_mem_tokenize {x : AnnotatedToken} (h : x ∈ parse file t) :
    x.toToken ∈ tokenize file t := by
  rw [← map_toToken_parse]
  exact List.mem_map_of_mem h

theorem index_of_parse {i : Nat} {x : AnnotatedToken} (h : (parse file t)[i]? = some x) :
    x.index = i := by
  have ht : (tokenize file t)[i]? = some x.toToken := by
    rw [← map_toToken_parse,List.getElem?_map,h,Option.map_some]
  exact tokenize_numbered ht

theorem getElem?_index {x : AnnotatedToken} (h : x ∈ parse file t) :
    (parse file t)[x.index]? = some x := by
  obtain ⟨i,hi⟩ := List.mem_iff_getElem?.mp h
  rwa [index_of_parse hi]

theorem eq_of_index {x y : AnnotatedToken} (hx : x ∈ parse file t) (hy : y ∈ parse file t)
    (h : x.index = y.index) : x = y := by
  have hi := getElem?_index hx
  rw [h,getElem?_index hy] at hi
  exact (Option.some.inj hi).symm

theorem exists_described {slices : List (Nat × Nat)} {tokens : List Token}
    (h : List.Forall₂ (Describes file t) slices tokens) {x : Token} (hx : x ∈ tokens) :
    ∃ s ∈ slices, Describes file t s x := by
  induction h with
  | nil => cases hx
  | cons hd h ih =>
    rcases List.mem_cons.mp hx with rfl | hx
    · exact ⟨_,List.mem_cons_self,hd⟩
    · obtain ⟨s,hs,hd⟩ := ih hx
      exact ⟨s,List.mem_cons_of_mem _ hs,hd⟩

theorem pairwise_of_described {slices : List (Nat × Nat)} {tokens : List Token}
    (h : List.Forall₂ (Describes file t) slices tokens)
    (hw : ∀ s ∈ slices, s.1 < s.2 ∧ s.2 ≤ t.length)
    (ho : slices.Pairwise fun s r => s.2 ≤ r.1) :
    tokens.Pairwise fun x y => x.span.stop < y.span.start := by
  induction h with
  | nil => exact .nil
  | @cons s x slices tokens hx h ih =>
    obtain ⟨hs,ho⟩ := List.pairwise_cons.mp ho
    refine .cons (fun y hy => ?_) (ih (fun r hr => hw r (List.mem_cons_of_mem s hr)) ho)
    obtain ⟨r,hr,hd⟩ := exists_described h hy
    have hsw := hw s List.mem_cons_self
    have hrw := hw r (List.mem_cons_of_mem s hr)
    have hsr := hs r hr
    rw [hx.stop,hd.start]
    exact Position.ofOffset_lt (by omega) (by omega)

theorem parse_spanned (file t : Text) : Spanned (parse file t) where
  positive x hx := by
    obtain ⟨s,-,hd⟩ := exists_described (tokenize_described file t) (toToken_mem_tokenize hx)
    rw [hd.start,hd.stop]
    exact ⟨Position.isPositive_ofOffset t s.1,Position.isPositive_ofOffset t (s.2 - 1)⟩
  forward x hx := by
    obtain ⟨s,hs,hd⟩ := exists_described (tokenize_described file t) (toToken_mem_tokenize hx)
    have hw := slices_within hs
    rw [hd.start,hd.stop]
    exact Position.ofOffset_le (by omega) (by omega)
  ordered := by
    have hp := pairwise_of_described (tokenize_described file t) (fun _ => slices_within)
      (slices_ordered t)
    rw [← map_toToken_parse] at hp
    exact List.pairwise_map.mp hp

end

end QScope.Annotating
