import QScope.Editing
import QScope.Proofs.Respelling
import QScope.Proofs.Tiling

/-! # Edit application: a text with other images in the place of some of its tokens -/
namespace QScope
open Texts

namespace Editing

/-- Puts the new text in the place of a range. The range is one of the original text, and `t` is as
the original up to its end. -/
def TextEdit.apply (original : Text) (e : TextEdit) (t : Text) : Text :=
  t.take (e.range.start.offset original) ++ e.newText ++ t.drop (e.range.stop.offset original)

/-- Edits in the order of their ranges. The last one is applied first, so that no other range
moves. -/
def applyEdits (t : Text) (edits : List TextEdit) : Text := edits.foldr (·.apply t) t

end Editing

namespace Lexing
open Editing

/-- Lexemes with other images for some tokens, those being numbered from `i` on. -/
def respell (new : Nat → Option Text) (i : Nat) : List Lexeme → List Lexeme
  | [] => []
  | l :: ls =>
    match l.shape with
    | .token _ _ => ⟨l.shape,(new i).getD l.text⟩ :: respell new (i + 1) ls
    | .blank | .lineComment | .blockComment | .scriptEnd => l :: respell new i ls

/-- The edit that gives a token its new image, if there is one. -/
def edit? (new : Nat → Option Text) (token : Token) : Option TextEdit :=
  (new token.index).map fun image => ⟨token.span.range,image⟩

theorem foldr_apply_locate (new : Nat → Option Text) (file s : Text) (i : Nat) {ls : List Lexeme}
    (h : ∀ l ∈ ls, EndsWithin l) :
    ((locate file i (Position.origin.advance s) ls).filterMap (edit? new)).foldr
        (·.apply (s ++ spelling ls)) (s ++ spelling ls) =
      s ++ spelling (respell new i ls) := by
  induction ls generalizing s i with
  | nil => rfl
  | cons l ls ih =>
    have hl := h l List.mem_cons_self
    have hs : s ++ spelling (l :: ls) = (s ++ l.text) ++ spelling ls := by simp
    have hrest := fun i => ih (s ++ l.text) i fun l hl => h l (List.mem_cons_of_mem _ hl)
    rw [Position.advance_append,← hs] at hrest
    rw [locate,respell]
    cases hsh : l.shape with
    | token kind error =>
      have hn := hl.2 (by rw [hsh]; rfl)
      obtain ⟨y,c,hy⟩ := (List.eq_nil_or_concat l.text).resolve_left hl.1
      have hc : c ≠ '\n' := by
        rintro rfl
        exact hn (by simp [hy])
      dsimp only
      cases hi : new i with
      | none =>
        rw [List.filterMap_cons_none (by rw [edit?,hi,Option.map_none]),hrest]
        simp
      | some image =>
        have hd := (describes (s := s) (y := y) (r := spelling ls) hc file kind i error).delimits
        rw [List.filterMap_cons_some (by rw [edit?,hi,Option.map_some]),List.foldr_cons,hrest,
          TextEdit.apply]
        rw [List.concat_eq_append] at hy
        rw [← hy] at hd
        have hdrop : y = l.text.dropLast := by rw [hy,List.dropLast_concat]
        rw [spelling_cons,← hdrop,hd.1,hd.2,← List.length_append,List.drop_left,List.append_assoc s,
          List.take_left]
        simp
    | blank => simpa [hsh] using hrest i
    | lineComment => simpa [hsh] using hrest i
    | blockComment => simpa [hsh] using hrest i
    | scriptEnd => simpa [hsh] using hrest i

/-- The edits that give tokens new images change these tokens of the text and nothing else. -/
theorem applyEdits_tokenize (new : Nat → Option Text) (file t : Text) :
    applyEdits t ((tokenize file t).filterMap (edit? new)) =
      spelling (respell new 0 (lexemes '\n' t)) := by
  have h := foldr_apply_locate new file [] 0 fun l => endsWithin_of_mem (t := t) (l := l)
  rwa [spelling_lexemes] at h

/-! The tokens of the changed text -/

/-- A token of a text and the one in its place, whose image may be a new one. -/
structure Restated (new : Nat → Option Text) (t t' : Token) : Prop where
  kind : t'.kind = t.kind
  image : t'.image = (new t.index).getD t.image
  index : t'.index = t.index
  error : t'.error = t.error
  margin : t'.startsStatement = t.startsStatement

/-- Behind a text a line begins. -/
def AtMargin (s : Text) : Prop := behindLast '\n' s = []

theorem atMargin_append {x : Text} (hx : x ≠ []) (s : Text) :
    AtMargin (s ++ x) ↔ x.getLast? = some '\n' := by
  obtain ⟨y,c,rfl⟩ := (List.eq_nil_or_concat x).resolve_left hx
  rw [AtMargin,List.concat_eq_append,← List.append_assoc,behindLast_concat]
  by_cases h : c = '\n' <;> simp [h]

theorem column_advance {s s' : Text} (h : AtMargin s ↔ AtMargin s') :
    ((Position.origin.advance s').column == 1) = ((Position.origin.advance s).column == 1) := by
  have hc : ∀ s : Text, (Position.origin.advance s).column = 1 ↔ AtMargin s := by
    intro s
    rw [AtMargin,Position.origin_advance,← List.length_eq_zero_iff]
    dsimp only
    omega
  rw [Bool.eq_iff_iff,beq_iff_eq,beq_iff_eq,hc,hc,h]

/-- New names move no token to the left margin and none away from it. -/
theorem Respelled.atMargin {l l' : Lexeme} (h : Respelled l l') (hl : EndsWithin l)
    (s s' : Text) : AtMargin (s ++ l.text) ↔ AtMargin (s' ++ l'.text) := by
  cases h with
  | kept => rw [atMargin_append hl.1,atMargin_append hl.1]
  | name old new plain dots =>
    have hn : ∀ {x : Text}, IsName x → x.getLast? ≠ some '\n' := fun hx h => by
      cases hx.getLast? h
    rw [atMargin_append old.ne_nil,atMargin_append new.ne_nil]
    exact iff_of_false (hn old) (hn new)

theorem locate_respell (new : Nat → Option Text) (file s s' : Text) (i : Nat)
    {ls : List Lexeme} (hs : AtMargin s ↔ AtMargin s') (h : ∀ l ∈ ls, EndsWithin l)
    (hr : List.Forall₂ Respelled ls (respell new i ls)) :
    List.Forall₂ (Restated new) (locate file i (Position.origin.advance s) ls)
      (locate file i (Position.origin.advance s') (respell new i ls)) := by
  induction ls generalizing s s' i with
  | nil => exact .nil
  | cons l ls ih =>
    have hl := h l List.mem_cons_self
    have hls := fun l hl => h l (List.mem_cons_of_mem _ hl)
    rw [respell] at hr ⊢
    cases hsh : l.shape with
    | token kind error =>
      rw [hsh] at hr
      cases hr with
      | cons hl' hr =>
        have hrest := ih (s ++ l.text) (s' ++ (new i).getD l.text) (i + 1) (hl'.atMargin hl s s')
          hls hr
        rw [Position.advance_append,Position.advance_append] at hrest
        simp only [locate,hsh]
        refine .cons ⟨rfl,rfl,rfl,rfl,?_⟩ hrest
        simp only [Token.startsStatement,column_advance hs]
    | blank | lineComment | blockComment | scriptEnd =>
      rw [hsh] at hr
      cases hr with
      | cons hl' hr =>
        have hrest := ih (s ++ l.text) (s' ++ l.text) i (hl'.atMargin hl s s') hls hr
        rw [Position.advance_append,Position.advance_append] at hrest
        simpa only [locate,hsh] using hrest

/-- Identifiers are names other than keywords and have no fault. -/
theorem isName_of_mem {p : Char} {t x : Text} {error : Option LexicalError}
    (h : ⟨.token .identifier error,x⟩ ∈ lexemes p t) :
    error = none ∧ IsName x ∧ x ∉ Keywords.all := by
  fun_induction lexemes p t with
  | case1 => cases h
  | case2 p c rest e =>
    rename_i ih
    rcases List.mem_cons.mp h with h | h
    · obtain ⟨hs,rfl⟩ := Lexeme.mk.inj h
      obtain ⟨ho,hn⟩ := name_of_identifier hs.symm
      have he : e = name c rest := hn
      rw [he] at hs ⊢
      refine ⟨(Shape.token.inj hs).2,ho.isName,fun hk => ?_⟩
      have hk : Keywords.all.contains (c :: rest.take (TokenExtents.nameRun rest)) = true :=
        List.contains_iff_mem.mpr hk
      rw [name,if_pos hk] at hs
      cases hs
    · exact ih h

/-- New images that can take the place of the old ones. -/
def Respells (new : Nat → Option Text) (tokens : List Token) : Prop :=
  ∀ token ∈ tokens, ∀ image, new token.index = some image →
    Respelled ⟨.token token.kind token.error,token.image⟩ ⟨.token token.kind token.error,image⟩

theorem respelled_respell {new : Nat → Option Text} {file : Text} {i : Nat} {p : Position}
    {ls : List Lexeme} (h : Respells new (locate file i p ls)) :
    List.Forall₂ Respelled ls (respell new i ls) := by
  fun_induction locate file i p ls with
  | case1 => exact .nil
  | case2 i p l ls kind error hs ih =>
    simp only [respell,hs]
    have hl := h _ List.mem_cons_self
    refine .cons ?_ (ih fun token ht => h token (List.mem_cons_of_mem _ ht))
    rw [← hs] at hl ⊢
    cases hi : new i with
    | none => exact .kept l
    | some image => exact hl image hi
  | case3 i p l ls hs ih => simpa only [respell,hs] using .cons (.kept l) (ih h)
  | case4 i p l ls hs ih => simpa only [respell,hs] using .cons (.kept l) (ih h)
  | case5 i p l ls hs ih => simpa only [respell,hs] using .cons (.kept l) (ih h)
  | case6 i p l ls hs ih => simpa only [respell,hs] using .cons (.kept l) (ih h)

/-- Up to the first new image all tokens begin where they did. -/
theorem start_of_respell (new : Nat → Option Text) (file : Text) (i : Nat) (p : Position)
    (ls : List Lexeme) {n : Nat} (hn : ∀ j < i + n, new j = none) :
    (locate file i p (respell new i ls))[n]?.map (·.span.start) =
      (locate file i p ls)[n]?.map (·.span.start) := by
  induction ls generalizing i p n with
  | nil => rfl
  | cons l ls ih =>
    rw [respell]
    cases hsh : l.shape with
    | token kind error =>
      simp only [locate,hsh]
      cases n with
      | zero => rfl
      | succ n =>
        rw [hn i (by omega),Option.getD_none]
        exact ih (i + 1) _ fun j hj => hn j (by omega)
    | blank | lineComment | blockComment | scriptEnd =>
      simp only [locate,hsh]
      exact ih i _ hn

section
variable {new : Nat → Option Text} {file t : Text} (h : Respells new (tokenize file t))
include h

theorem tokenize_respelled :
    tokenize file (applyEdits t ((tokenize file t).filterMap (edit? new))) =
      locate file 0 .origin (respell new 0 (lexemes '\n' t)) := by
  rw [applyEdits_tokenize,tokenize,lexemes_respelled (Or.inl rfl) t (respelled_respell h)]

/-- The text with new names for some of its identifiers has the same tokens but for these. -/
theorem tokenize_applyEdits :
    List.Forall₂ (Restated new) (tokenize file t)
      (tokenize file (applyEdits t ((tokenize file t).filterMap (edit? new)))) := by
  rw [tokenize_respelled h]
  exact locate_respell new file [] [] 0 Iff.rfl (fun l => endsWithin_of_mem) (respelled_respell h)

theorem start_of_applyEdits {n : Nat} (hn : ∀ j < n, new j = none) :
    (tokenize file (applyEdits t ((tokenize file t).filterMap (edit? new))))[n]?.map
        (·.span.start) = (tokenize file t)[n]?.map (·.span.start) := by
  rw [tokenize_respelled h]
  exact start_of_respell new file 0 .origin _ fun j hj => hn j (Nat.zero_add n ▸ hj)

end

/-! One token with another image -/

/-- A new image for one token. -/
def only (i : Nat) (image : Text) (j : Nat) : Option Text := if j = i then some image else none

theorem filterMap_edit?_only {ts : List Token} {c : Token} (image : Text)
    (hn : ∀ (i : Nat) (t : Token), ts[i]? = some t → t.index = i) (hc : c ∈ ts) :
    ts.filterMap (edit? (only c.index image)) = [⟨c.span.range,image⟩] := by
  have hp : ts.Pairwise fun x y => x.index < y.index := by
    refine List.pairwise_iff_getElem.mpr fun i j hi hj hij => ?_
    rwa [hn i _ (List.getElem?_eq_getElem hi),hn j _ (List.getElem?_eq_getElem hj)]
  have hnone : ∀ {t : Token}, t.index ≠ c.index → edit? (only c.index image) t = none := by
    intro t ht
    rw [edit?,only,if_neg ht,Option.map_none]
  obtain ⟨front,back,rfl⟩ := List.append_of_mem hc
  obtain ⟨-,hback,hfront⟩ := List.pairwise_append.mp hp
  have hf : front.filterMap (edit? (only c.index image)) = [] :=
    List.filterMap_eq_nil_iff.mpr fun t ht =>
      hnone (Nat.ne_of_lt (hfront t ht c List.mem_cons_self))
  have hb : back.filterMap (edit? (only c.index image)) = [] :=
    List.filterMap_eq_nil_iff.mpr fun t ht =>
      hnone (Nat.ne_of_gt ((List.pairwise_cons.mp hback).1 t ht))
  rw [List.filterMap_append,hf,List.filterMap_cons_some (by rw [edit?,only,if_pos rfl]; rfl),hb]
  rfl

end Lexing
end QScope
