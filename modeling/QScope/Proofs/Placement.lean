import QScope.Proofs.LexemeEnds
import QScope.Proofs.Offsets
import Mathlib.Data.List.Pairwise

/-! # Placement: the lexemes of a text with the offsets at which they begin -/
namespace QScope.Lexing
open Texts

/-- The characters of lexemes, one after the other. -/
def spelling (ls : List Lexeme) : Text := ls.flatMap (·.text)

@[simp] theorem spelling_nil : spelling [] = [] := rfl

@[simp] theorem spelling_cons (l : Lexeme) (ls : List Lexeme) :
    spelling (l :: ls) = l.text ++ spelling ls := List.flatMap_cons

@[simp] theorem spelling_append (ls ms : List Lexeme) :
    spelling (ls ++ ms) = spelling ls ++ spelling ms := List.flatMap_append

/-- Lexemes with the offsets at which they begin, the first at `k`. -/
def placed (k : Nat) : List Lexeme → List (Nat × Lexeme)
  | [] => []
  | l :: ls => (k,l) :: placed (k + l.text.length) ls

/-- The offset behind a lexeme. -/
def behind (x : Nat × Lexeme) : Nat := x.1 + x.2.text.length

theorem placed_bounds {k : Nat} {ls : List Lexeme} {x : Nat × Lexeme} (h : x ∈ placed k ls) :
    k ≤ x.1 ∧ behind x ≤ k + (spelling ls).length := by
  induction ls generalizing k with
  | nil => simp [placed] at h
  | cons l ls ih =>
    rcases List.mem_cons.mp h with rfl | h
    · simp [behind]
    · have := ih h
      simp only [spelling_cons,List.length_append]
      omega

/-- Lexemes follow each other. -/
theorem placed_pairwise (k : Nat) (ls : List Lexeme) :
    (placed k ls).Pairwise fun x y => behind x ≤ y.1 := by
  induction ls generalizing k with
  | nil => exact .nil
  | cons l ls ih => exact .cons (fun x hx => (placed_bounds hx).1) (ih _)

theorem placed_disjoint {k : Nat} {ls : List Lexeme} {x y : Nat × Lexeme} (hx : x ∈ placed k ls)
    (hy : y ∈ placed k ls) (h : x ≠ y) : behind x ≤ y.1 ∨ behind y ≤ x.1 := by
  have : Std.Symm fun x y : Nat × Lexeme => behind x ≤ y.1 ∨ behind y ≤ x.1 := ⟨fun _ _ => Or.symm⟩
  have hp : (placed k ls).Pairwise fun x y => behind x ≤ y.1 ∨ behind y ≤ x.1 :=
    (placed_pairwise k ls).imp Or.inl
  exact hp.forall hx hy h

theorem map_placed (k : Nat) (ls : List Lexeme) : (placed k ls).map (·.2) = ls := by
  induction ls generalizing k with
  | nil => rfl
  | cons l ls ih => rw [placed,List.map_cons,ih]

theorem placed_slice {s : Text} {ls : List Lexeme} {x : Nat × Lexeme}
    (h : x ∈ placed s.length ls) : slice (s ++ spelling ls) x.1 (behind x) = x.2.text := by
  induction ls generalizing s with
  | nil => simp [placed] at h
  | cons l ls ih =>
    rcases List.mem_cons.mp h with rfl | h
    · exact slice_append s l.text (spelling ls)
    · have := ih (s := s ++ l.text) (by simpa using h)
      simpa using this

/-- The characters of a text are those of its lexemes. -/
theorem mem_text_of_placed {s : Text} {ls : List Lexeme} {x : Nat × Lexeme}
    (h : x ∈ placed s.length ls) {k : Nat} {c : Char} (hk : (s ++ spelling ls)[k]? = some c)
    (hl : x.1 ≤ k) (hb : k < behind x) : c ∈ x.2.text := by
  obtain ⟨i,rfl⟩ := Nat.exists_eq_add_of_le hl
  rw [← placed_slice h,slice]
  refine List.mem_of_getElem? (i := i) ?_
  rw [List.getElem?_drop,List.getElem?_take_of_lt hb,hk]

/-- Every character belongs to a lexeme. -/
theorem exists_placed {k n : Nat} {ls : List Lexeme} (hk : k ≤ n)
    (hn : n < k + (spelling ls).length) : ∃ x ∈ placed k ls, x.1 ≤ n ∧ n < behind x := by
  induction ls generalizing k with
  | nil => simp at hn; omega
  | cons l ls ih =>
    by_cases h : n < k + l.text.length
    · exact ⟨(k,l),List.mem_cons_self,hk,h⟩
    · have hl : n < k + l.text.length + (spelling ls).length := by
        rw [spelling_cons,List.length_append] at hn
        omega
      obtain ⟨x,hx,hb⟩ := ih (Nat.le_of_not_lt h) hl
      exact ⟨x,List.mem_cons_of_mem _ hx,hb⟩

/-- A lexeme at its offset, with the character that opens it there and the text behind that. -/
structure Read (t : Text) (x : Nat × Lexeme) (c : Char) (rest : Text) (e : Extent) : Prop where
  drop : t.drop x.1 = c :: rest
  shape : x.2.shape = e.shape
  text : x.2.text = c :: rest.take e.more
  behind : behind x = x.1 + (e.more + 1)

/-- What the lexer finds at an offset of a text is what the character there opens behind the one
before it. -/
def Found (t : Text) (x : Nat × Lexeme) : Prop :=
  ∃ c rest, Read t x c rest (lexeme (previous t x.1) c rest)

theorem Found.gap {t : Text} {x : Nat × Lexeme} (h : Found t x) (hs : x.2.shape.isToken = false) :
    ∃ c rest e, Read t x c rest e ∧ OpensGap (previous t x.1) c rest e := by
  obtain ⟨c,rest,hr⟩ := h
  exact ⟨c,rest,_,hr,opensGap (hr.shape ▸ hs)⟩

theorem Found.token {t : Text} {x : Nat × Lexeme} (h : Found t x) (hs : x.2.shape.isToken = true) :
    ∃ c rest e, Read t x c rest e ∧ OpensToken (previous t x.1) c rest e := by
  obtain ⟨c,rest,hr⟩ := h
  exact ⟨c,rest,_,hr,opensToken (hr.shape ▸ hs)⟩

theorem Read.getElem? {t : Text} {x : Nat × Lexeme} {c : Char} {rest : Text} {e : Extent}
    (h : Read t x c rest e) : t[x.1]? = some c := by
  have := congrArg List.head? h.drop
  rwa [List.head?_drop] at this

theorem Read.length {t : Text} {x : Nat × Lexeme} {c : Char} {rest : Text} {e : Extent}
    (h : Read t x c rest e) : x.1 + (rest.length + 1) = t.length := by
  have := congrArg List.length h.drop
  rw [List.length_drop,List.length_cons] at this
  omega

theorem getLastD_append (s t : Text) (d : Char) :
    (s ++ t).getLastD d = t.getLastD (s.getLastD d) := by
  rw [List.getLastD_eq_getLast?,List.getLastD_eq_getLast?,List.getLastD_eq_getLast?,
    List.getLast?_append]
  cases t.getLast? <;> rfl

theorem getLastD_append_cons (s t : Text) (c d : Char) :
    (s ++ c :: t).getLastD d = t.getLastD c := by
  rw [getLastD_append,List.getLastD_cons]

/-- A lexeme among those of a text is what its first character opens behind the ones before it. -/
theorem exists_of_lexemes_eq {p : Char} {t : Text} {as bs : List Lexeme} {l : Lexeme}
    (h : lexemes p t = as ++ l :: bs) : ∃ c x r, t = spelling as ++ (c :: x ++ r) ∧
      l.text = c :: x ∧ bs = lexemes (x.getLastD c) r ∧
      lexeme ((spelling as).getLastD p) c (x ++ r) = ⟨l.shape,x.length⟩ := by
  induction as generalizing p t with
  | nil =>
    cases t with
    | nil =>
      rw [lexemes] at h
      cases h
    | cons c rest =>
      rw [lexemes] at h
      obtain ⟨rfl,rfl⟩ := List.cons.inj h
      refine ⟨c,_,_,?_,rfl,rfl,?_⟩
      · simp
      · rw [List.take_append_drop,List.length_take_of_le (lexeme_le p c rest)]
        rfl
  | cons a as ih =>
    cases t with
    | nil =>
      rw [lexemes] at h
      cases h
    | cons d rest =>
      rw [lexemes,List.cons_append] at h
      obtain ⟨rfl,hls⟩ := List.cons.inj h
      have hrest := ih hls
      obtain ⟨c,x,r,hrest,hl,hbs,hlex⟩ := hrest
      refine ⟨c,x,r,?_,hl,hbs,?_⟩
      · rw [spelling_cons,List.append_assoc,← hrest]
        simp
      · rwa [spelling_cons,getLastD_append,List.getLastD_cons]

theorem found_of_placed {s t : Text} {x : Nat × Lexeme}
    (h : x ∈ placed s.length (lexemes (s.getLastD '\n') t)) : Found (s ++ t) x := by
  generalize hp : s.getLastD '\n' = p at h
  fun_induction lexemes p t generalizing s with
  | case1 => simp [placed] at h
  | case2 p c rest e =>
    rename_i ih
    rcases List.mem_cons.mp h with rfl | h
    · have hm := lexeme_le p c rest
      refine ⟨c,rest,?_⟩
      rw [previous,List.take_left,hp]
      exact ⟨by simp,rfl,rfl,by simp [behind,e,hm]⟩
    · have hs : (s ++ c :: rest.take e.more).length = _ := List.length_append
      have hf := ih (getLastD_append_cons s _ c '\n') (by rwa [hs])
      simpa using hf

/-- The lexemes of a text with their offsets. -/
def lexemesAt (t : Text) : List (Nat × Lexeme) := placed 0 (lexemes '\n' t)

theorem spelling_lexemes (p : Char) (t : Text) : spelling (lexemes p t) = t := lexemes_flatMap p t

theorem found_of_mem {t : Text} {x : Nat × Lexeme} (h : x ∈ lexemesAt t) : Found t x :=
  found_of_placed (s := []) h

/-- The slices of a text that its tokens take. -/
def slices (t : Text) : List (Nat × Nat) :=
  ((lexemesAt t).filter (·.2.shape.isToken)).map fun x => (x.1,behind x)

/-! Tokens among lexemes -/

theorem locate_append (file : Text) (i : Nat) (p : Position) (ls ms : List Lexeme) :
    locate file i p (ls ++ ms) = locate file i p ls ++
      locate file (i + (locate file i p ls).length) (p.advance (spelling ls)) ms := by
  fun_induction locate file i p ls with
  | case1 i p => rfl
  | case2 i p l ls kind error hs ih =>
    rw [List.cons_append,locate,hs]
    simp only [List.cons_append,ih,spelling_cons,Position.advance_append,List.length_cons]
    rw [Nat.add_assoc,Nat.add_comm 1]
  | case3 i p l ls hs ih =>
    rw [List.cons_append,locate,hs]
    simp only [ih,spelling_cons,Position.advance_append]
  | case4 i p l ls hs ih =>
    rw [List.cons_append,locate,hs]
    simp only [ih,spelling_cons,Position.advance_append]
  | case5 i p l ls hs ih =>
    rw [List.cons_append,locate,hs]
    simp only [ih,spelling_cons,Position.advance_append]
  | case6 i p l ls hs ih =>
    rw [List.cons_append,locate,hs]
    simp only [ih,spelling_cons,Position.advance_append]

/-- The tokens in front of one and the tokens behind it are those of the lexemes there. -/
theorem locate_eq_of_mem {file : Text} {i : Nat} {p : Position} {ls : List Lexeme} {token : Token}
    (h : token ∈ locate file i p ls) :
    ∃ as bs, ls = as ++ ⟨.token token.kind token.error,token.image⟩ :: bs ∧
      token.span.start = p.advance (spelling as) ∧
      locate file i p ls = locate file i p as ++
        token :: locate file (token.index + 1) (token.span.start.advance token.image) bs := by
  fun_induction locate file i p ls with
  | case1 => cases h
  | case2 i p l ls kind error hs ih =>
    rcases List.mem_cons.mp h with rfl | h
    · exact ⟨[],ls,by rw [← hs]; rfl,rfl,rfl⟩
    · obtain ⟨as,bs,hls,hstart,hlocate⟩ := ih h
      refine ⟨l :: as,bs,by rw [hls]; rfl,?_,?_⟩
      · rw [hstart,spelling_cons,Position.advance_append]
      · rw [hlocate,locate,hs]
        rfl
  | case3 i p l ls hs ih | case4 i p l ls hs ih | case5 i p l ls hs ih | case6 i p l ls hs ih =>
    obtain ⟨as,bs,hls,hstart,hlocate⟩ := ih h
    refine ⟨l :: as,bs,by rw [hls]; rfl,?_,?_⟩
    · rw [hstart,spelling_cons,Position.advance_append]
    · rw [hlocate,locate,hs]

theorem mem_of_locate {file : Text} {i : Nat} {p : Position} {ls : List Lexeme} {token : Token}
    (h : token ∈ locate file i p ls) : ⟨.token token.kind token.error,token.image⟩ ∈ ls := by
  obtain ⟨as,bs,rfl,-⟩ := locate_eq_of_mem h
  exact List.mem_append_right as List.mem_cons_self

end QScope.Lexing
