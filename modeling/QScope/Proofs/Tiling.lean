import QScope.Proofs.Placement

/-! # Tiling: tokens take slices of a text, and blanks and comments fill the rest -/
namespace QScope.Lexing
open TokenExtents Texts

/-- The stretches of a text that are comments: from a slash at the left margin or behind a blank to
the end of the line; from a line that is a slash to the end of the next one that is a backslash, or
of the text; and from a line that is a backslash to the end of the text. -/
inductive Comment (t : Text) (a b : Nat) : Prop
  | line (slash : t[a]? = some '/')
      (before : LineStart t a ∨ t[a - 1]? = some ' ' ∨ t[a - 1]? = some '\t')
      (stop : b = a + (lineFrom t a).length)
  | block (start : LineStart t a) (mark : trimRight (lineFrom t a) = ['/'])
      (stop : (∀ k, a < k → ¬ ClosingLine t k) ∧ b = t.length ∨
        ∃ m, a < m ∧ ClosingLine t m ∧ (∀ k, a < k → k < m → ¬ ClosingLine t k) ∧
          b = m + (lineFrom t m).length)
  | ending (start : LineStart t a) (mark : trimRight (lineFrom t a) = ['\\']) (stop : b = t.length)

/-- What a token says of the slice that it is made of. -/
structure Describes (file t : Text) (s : Nat × Nat) (token : Token) : Prop where
  image : token.image = slice t s.1 s.2
  file : token.span.file = file
  start : token.span.start = .ofOffset t s.1
  stop : token.span.stop = .ofOffset t (s.2 - 1)
  range : token.span.range = .ofOffsets t s.1 s.2
  delimits : token.span.range.start.offset t = s.1 ∧ token.span.range.stop.offset t = s.2

/-- Tokens numbered from zero that take slices of a text one behind the other, with blanks and
comments between them. -/
structure Tiled (file t : Text) (tokens : List Token) (slices : List (Nat × Nat)) : Prop where
  described : List.Forall₂ (Describes file t) slices tokens
  numbered : ∀ (i : Nat) (token : Token), tokens[i]? = some token → token.index = i
  within : ∀ s ∈ slices, s.1 < s.2 ∧ s.2 ≤ t.length
  ordered : slices.Pairwise fun s r => s.2 ≤ r.1
  between : ∀ (k : Nat) (c : Char), t[k]? = some c → (∀ s ∈ slices, ¬ (s.1 ≤ k ∧ k < s.2)) →
    isGap c = true ∨ ∃ a b, Comment t a b ∧ a ≤ k ∧ k < b ∧ ∀ s ∈ slices, s.2 ≤ a ∨ b ≤ s.1

/-- A token whose last character is no newline describes the slice that it is read from. -/
theorem describes {s y r : Text} {c : Char} (hc : c ≠ '\n') (file : Text) (kind : Kind) (i : Nat)
    (error : Option LexicalError) :
    Describes file (s ++ ((y ++ [c]) ++ r)) (s.length,s.length + (y ++ [c]).length)
      ⟨kind,y ++ [c],⟨file,Position.origin.advance s,(Position.origin.advance s).advance y⟩,i,
        error⟩ := by
  have hstart : Position.origin.advance s = .ofOffset (s ++ ((y ++ [c]) ++ r)) s.length :=
    (Position.ofOffset_append s _).symm
  have hstop : (Position.origin.advance s).advance y =
      .ofOffset (s ++ ((y ++ [c]) ++ r)) (s ++ y).length := by
    rw [← Position.advance_append,← Position.ofOffset_append (s ++ y) ([c] ++ r)]
    simp
  have hlast : (s ++ ((y ++ [c]) ++ r))[(s ++ y).length]? = some c := by simp
  have hlength : s.length + (y ++ [c]).length = (s ++ y).length + 1 := by simp; omega
  have hrange := Span.range_ofOffset file (k := s.length) hlast hc
  rw [← hstart,← hstop,← hlength] at hrange
  refine ⟨?_,rfl,hstart,?_,hrange,?_⟩
  · exact (slice_append s (y ++ [c]) r).symm
  · rw [hlength]
    exact hstop
  · simp only [hrange,Range.ofOffsets]
    exact ⟨Position.offset_ofOffset (by simp),Position.offset_ofOffset (by simp)⟩

/-- Tokens end with no newline. -/
def EndsWithin (l : Lexeme) : Prop :=
  l.text ≠ [] ∧ (l.shape.isToken = true → l.text.getLast? ≠ some '\n')

theorem locate_described (file s : Text) (i : Nat) {ls : List Lexeme} (h : ∀ l ∈ ls, EndsWithin l) :
    List.Forall₂ (Describes file (s ++ spelling ls))
      (((placed s.length ls).filter (·.2.shape.isToken)).map fun x => (x.1,behind x))
      (locate file i (Position.origin.advance s) ls) := by
  induction ls generalizing s i with
  | nil => exact .nil
  | cons l ls ih =>
    have hl := h l List.mem_cons_self
    have hs : s ++ spelling (l :: ls) = (s ++ l.text) ++ spelling ls := by simp
    have hrest := fun i => ih (s ++ l.text) i fun l hl => h l (List.mem_cons_of_mem _ hl)
    rw [List.length_append,Position.advance_append,← hs] at hrest
    rw [placed,locate]
    cases hsh : l.shape with
    | token kind error =>
      have hn := hl.2 (by rw [hsh]; rfl)
      obtain ⟨y,c,hy⟩ := (List.eq_nil_or_concat l.text).resolve_left hl.1
      have hc : c ≠ '\n' := by
        rintro rfl
        exact hn (by simp [hy])
      rw [List.filter_cons_of_pos (by simp [hsh,Shape.isToken]),List.map_cons]
      refine .cons ?_ (hrest (i + 1))
      simpa [hy,behind] using describes (s := s) (y := y) (r := spelling ls) hc file kind i error
    | blank => simpa [hsh,Shape.isToken] using hrest i
    | lineComment => simpa [hsh,Shape.isToken] using hrest i
    | blockComment => simpa [hsh,Shape.isToken] using hrest i
    | scriptEnd => simpa [hsh,Shape.isToken] using hrest i

theorem locate_numbered (file : Text) (i : Nat) (p : Position) (ls : List Lexeme) (j : Nat)
    (token : Token) (h : (locate file i p ls)[j]? = some token) : token.index = i + j := by
  fun_induction locate file i p ls generalizing j with
  | case1 => simp at h
  | case2 i p l ls kind error hs ih =>
    cases j with
    | zero =>
      obtain rfl := Option.some.inj h
      rfl
    | succ j =>
      have := ih j h
      omega
  | case3 i p l ls hs ih => exact ih j h
  | case4 i p l ls hs ih => exact ih j h
  | case5 i p l ls hs ih => exact ih j h
  | case6 i p l ls hs ih => exact ih j h

theorem tokenize_numbered {file t : Text} {i : Nat} {token : Token}
    (h : (tokenize file t)[i]? = some token) : token.index = i := by
  simpa using locate_numbered file 0 .origin _ i token h

theorem endsWithin_of_found {t : Text} {x : Nat × Lexeme} (h : Found t x) : EndsWithin x.2 := by
  constructor
  · obtain ⟨c,rest,hr⟩ := h
    rw [hr.text]
    exact List.cons_ne_nil c _
  · intro ht
    obtain ⟨c,rest,e,hr,ho⟩ := h.token ht
    rw [hr.text]
    exact ho.getLast?_ne

theorem endsWithin_of_mem {t : Text} {l : Lexeme} (h : l ∈ lexemes '\n' t) : EndsWithin l := by
  rw [← map_placed 0 (lexemes '\n' t)] at h
  obtain ⟨x,hx,rfl⟩ := List.mem_map.mp h
  exact endsWithin_of_found (found_of_mem hx)

theorem comment_of_blockComment {t : Text} {a k : Nat} {d : Char} (ha : LineStart t a)
    (hmark : trimRight (lineFrom t a) = ['/']) (hk : t[k]? = some d)
    (hb : k < a + (blockComment (t.drop a)).length) :
    isGap d = true ∨ ∃ b, Comment t a b ∧ k < b ∧ b ≤ a + (blockComment (t.drop a)).length := by
  have hclosing := closingLine_drop ha
  have hkt : k < t.length := (List.getElem?_eq_some_iff.mp hk).1
  rcases blockComment_length (t.drop a) with ⟨hnone,hall⟩ | ⟨m,hm,hfirst,htake⟩
  · rw [hall,List.length_drop] at hb ⊢
    refine Or.inr ⟨t.length,.block ha hmark (Or.inl ⟨?_,rfl⟩),hkt,by omega⟩
    intro j hj hcl
    obtain ⟨i,rfl⟩ := Nat.exists_eq_add_of_le (Nat.le_of_lt hj)
    exact hnone i ((hclosing i).mpr hcl)
  · have hend := (isPrefix_firstLine (t.drop (a + m))).length_le
    have hw := hm.within
    have hm0 : m ≠ 0 := by
      rintro rfl
      have := ((hclosing 0).mp hm).mark
      rw [Nat.add_zero,hmark] at this
      simp at this
    rw [htake,List.length_take,lineFrom_drop,List.length_drop] at hb ⊢
    rw [List.length_drop] at hend hw
    change (lineFrom t (a + m)).length ≤ _ at hend
    by_cases hkb : k < a + m + (lineFrom t (a + m)).length
    · refine Or.inr ⟨_,.block ha hmark (Or.inr ⟨a + m,by omega,(hclosing m).mp hm,?_,rfl⟩),hkb,
        by omega⟩
      intro j hj hjm hcl
      obtain ⟨i,rfl⟩ := Nat.exists_eq_add_of_le (Nat.le_of_lt hj)
      exact hfirst i (by omega) ((hclosing i).mpr hcl)
    · left
      obtain rfl : k = a + m + (lineFrom t (a + m)).length := by omega
      rw [getElem?_lineFrom hk]
      decide

/-- A gap is a blank or a comment, apart from the newline behind that. -/
theorem comment_of_found {t : Text} {x : Nat × Lexeme} (h : Found t x)
    (hs : x.2.shape.isToken = false) {k : Nat} {d : Char} (hk : t[k]? = some d) (hl : x.1 ≤ k)
    (hb : k < behind x) : isGap d = true ∨ ∃ b, Comment t x.1 b ∧ k < b ∧ b ≤ behind x := by
  obtain ⟨c,rest,e,hr,ho⟩ := h.gap hs
  have hlen := hr.length
  have hstart := lineStart_iff (t := t) (k := x.1) (by omega)
  have hline : lineFrom t x.1 = firstLine (c :: rest) := by rw [lineFrom,hr.drop]
  have hbehind := hr.behind
  cases ho with
  | blank hg =>
    dsimp only at hbehind
    obtain rfl : k = x.1 := by omega
    rw [hr.getElem?] at hk
    exact Or.inl (Option.some.inj hk ▸ hg)
  | lineComment hslash hp =>
    subst hslash
    have hf : lineFrom t x.1 = '/' :: firstLine rest := by
      rw [hline]
      exact firstLine_append (s := ['/']) (by decide) rest
    refine Or.inr ⟨behind x,.line hr.getElem? ?_ ?_,hb,le_rfl⟩
    · rcases Nat.eq_zero_or_pos x.1 with h0 | h0
      · exact Or.inl (Or.inl h0)
      · rw [LineStart,getElem?_previous h0 (by omega)]
        simp only [opensComment,Bool.or_eq_true,beq_iff_eq] at hp
        rcases hp with (hp | hp) | hp <;> simp [hp]
    · rw [hf,hbehind,List.length_cons]
  | blockComment hp hm =>
    have hpos : TokenExtents.blockComment (c :: rest) ≠ [] := fun hn =>
      List.cons_ne_nil c rest (blockComment_eq_nil hn)
    rw [← List.length_pos_iff] at hpos
    dsimp only at hbehind
    rw [Nat.sub_add_cancel hpos,← hr.drop] at hbehind
    rw [hbehind] at hb ⊢
    exact comment_of_blockComment (hstart.mpr hp) (by rwa [hline]) hk hb
  | scriptEnd hp hm =>
    refine Or.inr ⟨behind x,.ending (hstart.mpr hp) (by rwa [hline]) ?_,hb,le_rfl⟩
    rw [hbehind,hlen]

theorem mem_slices {t : Text} {s : Nat × Nat} :
    s ∈ slices t ↔ ∃ x ∈ lexemesAt t, x.2.shape.isToken = true ∧ s = (x.1,behind x) := by
  simp only [slices,List.mem_map,List.mem_filter]
  constructor
  · rintro ⟨x,⟨hx,ht⟩,rfl⟩
    exact ⟨x,hx,ht,rfl⟩
  · rintro ⟨x,hx,ht,rfl⟩
    exact ⟨x,⟨hx,ht⟩,rfl⟩

theorem tokenize_described (file t : Text) :
    List.Forall₂ (Describes file t) (slices t) (tokenize file t) := by
  have h := locate_described file [] 0 fun l => endsWithin_of_mem (t := t) (l := l)
  rwa [spelling_lexemes] at h

theorem slices_within {t : Text} {s : Nat × Nat} (h : s ∈ slices t) :
    s.1 < s.2 ∧ s.2 ≤ t.length := by
  obtain ⟨x,hx,-,rfl⟩ := mem_slices.mp h
  have hb := (placed_bounds hx).2
  rw [spelling_lexemes,Nat.zero_add] at hb
  have hl := List.length_pos_iff.mpr (endsWithin_of_found (found_of_mem hx)).1
  exact ⟨Nat.lt_add_of_pos_right hl,hb⟩

theorem slices_ordered (t : Text) : (slices t).Pairwise fun s r => s.2 ≤ r.1 :=
  ((placed_pairwise 0 (lexemes '\n' t)).filter _).map _ fun _ _ h => h

theorem tokenize_tiled (file t : Text) : Tiled file t (tokenize file t) (slices t) where
  described := tokenize_described file t
  numbered _ _ h := tokenize_numbered h
  within _ h := slices_within h
  ordered := slices_ordered t
  between := by
    intro k c hk hout
    have hkt := (List.getElem?_eq_some_iff.mp hk).1
    have hkl : k < 0 + (spelling (lexemes '\n' t)).length := by
      rwa [spelling_lexemes,Nat.zero_add]
    obtain ⟨x,hx,hl,hb⟩ := exists_placed (Nat.zero_le k) hkl
    have hgap : x.2.shape.isToken = false := by
      by_contra ht
      exact hout _ (mem_slices.mpr ⟨x,hx,by simpa using ht,rfl⟩) ⟨hl,hb⟩
    rcases comment_of_found (found_of_mem hx) hgap hk hl hb with hg | ⟨b,hc,hkb,hbx⟩
    · exact Or.inl hg
    · refine Or.inr ⟨x.1,b,hc,hl,hkb,fun s hs => ?_⟩
      obtain ⟨y,hy,ht,rfl⟩ := mem_slices.mp hs
      have hne : y ≠ x := by
        rintro rfl
        rw [hgap] at ht
        cases ht
      rcases placed_disjoint hy hx hne with h | h
      · exact Or.inl h
      · exact Or.inr (hbx.trans h)

end QScope.Lexing
