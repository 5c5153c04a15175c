import QScope.Proofs.Lookahead
import QScope.Proofs.Placement

/-! # Line splitting: the tokens before and behind the beginning of a line are independent -/
namespace QScope
open CharacterClasses TokenExtents Texts

/-- A position some lines further down. -/
def Position.down (lines : Nat) (p : Position) : Position := ⟨p.line + lines,p.column⟩

theorem Position.advance_down (lines : Nat) (p : Position) (t : Text) :
    (p.down lines).advance t = (p.advance t).down lines := by
  induction t generalizing p with
  | nil => rfl
  | cons c t ih =>
    have hc : (p.down lines).after c = (p.after c).down lines := by
      by_cases h : c = '\n' <;> simp [after,down,h,Int.add_right_comm]
    simp only [advance,List.foldl_cons] at ih ⊢
    rw [hc,ih]

/-- A token of a text with more tokens and lines in front. -/
def Token.shifted (tokens lines : Nat) (t : Token) : Token :=
  {t with
    span := ⟨t.span.file,t.span.start.down lines,t.span.stop.down lines⟩
    index := t.index + tokens}

namespace Lexing

/-! Lexemes at the end of a line -/

theorem withinLine_newline (p : Char) (rest : Text) : withinLine p '\n' rest = ⟨.blank,0⟩ := by
  rw [withinLine,if_pos (by decide)]

theorem lexeme_newline (p : Char) (rest : Text) : lexeme p '\n' rest = ⟨.blank,0⟩ := by
  have hl : lineForm? ('\n' :: rest) = none := by
    rw [lineForm?,show firstLine ('\n' :: rest) = [] from rfl]
    rfl
  rw [lexeme,hl,Option.getD_none,withinLine_newline,ite_self]

/-- A lexeme that takes its newline along keeps its extent whatever follows. -/
theorem lexeme_append_newline {u v x : Text} {p c : Char} (h : u = [] → v = [])
    (hl : (c :: x).getLast? = some '\n') (hn : (lexeme p c (x ++ u)).more = x.length) :
    lexeme p c (x ++ v) = lexeme p c (x ++ u) := by
  have hends : (withinLine p c (x ++ u)).more = x.length →
      withinLine p c (x ++ v) = withinLine p c (x ++ u) := by
    intro hw
    have ht : (x ++ u).take (withinLine p c (x ++ u)).more = x := by rw [hw,List.take_left]
    rcases withinLine_opens p c (x ++ u) with ⟨-,he⟩ | ⟨rfl,-,he⟩ | ho
    · rw [he] at hw
      obtain rfl := List.length_eq_zero_iff.mp hw.symm
      obtain rfl : c = '\n' := by simpa using hl
      rw [withinLine_newline,withinLine_newline]
    · rw [he] at ht
      exact absurd (List.mem_of_getLast? hl) (ht ▸ newline_notMem_lineComment (x ++ u))
    · exact absurd hl (ht ▸ ho.getLast?_ne)
  unfold lexeme at hn ⊢
  split
  · rename_i hp
    rw [if_pos hp] at hn
    have ht : trimRight (firstLine (c :: (x ++ v))) = trimRight (firstLine (c :: (x ++ u))) := by
      have hx := List.mem_of_getLast? hl
      rw [← List.cons_append,← List.cons_append,firstLine_append_of_mem hx,
        firstLine_append_of_mem hx]
    rw [lineForm?_append_of_trim h ht (by
      intro e he
      rwa [he,Option.getD_some] at hn)]
    cases he : lineForm? (c :: (x ++ u)) with
    | none =>
      rw [he,Option.getD_none] at hn
      exact hends hn
    | some e => rfl
  · rename_i hp
    rw [if_neg hp] at hn
    exact hends hn

/-- A text that ends a line may stand for one that goes on behind it. -/
theorem follows_of_lineEnd {s : Text} (t : Text) (h : '\n' ∈ s) : Follows (s ++ t) s where
  alike := by
    obtain ⟨a,b,rfl⟩ := List.append_of_mem h
    rw [List.append_assoc,List.cons_append]
    refine Alike.append_left (.gap ?_ ?_) a
    · rintro c ⟨⟩
      rfl
    · rintro c ⟨⟩
      rfl
  nil := by
    intro hs
    rw [List.append_eq_nil_iff] at hs
    exact hs.1
  lineEnd := by rw [firstLine_append_of_mem h]; exact id
  blank := by rw [firstLine_append_of_mem h]
  unclosed := by
    intro x hx
    by_contra hs
    obtain ⟨n,hn⟩ := Option.ne_none_iff_exists'.mp hs
    have hx' := stringRun_append (x := x ++ s) (u := []) (v := t) (by simpa using hn)
      (stringRun_le hn)
    rw [List.append_assoc,hx] at hx'
    cases hx'

/-- No lexeme reaches from before an offset to behind it. -/
def Uncrossed (k n : Nat) (ls : List Lexeme) : Prop :=
  ∀ x ∈ placed k ls, ¬ (x.1 < n ∧ n < behind x)

theorem lexemes_append {p : Char} {s t : Text} (hs : s.getLastD p = '\n') {k : Nat}
    (h : Uncrossed k (k + s.length) (lexemes p (s ++ t))) :
    lexemes p (s ++ t) = lexemes p s ++ lexemes '\n' t := by
  match s,hs,h with
  | [],hs,_ =>
    obtain rfl : p = '\n' := hs
    rw [lexemes,List.nil_append,List.nil_append]
  | c :: s,hs,h =>
    have hle : (lexeme p c (s ++ t)).more ≤ s.length := by
      have hh := h (k,⟨_,_⟩) (by rw [List.cons_append,lexemes]; exact List.mem_cons_self)
      have hm := lexeme_le p c (s ++ t)
      simp only [behind,List.length_cons,List.length_take,Nat.min_eq_left hm] at hh
      omega
    obtain ⟨x,r,rfl,hx⟩ : ∃ x r, s = x ++ r ∧ (lexeme p c (s ++ t)).more = x.length :=
      ⟨_,_,(List.take_append_drop _ s).symm,(List.length_take_of_le hle).symm⟩
    rw [List.append_assoc] at hx
    have hr : r.getLastD (x.getLastD c) = '\n' := by rwa [List.getLastD_cons,getLastD_append] at hs
    have he : lexeme p c (x ++ r) = lexeme p c (x ++ (r ++ t)) := by
      cases r with
      | nil =>
        apply lexeme_append_newline (fun _ => rfl) _ hx
        rw [List.getLast?_cons,← List.getLastD_eq_getLast?]
        exact congrArg some hr
      | cons d r =>
        rw [List.getLastD_cons,List.getLastD_eq_getLast?] at hr
        have hn : '\n' ∈ d :: r := List.mem_of_getLast? (by rw [List.getLast?_cons,hr])
        exact lexeme_append (follows_of_lineEnd t hn) hx
    have hstep := fun w => lexemes.eq_2 p c (x ++ w)
    have hrest := lexemes_append hr (t := t) (k := k + (c :: x).length) fun y hy => by
      have hh := h y (by
        rw [List.cons_append,List.append_assoc,hstep,hx,List.take_left,List.drop_left]
        exact List.mem_cons_of_mem _ hy)
      simpa [Nat.add_assoc,Nat.add_comm,Nat.add_left_comm] using hh
    rw [List.cons_append,List.append_assoc,hstep,hstep,he,hx,List.take_left,List.drop_left,
      List.take_left,List.drop_left,List.cons_append,hrest]
termination_by s.length

/-! Tokens -/

/-- A gap only moves the place where the next token begins. -/
theorem locate_gap {p c : Char} {x r : Text} {shape : Shape}
    (h : lexeme p c (x ++ r) = ⟨shape,x.length⟩) (hs : shape.isToken = false) (file : Text) (i : Nat)
    (pos : Position) :
    locate file i pos (lexemes p (c :: x ++ r)) =
      locate file i (pos.advance (c :: x)) (lexemes (x.getLastD c) r) := by
  rw [lexemes_of_lexeme h,locate]
  cases shape with
  | token => cases hs
  | blank | lineComment | blockComment | scriptEnd => rfl

theorem locate_isGap {c : Char} (hc : isGap c = true) (p : Char) (rest : Text) (file : Text)
    (i : Nat) (pos : Position) : locate file i pos (lexemes p (c :: rest)) =
      locate file i (pos.after c) (lexemes c rest) :=
  locate_gap (x := []) (lexeme_of_isGap hc p rest) rfl file i pos

theorem locate_shifted (file : Text) (tokens lines i : Nat) (p : Position) (ls : List Lexeme) :
    locate file (i + tokens) (p.down lines) ls =
      (locate file i p ls).map (Token.shifted tokens lines) := by
  induction ls generalizing i p with
  | nil => rfl
  | cons l ls ih =>
    have hi : i + tokens + 1 = i + 1 + tokens := by omega
    rw [locate,locate,Position.advance_down,Position.advance_down]
    cases l.shape with
    | token kind error =>
      simp only [hi,ih,List.map_cons]
      rfl
    | blank => exact ih i _
    | lineComment => exact ih i _
    | blockComment => exact ih i _
    | scriptEnd => exact ih i _

/-- The tokens of a text are those of what stands before an offset and, in a later place, those of
what stands behind it. -/
def Splits (file t : Text) (n : Nat) : Prop :=
  tokenize file t = tokenize file (t.take n) ++ (tokenize file (t.drop n)).map
    (Token.shifted (tokenize file (t.take n)).length ((t.take n).count '\n'))

theorem splits_of_uncrossed {file t : Text} {n : Nat} (hs : LineStart t n) (hn : n ≤ t.length)
    (h : Uncrossed 0 n (lexemes '\n' t)) : Splits file t n := by
  have hlast : (t.take n).getLastD '\n' = '\n' := (lineStart_iff hn).mp hs
  have hl : (t.take n).length = n := List.length_take_of_le hn
  have happ := lexemes_append (p := '\n') (s := t.take n) (t := t.drop n) (k := 0) hlast (by
    rwa [List.take_append_drop,hl,Nat.zero_add])
  rw [List.take_append_drop] at happ
  have hpos : Position.origin.advance (t.take n) =
      Position.origin.down ((t.take n).count '\n') := by
    rw [Position.origin_advance,behindLast_of_getLastD hlast]
    simp [Position.origin,Position.down,Int.add_comm]
  rw [Splits,tokenize,happ,locate_append,spelling_lexemes,hpos,locate_shifted]
  rfl

/-- The beginning of a line within no token and no block comment, before the end of the script. -/
structure Boundary (t : Text) (n : Nat) : Prop where
  start : LineStart t n
  outside : ∀ x ∈ lexemesAt t, x.2.shape.isToken = true ∨ x.2.shape = .blockComment →
    ¬ (x.1 < n ∧ n < behind x)
  before : ∀ x ∈ lexemesAt t, x.2.shape = .scriptEnd → n ≤ x.1

theorem behind_of_scriptEnd {t : Text} {x : Nat × Lexeme} (h : Found t x)
    (hs : x.2.shape = .scriptEnd) : behind x = t.length := by
  obtain ⟨c,rest,e,hr,ho⟩ := h.gap (by rw [hs]; rfl)
  rw [hr.shape] at hs
  have hlen := hr.length
  have hb := hr.behind
  cases ho with
  | scriptEnd => exact hb.trans hlen
  | blank => cases hs
  | lineComment => cases hs
  | blockComment => cases hs

theorem Boundary.uncrossed {t : Text} {n : Nat} (h : Boundary t n) :
    Uncrossed 0 n (lexemes '\n' t) := by
  rintro x hx ⟨hl,hr⟩
  have hf := found_of_mem hx
  cases hs : x.2.shape with
  | token kind error => exact h.outside x hx (Or.inl (by rw [hs]; rfl)) ⟨hl,hr⟩
  | blockComment => exact h.outside x hx (Or.inr hs) ⟨hl,hr⟩
  | scriptEnd =>
    have := h.before x hx hs
    omega
  | blank =>
    obtain ⟨c,rest,e,hread,ho⟩ := hf.gap (by rw [hs]; rfl)
    rw [hread.shape] at hs
    have hb := hread.behind
    cases ho with
    | blank => dsimp only at hb; omega
    | lineComment => cases hs
    | blockComment => cases hs
    | scriptEnd => cases hs
  | lineComment =>
    have hn : t[n - 1]? = some '\n' := h.start.resolve_left (by omega)
    have hm := mem_text_of_placed (s := []) hx (k := n - 1) (c := '\n')
      (by rwa [spelling_lexemes,List.nil_append]) (by omega) (by omega)
    obtain ⟨c,rest,e,hread,ho⟩ := hf.gap (by rw [hs]; rfl)
    rw [hread.shape] at hs
    rw [hread.text] at hm
    cases ho with
    | lineComment h => exact newline_notMem_lineComment rest (h ▸ hm)
    | blank => cases hs
    | blockComment => cases hs
    | scriptEnd => cases hs

/-- A lexeme at a newline is that blank alone. -/
theorem shape_of_newline {t : Text} {x : Nat × Lexeme} (h : Found t x)
    (hn : t[x.1]? = some '\n') : x.2.shape = .blank := by
  obtain ⟨c,rest,hr⟩ := h
  obtain rfl : c = '\n' := Option.some.inj (hr.getElem?.symm.trans hn)
  rw [hr.shape,lexeme_newline]

theorem behind_le {t : Text} {x : Nat × Lexeme} (h : x ∈ lexemesAt t) : behind x ≤ t.length := by
  have := (placed_bounds h).2
  rwa [spelling_lexemes,Nat.zero_add] at this

theorem numberExtent_error (t : Text) : (numberExtent t).2 ≠ some .unterminatedString := by
  unfold numberExtent
  split
  · rw [byteNumber]
    dsimp only
    split <;> simp
  · rw [decimalNumber]
    dsimp only
    split <;> simp

/-- Only a quote opens an unterminated string, which takes the rest of its line. -/
theorem more_of_unterminated {previous c : Char} {rest : Text} {e : Extent}
    (h : OpensToken previous c rest e) {kind : Kind}
    (hs : e.shape = .token kind (some .unterminatedString)) :
    e.more = (firstLine rest).length := by
  cases h with
  | string =>
    rw [string] at hs ⊢
    split
    · simp_all
    · rfl
  | number =>
    rw [number,Shape.token.injEq] at hs
    exact absurd hs.2 (numberExtent_error _)
  | punctuation =>
    rw [punctuation] at hs
    split at hs
    · cases hs
    · split at hs <;> cases hs
  | command => cases hs
  | symbol => cases hs
  | name => cases hs

/-- The line behind an unterminated string is a boundary. -/
theorem boundary_of_unterminated {t : Text} {x : Nat × Lexeme} (hx : x ∈ lexemesAt t) {kind : Kind}
    (hs : x.2.shape = .token kind (some .unterminatedString)) :
    behind x = t.length ∨ Boundary t (behind x + 1) := by
  obtain ⟨c,rest,e,hr,ho⟩ := (found_of_mem hx).token (by rw [hs]; rfl)
  have hb := hr.behind
  rw [more_of_unterminated ho (hr.shape ▸ hs)] at hb
  have hget : ∀ d, t[behind x]? = some d → d = '\n' := by
    intro d hd
    have hrest : t.drop (x.1 + 1) = rest := by
      rw [← List.drop_drop,hr.drop,List.drop_one,List.tail_cons]
    rw [hb,Nat.add_comm _ 1,← Nat.add_assoc,← List.getElem?_drop,hrest] at hd
    exact getElem?_firstLine hd
  rcases Nat.eq_or_lt_of_le (behind_le hx) with heq | hlt
  · exact Or.inl heq
  right
  have hn : t[behind x]? = some '\n' := by
    rw [List.getElem?_eq_getElem hlt]
    exact congrArg some (hget _ (List.getElem?_eq_getElem hlt))
  -- A lexeme that begins at the newline is a blank, and all others end before it or begin behind.
  have hplace : ∀ y ∈ lexemesAt t,
      behind y ≤ behind x ∨ y.2.shape = .blank ∨ behind x + 1 ≤ y.1 := by
    intro y hy
    by_cases hyx : y = x
    · exact Or.inl (hyx ▸ le_rfl)
    rcases placed_disjoint hy hx hyx with h | h
    · exact Or.inl (h.trans (Nat.le_add_right x.1 x.2.text.length))
    rcases Nat.eq_or_lt_of_le h with heq | hlt
    · exact Or.inr (Or.inl (shape_of_newline (found_of_mem hy) (heq ▸ hn)))
    · exact Or.inr (Or.inr hlt)
  refine ⟨Or.inr hn,?_,?_⟩
  · rintro y hy hs ⟨hl,hr⟩
    rcases hplace y hy with h | h | h
    · omega
    · rw [h] at hs
      rcases hs with hs | hs <;> cases hs
    · omega
  · intro y hy hs
    rcases hplace y hy with h | h | h
    · have := behind_of_scriptEnd (found_of_mem hy) hs
      omega
    · rw [h] at hs
      cases hs
    · exact h

/-- A text splits at every boundary; so an unterminated string touches no later line. -/
theorem tokenize_splits (file t : Text) :
    (∀ n, Boundary t n → Splits file t n) ∧
    ∀ x ∈ lexemesAt t, ∀ kind, x.2.shape = .token kind (some .unterminatedString) →
      behind x = t.length ∨ LineStart t (behind x + 1) ∧ Splits file t (behind x + 1) := by
  have hsplit : ∀ n, Boundary t n → Splits file t n := by
    intro n hb
    refine splits_of_uncrossed hb.start ?_ hb.uncrossed
    rcases hb.start with rfl | hn
    · exact Nat.zero_le _
    · have := (List.getElem?_eq_some_iff.mp hn).1
      omega
  refine ⟨hsplit,fun x hx kind hs => ?_⟩
  rcases boundary_of_unterminated hx hs with h | h
  · exact Or.inl h
  · exact Or.inr ⟨h.start,hsplit _ h⟩

/-- Before and behind a line with an open quote. -/
theorem splits_around_open_quote :
    Boundary "a\n\"b\n c".toList 2 ∧ Splits [] "a\n\"b\n c".toList 2 ∧
      LineStart "a\n\"b\n c".toList 5 ∧ Splits [] "a\n\"b\n c".toList 5 := by
  have hl : lexemesAt "a\n\"b\n c".toList =
      [(0,⟨.token .identifier none,['a']⟩),(1,⟨.blank,['\n']⟩),
        (2,⟨.token .string (some .unterminatedString),['"','b']⟩),(4,⟨.blank,['\n']⟩),
        (5,⟨.blank,[' ']⟩),(6,⟨.token .identifier none,['c']⟩)] := by decide +kernel
  have hb : Boundary "a\n\"b\n c".toList 2 := by
    refine ⟨Or.inr rfl,?_,?_⟩
    · rw [hl]
      decide
    · rw [hl]
      decide
  have hq := (tokenize_splits [] "a\n\"b\n c".toList).2
    (2,⟨.token .string (some .unterminatedString),['"','b']⟩) (by rw [hl]; decide) .string rfl
  exact ⟨hb,(tokenize_splits [] _).1 2 hb,hq.resolve_left (by decide)⟩

end Lexing
end QScope
