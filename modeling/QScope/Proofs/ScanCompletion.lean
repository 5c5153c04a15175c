import QScope.Proofs.LexemeLoops
import QScope.Proofs.LineSplitting
import QScope.Proofs.PositionOrder

/-! # Scan completion: every scan comes to the end of its text, with the tokens of its lexemes -/
namespace QScope

namespace Position
variable {p : Position} {t : Text} {c : Char}

theorem column_after_pos (c : Char) (hp : 1 ≤ p.column) : 1 ≤ (p.after c).column := by
  rw [after]
  split
  · exact Int.le_refl 1
  · exact Int.le_add_one hp

theorem column_advance_pos (t : Text) (hp : 1 ≤ p.column) : 1 ≤ (p.advance t).column := by
  induction t generalizing p with
  | nil => exact hp
  | cons c t ih => exact ih (column_after_pos c hp)

/-- Behind a character that ends no line is the column after its own. -/
theorem back_advance_concat (hp : 1 ≤ p.column) (hc : c ≠ '\n') :
    (p.advance (t ++ [c])).back = p.advance t := by
  have h := column_advance_pos t hp
  rw [advance_append]
  simp only [advance,List.foldl_cons,List.foldl_nil,after,if_neg hc,back] at h ⊢
  rw [if_pos (by omega),Int.add_sub_cancel]

end Position

namespace Scanning
open CharacterClasses TokenExtents Lexing Texts

namespace Cursor

section
variable {text : Text} {c : Cursor} {n : Nat}

/-- The cursor at an offset, with the line and column of that. -/
def ofOffset (text : Text) (k : Nat) : Cursor := ⟨k,.ofOffset text k⟩

/-- A cursor in the text whose line and column are those of its offset. -/
structure Placed (text : Text) (c : Cursor) : Prop where
  le : c.offset ≤ text.length
  position : c.position = .ofOffset text c.offset

theorem Placed.start (text : Text) : Cursor.start.Placed text := ⟨Nat.zero_le _,rfl⟩

theorem Placed.column_pos (h : c.Placed text) : 1 ≤ c.position.column := by
  rw [h.position]
  exact (Position.isPositive_ofOffset text c.offset).2

theorem Placed.skip (h : c.Placed text) (hn : n ≤ (c.ahead text).length) :
    (c.skip text n).Placed text := by
  rw [length_ahead] at hn
  have hle := h.le
  refine ⟨by rw [Cursor.skip]; dsimp only; omega,?_⟩
  rw [Cursor.skip,h.position,← Position.origin_advance_take,← Position.origin_advance_take,
    ← Position.advance_append,ahead,← List.take_add]

/-- The left margin is behind a newline. -/
theorem Placed.column_eq_one_iff (h : c.Placed text) :
    c.position.column = 1 ↔ previous text c.offset = '\n' := by
  rw [h.position,Position.ofOffset,previous]
  generalize text.take c.offset = t
  rcases List.eq_nil_or_concat t with rfl | ⟨s,d,rfl⟩
  · simp
  · rw [List.concat_eq_append,behindLast_concat,List.getLastD_concat]
    by_cases hd : d = '\n'
    · simp [hd]
    · simp [hd]
      omega

theorem Placed.startsComment_eq (h : c.Placed text) :
    c.startsComment text = opensComment (previous text c.offset) := by
  have hcol : (c.position.column == 1) = (previous text c.offset == '\n') := by
    rw [Bool.eq_iff_iff,beq_iff_eq,beq_iff_eq,h.column_eq_one_iff]
  rw [startsComment,opensComment,hcol]
  rcases Nat.eq_zero_or_pos c.offset with h0 | h0
  · simp [h0,previous]
  · rw [getElem?_previous h0 h.le,beq_eq_false_iff_ne.mpr (Nat.ne_of_gt h0),Bool.false_or,
      Option.any_some,Bool.or_assoc]

end

end Cursor

namespace Scan

/-- The scan behind what is ahead, with the token that this is, if it is one. -/
def past (text file : Text) (s : Scan) (e : Extent) : Scan :=
  ⟨s.cursor.skip text (e.more + 1),
    s.tokens ++ locate file s.tokens.length s.cursor.position
      [⟨e.shape,(s.cursor.ahead text).take (e.more + 1)⟩]⟩

section
variable {text file : Text} {s : Scan} {a : Char} {rest : Text} {e : Extent}

theorem past_of_gap (hs : e.shape.isToken = false) :
    s.past text file e = s.skipTo (s.cursor.skip text (e.more + 1)) := by
  rw [past,locate]
  cases h : e.shape with
  | token kind error => simp [h,Shape.isToken] at hs
  | blank => simp [locate,skipTo]
  | lineComment => simp [locate,skipTo]
  | blockComment => simp [locate,skipTo]
  | scriptEnd => simp [locate,skipTo]

/-- A token that is read as far as the one ahead reaches is that one. -/
theorem emit_eq {previous : Char} {kind : Kind} {image : Text} {error : Option LexicalError}
    (h : s.cursor.ahead text = a :: rest) (hp : 1 ≤ s.cursor.position.column)
    (ho : OpensToken previous a rest e) (hs : e.shape = .token kind error)
    (hi : image = (s.cursor.ahead text).take (e.more + 1)) :
    s.emit file kind image (s.cursor.skip text (e.more + 1)) error = s.past text file e := by
  have hlast := ho.getLast?_ne
  obtain ⟨t,c,ht⟩ := (List.eq_nil_or_concat (a :: rest.take e.more)).resolve_left
    (List.cons_ne_nil _ _)
  rw [List.concat_eq_append] at ht
  rw [ht,List.getLast?_concat] at hlast
  have hc : c ≠ '\n' := fun hc => hlast (congrArg some hc)
  have hback := Position.back_advance_concat (t := t) hp hc
  rw [emit,past,locate,hi,Cursor.skip,h,List.take_succ_cons,ht,hback,List.dropLast_concat]
  simp only [hs,locate]

/-- A string is read through its closing quote. -/
theorem readString_closed {n : Nat} (h : s.cursor.ahead text = '"' :: rest)
    (hp : 1 ≤ s.cursor.position.column) (hs : stringRun rest = some n) :
    s.readString text file = some (s.past text file (string rest)) := by
  have hpos := stringRun_pos hs
  have hle := stringRun_le hs
  have ho : OpensToken ' ' '"' rest (string rest) := .string rfl
  have h1 : (s.cursor.skip text 1).ahead text = rest := by rw [Cursor.ahead_skip,h]; rfl
  have hbody := Cursor.skipStringBody_eq text (s.cursor.skip text 1)
  rw [h1,Cursor.stringBody,hs,Cursor.skip_skip,Option.map_some,Option.getD_some,
    Nat.add_sub_of_le hpos] at hbody
  obtain ⟨b,t,ht⟩ : ∃ b t, (s.cursor.skip text n).ahead text = b :: t := by
    apply List.exists_cons_of_length_pos
    rw [Cursor.ahead_skip,h,List.length_drop,List.length_cons]
    omega
  have hin : (s.cursor.skip text n).isInside text = true := by
    rw [Cursor.isInside_eq,ht]
    rfl
  have hbetween : (((s.cursor.ahead text).take (n + 1)).drop 1).dropLast = rest.take (n - 1) := by
    rw [h,List.take_succ_cons,List.drop_succ_cons,List.drop_zero,List.dropLast_eq_take,
      List.length_take_of_le hle,List.take_take,min_eq_left (Nat.sub_le n 1)]
  rw [readString,Cursor.advance_eq h]
  simp only [Option.bind_eq_bind,Option.bind_some]
  rw [hbody]
  simp only [Option.bind_some]
  rw [if_pos hin,Cursor.advance_eq ht,Cursor.skip_skip]
  simp only [Option.bind_some]
  rw [Cursor.slice_skip,hbetween]
  rw [string,hs] at ho ⊢
  exact congrArg some (emit_eq h hp ho rfl rfl)

/-- A string that is not closed is read anew, from its quote to the end of the line. -/
theorem readString_open (h : s.cursor.ahead text = '"' :: rest)
    (hp : 1 ≤ s.cursor.position.column) (hs : stringRun rest = none) :
    s.readString text file = some (s.past text file (string rest)) := by
  have ho : OpensToken ' ' '"' rest (string rest) := .string rfl
  have h1 : (s.cursor.skip text 1).ahead text = rest := by rw [Cursor.ahead_skip,h]; rfl
  have hbody := Cursor.skipStringBody_eq text (s.cursor.skip text 1)
  rw [h1,Cursor.stringBody,hs,Cursor.skip_skip,Option.map_none,Option.getD_none] at hbody
  have hin : (s.cursor.skip text (1 + rest.length)).isInside text = false := by
    rw [Cursor.isInside_eq,← Cursor.skip_skip,Cursor.ahead_skip,h1,List.drop_length]
    rfl
  have hline : lineFrom text s.cursor.offset = '"' :: firstLine rest := by
    rw [lineFrom,show text.drop s.cursor.offset = _ from h]
    exact firstLine_append (s := ['"']) (by decide) rest
  have hle := (isPrefix_firstLine rest).length_le
  rw [readString,Cursor.advance_eq h]
  simp only [Option.bind_eq_bind,Option.bind_some]
  rw [hbody]
  simp only [Option.bind_some]
  rw [hin,if_neg Bool.false_ne_true,hline,List.length_cons,
    Cursor.advanceBy_eq (by rw [h,List.length_cons]; omega)]
  rw [string,hs] at ho ⊢
  refine congrArg some (emit_eq h hp ho rfl ?_)
  rw [h,List.take_succ_cons,← List.prefix_iff_eq_take.mp (isPrefix_firstLine rest)]

theorem readSymbol_eq (h : s.cursor.ahead text = '\x60' :: rest)
    (hp : 1 ≤ s.cursor.position.column) :
    s.readSymbol text file = some (s.past text file (symbol rest)) := by
  have ho : OpensToken ' ' '\x60' rest (symbol rest) := .symbol rfl
  have hc := Cursor.skipSymbol_eq text s.cursor
  rw [h,Cursor.symbolParts,Nat.add_comm] at hc
  rw [readSymbol,hc]
  simp only [Option.bind_eq_bind,Option.bind_some]
  rw [Cursor.slice_skip]
  exact congrArg some (emit_eq h hp ho rfl rfl)

theorem readNumber_eq (h : s.cursor.ahead text = a :: rest) (hp : 1 ≤ s.cursor.position.column)
    (ha : OpensNumber a rest) :
    s.readNumber text file = some (s.past text file (number a rest)) := by
  have ho : OpensToken ' ' a rest (number a rest) := .number ha
  have hpos := numberExtent_pos ha
  have hmore : (numberExtent (a :: rest)).1 = (number a rest).more + 1 := by
    rw [number]
    dsimp only
    omega
  rw [readNumber,Cursor.skipNumber_eq,h,hmore]
  simp only [Option.bind_eq_bind,Option.bind_some]
  rw [Cursor.slice_skip]
  exact congrArg some (emit_eq h hp ho rfl rfl)

theorem readName_eq (h : s.cursor.ahead text = a :: rest) (hp : 1 ≤ s.cursor.position.column)
    (ha : isNameStart a = true ∨ a = '.' ∧ startsWith isNameStart rest = true) :
    s.readName text file = some (s.past text file (name a rest)) := by
  have ho : OpensToken ' ' a rest (name a rest) := .name ha
  rw [readName,Cursor.skipName_eq h (ha.imp_right And.left),Nat.add_comm]
  simp only [Option.bind_eq_bind,Option.bind_some]
  rw [Cursor.slice_skip]
  refine congrArg some (emit_eq h hp ho ?_ rfl)
  rw [h,List.take_succ_cons]
  rfl

theorem pairKind?_nul (a : Char) : pairKind? a '\x00' = none := by
  apply Option.eq_none_iff_forall_ne_some.mpr
  intro kind hk
  rcases pairKind?_isSome hk with h | h | h <;> cases h

theorem readPunctuation_eq (h : s.cursor.ahead text = a :: rest)
    (hp : 1 ≤ s.cursor.position.column) (ha : isGap a = false) :
    s.readPunctuation text file a = some (s.past text file (punctuation a rest)) := by
  have ho : OpensToken ' ' a rest (punctuation a rest) := .punctuation ha
  have hpair : pairKind? a (s.cursor.peek text 1) = rest.head?.bind (pairKind? a) := by
    rw [Cursor.peek_eq,h]
    cases rest with
    | nil => exact pairKind?_nul a
    | cons b t => rfl
  rw [readPunctuation,Cursor.advance_eq h]
  simp only [Option.bind_eq_bind,Option.bind_some,hpair]
  rw [punctuation] at ho ⊢
  cases hk : rest.head?.bind (pairKind? a) with
  | some kind =>
    obtain ⟨b,hb,-⟩ := Option.bind_eq_some_iff.mp hk
    obtain ⟨t,rfl⟩ := List.head?_eq_some_iff.mp hb
    have h1 : (s.cursor.skip text 1).ahead text = b :: t := by rw [Cursor.ahead_skip,h]; rfl
    have hpeek : s.cursor.peek text 1 = b := by rw [Cursor.peek_eq,h]; rfl
    rw [hk] at ho
    simp only [Cursor.advance_eq h1,Cursor.skip_skip,Option.bind_some,hpeek]
    exact congrArg some (emit_eq h hp ho rfl (by rw [h]; rfl))
  | none =>
    rw [hk] at ho
    cases hs : singleKind? a with
    | some kind =>
      rw [hs] at ho
      exact congrArg some (emit_eq h hp ho rfl (by rw [h]; rfl))
    | none =>
      rw [hs] at ho
      exact congrArg some (emit_eq h hp ho rfl (by rw [h]; rfl))

theorem readWithinLine_eq (h : s.cursor.ahead text = a :: rest) (hc : s.cursor.Placed text) :
    s.readWithinLine text file =
      some (s.past text file (withinLine (previous text s.cursor.offset) a rest)) := by
  have hp := hc.column_pos
  have ha : text[s.cursor.offset]? = some a := by rw [Cursor.getElem?_offset,h]; rfl
  have hnext : ∀ p : Char → Bool, p '\x00' = false →
      p (s.cursor.peek text 1) = startsWith p rest := fun p hn => Cursor.peek_one hn h
  rw [readWithinLine,ha]
  simp only [Option.bind_eq_bind,Option.bind_some]
  rw [hnext isDigit (by decide),hnext isNameStart (by decide),hc.startsComment_eq,withinLine]
  split_ifs with hgap hslash hquote htick hdigit hname
  · rw [Cursor.advance_eq h,past_of_gap rfl]
    rfl
  · rw [Cursor.advanceWhile_eq,past_of_gap rfl,h,run_cons,hslash.1]
    rfl
  · subst hquote
    cases hs : stringRun rest with
    | some n => exact readString_closed h hp hs
    | none => exact readString_open h hp hs
  · subst htick
    exact readSymbol_eq h hp
  · exact readNumber_eq h hp (by simpa [OpensNumber] using hdigit)
  · exact readName_eq h hp (by simpa using hname)
  · exact readPunctuation_eq h hp (by simpa using hgap)

theorem lineForm?_of_short {t : Text} (h : ∀ c d s, trimRight (firstLine t) ≠ c :: d :: s)
    (hslash : trimRight (firstLine t) ≠ ['/']) (hback : trimRight (firstLine t) ≠ ['\\']) :
    lineForm? t = none := by
  rw [lineForm?]
  split
  · exact absurd ‹_› hslash
  · exact absurd ‹_› hback
  · exact absurd ‹_› (h _ _ _)
  · rfl

/-- A command is its line up to the blanks at the end of that. -/
theorem exists_command {d : Char} {line : Text} (file : Text) (h : s.cursor.ahead text = a :: rest)
    (hc : s.cursor.Placed text) (hl : trimRight (firstLine (a :: rest)) = '\\' :: d :: line)
    (hd : isBlank d = false) :
    ∃ c, s.cursor.advanceBy text ('\\' :: d :: line).length = some c ∧
      s.emit file .command ('\\' :: d :: line) c none =
        s.past text file ⟨.token .command none,line.length + 1⟩ := by
  have hprefix := (isPrefix_trimRight _).trans (isPrefix_firstLine (a :: rest))
  rw [hl] at hprefix
  refine ⟨_,Cursor.advanceBy_eq (h ▸ hprefix.length_le),?_⟩
  have ho : OpensToken '\n' a rest ⟨.token .command none,line.length + 1⟩ :=
    .command d line rfl hl hd
  refine emit_eq h hc.column_pos ho rfl ?_
  rw [h]
  exact List.prefix_iff_eq_take.mp hprefix

/-- What takes a line from its beginning on is read as far as its form goes. -/
theorem readLineForm_eq (h : s.cursor.ahead text = a :: rest) (hc : s.cursor.Placed text) :
    s.readLineForm text file = some ((lineForm? (a :: rest)).map (s.past text file)) := by
  have hline : lineFrom text s.cursor.offset = firstLine (a :: rest) := by
    rw [lineFrom,show text.drop s.cursor.offset = _ from h]
  rw [readLineForm,hline]
  by_cases hslash : trimRight (firstLine (a :: rest)) = ['/']
  · have hpos : 0 < (blockComment (a :: rest)).length := List.length_pos_iff.mpr fun hn =>
      List.cons_ne_nil a rest (blockComment_eq_nil hn)
    rw [hslash,if_pos rfl,Cursor.skipBlockComment_eq,h,lineForm?_of_slash hslash,Option.map_some,
      past_of_gap rfl,Nat.sub_add_cancel hpos]
    rfl
  rw [if_neg hslash]
  by_cases hback : trimRight (firstLine (a :: rest)) = ['\\']
  · have hall : run (fun _ => true) (a :: rest) = (a :: rest).length := by
      rw [run,List.takeWhile_eq_self_iff.mpr fun _ _ => rfl]
    rw [hback,if_pos rfl,Cursor.advanceWhile_eq,h,lineForm?_of_backslash hback,Option.map_some,
      past_of_gap rfl,hall]
    rfl
  rw [if_neg hback]
  rcases hl : trimRight (firstLine (a :: rest)) with _ | ⟨c,_ | ⟨d,line⟩⟩
  · rw [lineForm?_of_short (by simp [hl]) hslash hback]
    rfl
  · rw [lineForm?_of_short (by simp [hl]) hslash hback]
    simp
  · rw [lineForm?_of_two hl]
    by_cases hcd : c = '\\' ∧ isBlank d = false
    · obtain ⟨rfl,hd⟩ := hcd
      obtain ⟨c,hadvance,hemit⟩ := exists_command file h hc hl hd
      rw [if_pos ⟨rfl,by simpa using hd⟩,if_pos ⟨rfl,hd⟩,Option.map_some,hadvance,← hemit]
      rfl
    · rw [if_neg hcd,if_neg (by simpa using hcd)]
      rfl

/-- A round goes past the lexeme that is ahead. -/
theorem round_eq (h : s.cursor.ahead text = a :: rest) (hc : s.cursor.Placed text) :
    s.round text file =
      some (s.past text file (lexeme (previous text s.cursor.offset) a rest)) := by
  rw [round,lexeme]
  by_cases hp : previous text s.cursor.offset = '\n'
  · rw [if_pos hp,if_pos (hc.column_eq_one_iff.mpr hp),readLineForm_eq h hc]
    cases lineForm? (a :: rest) with
    | none => exact readWithinLine_eq h hc
    | some e => rfl
  · rw [if_neg hp,if_neg (hc.column_eq_one_iff.not.mpr hp)]
    exact readWithinLine_eq h hc

end

end Scan

/-! Whole scans -/

section
variable {text file : Text} {s : Scan}

/-- The scan at the end of the text, with the tokens of all lexemes that were ahead. -/
def Scan.finished (text file : Text) (s : Scan) : Scan :=
  ⟨s.cursor.skip text (s.cursor.ahead text).length,
    s.tokens ++ locate file s.tokens.length s.cursor.position
      (lexemes (previous text s.cursor.offset) (s.cursor.ahead text))⟩

theorem Scan.finished_past {a : Char} {rest : Text} (h : s.cursor.ahead text = a :: rest) :
    (s.past text file (lexeme (previous text s.cursor.offset) a rest)).finished text file =
      s.finished text file := by
  have hle := lexeme_le (previous text s.cursor.offset) a rest
  have hprevious : previous text (s.cursor.offset +
      ((lexeme (previous text s.cursor.offset) a rest).more + 1)) =
      (rest.take (lexeme (previous text s.cursor.offset) a rest).more).getLastD a := by
    rw [previous,List.take_add,show text.drop s.cursor.offset = _ from h,List.take_succ_cons,
      getLastD_append_cons]
  rw [finished,finished,past]
  generalize he : lexeme (previous text s.cursor.offset) a rest = e at hle hprevious
  have hlexemes : lexemes (previous text s.cursor.offset) (a :: rest) =
      [⟨e.shape,a :: rest.take e.more⟩] ++
        lexemes ((rest.take e.more).getLastD a) (rest.drop e.more) := by
    rw [lexemes,he]
    rfl
  have hskip : (s.cursor.skip text (e.more + 1)).offset = s.cursor.offset + (e.more + 1) := rfl
  have hposition : (s.cursor.skip text (e.more + 1)).position =
      s.cursor.position.advance (spelling [⟨e.shape,a :: rest.take e.more⟩]) := by
    simp [Cursor.skip,h]
  simp only [Cursor.ahead_skip,Cursor.skip_skip,hskip,hprevious,hposition]
  rw [h,hlexemes,locate_append,List.append_assoc,List.length_append,List.take_succ_cons,
    List.drop_succ_cons,List.length_drop,List.length_cons,Nat.add_right_comm,
    Nat.add_sub_of_le hle]

theorem repeatWhile_round (hc : s.cursor.Placed text) :
    repeatWhile (·.cursor.isInside text) (Scan.round text file) text.length s =
      some (s.finished text file) := by
  refine repeatWhile_eq (P := fun s => s.cursor.Placed text) (Scan.finished text file)
    (fun s => (s.cursor.ahead text).length) (fun s hc hs => ?_) (fun s hc hs => ?_) hc
    (s.cursor.length_ahead_le text)
  · rw [Cursor.isInside_eq,Bool.not_eq_false',List.isEmpty_iff] at hs
    simp [Scan.finished,hs,lexemes,locate]
  · rw [Cursor.isInside_eq,Bool.not_eq_true',List.isEmpty_eq_false_iff] at hs
    obtain ⟨a,rest,h⟩ := List.exists_cons_of_ne_nil hs
    have hle := lexeme_le (previous text s.cursor.offset) a rest
    refine ⟨_,Scan.round_eq h hc,hc.skip ?_,?_,Scan.finished_past h⟩
    · rw [h,List.length_cons]
      omega
    · rw [Scan.past,Cursor.ahead_skip,h,List.length_drop,List.length_cons]
      omega

theorem scan_eq (text file : Text) : scan text file = some (tokenize file text) := by
  rw [scan,repeatWhile_round (.start text)]
  rfl

theorem length_locate_le (file : Text) (i : Nat) (p : Position) (ls : List Lexeme) :
    (locate file i p ls).length ≤ ls.length := by
  induction ls generalizing i p with
  | nil => exact le_rfl
  | cons l ls ih =>
    rw [locate]
    cases l.shape with
    | token kind error => exact Nat.succ_le_succ (ih _ _)
    | blank => exact Nat.le_succ_of_le (ih _ _)
    | lineComment => exact Nat.le_succ_of_le (ih _ _)
    | blockComment => exact Nat.le_succ_of_le (ih _ _)
    | scriptEnd => exact Nat.le_succ_of_le (ih _ _)

theorem length_lexemes_le (p : Char) (t : Text) : (lexemes p t).length ≤ t.length := by
  fun_induction lexemes p t with
  | case1 => exact le_rfl
  | case2 p c rest e ih =>
    rw [List.length_drop] at ih
    simp only [List.length_cons]
    omega

/-- A scan of a text goes over characters of the text only: it would break off at the first step
beyond, and in a loop that takes more steps than there are characters. Each round, wherever in the
text it begins, ends further on, and the rounds come to an end with the tokens of the text, of which
there are no more than characters. -/
structure Completes (file text : Text) : Prop where
  bounded : ∀ c : Cursor, c.advance text = none ↔ text.length ≤ c.offset
  onward : ∀ (k : Fin text.length) (tokens : List Token), ∃ s,
    Scan.round text file ⟨.ofOffset text k,tokens⟩ = some s ∧ s.cursor.Placed text ∧
      k < s.cursor.offset
  tokens : scan text file = some (tokenize file text)
  few : (tokenize file text).length ≤ text.length

theorem scan_completes (file text : Text) : Completes file text where
  bounded _ := Cursor.advance_eq_none_iff
  onward k tokens := by
    have hc : (Cursor.ofOffset text k).Placed text := ⟨k.isLt.le,rfl⟩
    have hrest : text.drop k = text[k] :: text.drop (k + 1) := List.drop_eq_getElem_cons k.isLt
    have hle := lexeme_le (previous text k) text[k] (text.drop (k + 1))
    refine ⟨_,Scan.round_eq hrest hc,hc.skip ?_,Nat.lt_add_of_pos_right (Nat.succ_pos _)⟩
    rw [show (Cursor.ofOffset text k).ahead text = _ from hrest,List.length_cons]
    exact Nat.succ_le_succ hle
  tokens := scan_eq text file
  few := (length_locate_le _ _ _ _).trans (length_lexemes_le _ _)

end
end Scanning
end QScope
