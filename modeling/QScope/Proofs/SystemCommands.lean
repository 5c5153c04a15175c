import QScope.Proofs.EditApplication
import QScope.Proofs.SourceRows

/-! # System commands: a command is its line, and a blank behind it is a gap or a fault

The end of the line is trimmed of every blank, but only four kinds of them are gaps. Each of the
others is an operator of its own that starts on the line of the command. -/
namespace QScope
open CharacterClasses TokenExtents Texts

namespace Lexing

section
variable {c : Char} {p : Char} {b r : Text}

/-! Blanks at the end of a line -/

theorem ne_of_isBlank {k : Char} (hb : isBlank c = true) (hk : isBlank k = false) : c ≠ k := by
  rintro rfl
  rw [hb] at hk
  cases hk

theorem isWordChar_of_isBlank (hb : isBlank c = true) : isWordChar c = false :=
  Bool.eq_false_iff.mpr fun hw => ne_of_isBlank hb (isBlank_of_isWordChar hw) rfl

theorem singleKind?_of_isBlank (hb : isBlank c = true) : singleKind? c = none := by
  have hi : isIterator c = false := by
    simp [isIterator,ne_of_isBlank hb (k := '\'') (by decide),
      ne_of_isBlank hb (k := '/') (by decide),ne_of_isBlank hb (k := '\\') (by decide)]
  have ho : isOperator c = false := by
    refine Bool.eq_false_iff.mpr fun h => ?_
    have hall : "+-*%!&|<>=~,^#_$?@.".toList.all (!isBlank ·) = true := by decide
    have hc := List.all_eq_true.mp hall c (List.contains_iff_mem.mp h)
    rw [hb] at hc
    cases hc
  unfold singleKind?
  split
  all_goals first
    | exact absurd rfl (ne_of_isBlank hb (by decide))
    | rw [hi,ho]; rfl

theorem punctuation_of_isBlank (hb : isBlank c = true)
    (hr : ∀ d, r.head? = some d → isBlank d = true) :
    punctuation c r = ⟨.token .operator (some .unexpectedCharacter),0⟩ := by
  have hpair : r.head?.bind (pairKind? c) = none := by
    refine Option.eq_none_iff_forall_ne_some.mpr fun kind hk => ?_
    obtain ⟨d,hd,hp⟩ := Option.bind_eq_some_iff.mp hk
    rcases pairKind?_isSome hp with h | h | h
    all_goals exact ne_of_isBlank (hr d hd) (by decide) h
  simp only [punctuation,hpair,singleKind?_of_isBlank hb]

/-- Where blanks follow or the text ends, a blank that is no gap is a fault. -/
theorem lexeme_of_isBlank (hb : isBlank c = true) (hg : isGap c = false)
    (hr : ∀ d, r.head? = some d → isBlank d = true) (p : Char) :
    lexeme p c r = ⟨.token .operator (some .unexpectedCharacter),0⟩ := by
  have hne : ∀ {k : Char}, isBlank k = false → c ≠ k := ne_of_isBlank hb
  have hdot : (c == '.') = false := beq_eq_false_iff_ne.mpr (hne (by decide))
  have hw := isWordChar_of_isBlank hb
  simp only [isWordChar,isAlphanumeric,isLetter,isNumeral,Bool.or_eq_false_iff] at hw
  have hstart : isNameStart c = false := hw.1.1.1
  rw [lexeme,lineForm?_eq_none (hne (by decide)) (hne (by decide)),Option.getD_none,ite_self,
    withinLine,hg,if_neg Bool.false_ne_true,if_neg fun h => hne (k := '/') (by decide) h.1,
    if_neg (hne (by decide)),if_neg (hne (by decide)),hw.1.2.1,hstart,hdot,Bool.false_and,
    Bool.false_and,Bool.false_or,if_neg Bool.false_ne_true,if_neg Bool.false_ne_true,
    punctuation_of_isBlank hb hr]

/-- What a blank is read as where blanks follow or the text ends. -/
def blankLexeme (c : Char) : Lexeme :=
  ⟨if isGap c then .blank else .token .operator (some .unexpectedCharacter),[c]⟩

theorem lexemes_cons_of_isBlank (hb : isBlank c = true)
    (hr : ∀ d, r.head? = some d → isBlank d = true) (p : Char) :
    lexemes p (c :: r) = blankLexeme c :: lexemes c r := by
  have hlex : lexeme p c ([] ++ r) = ⟨(blankLexeme c).shape,0⟩ := by
    cases hg : isGap c with
    | true => simp only [blankLexeme,hg,if_true,List.nil_append,lexeme_of_isGap hg]
    | false =>
      simp only [blankLexeme,hg,Bool.false_eq_true,if_false,List.nil_append,
        lexeme_of_isBlank hb hg hr]
  exact lexemes_of_lexeme hlex

/-- Blanks up to the end of a line are read one by one. -/
theorem lexemes_append_of_isBlank (hb : ∀ c ∈ b, isBlank c = true)
    (hr : ∀ d, r.head? = some d → isBlank d = true) (p : Char) :
    lexemes p (b ++ r) = b.map blankLexeme ++ lexemes (b.getLastD p) r := by
  induction b generalizing p with
  | nil => rfl
  | cons c b ih =>
    obtain ⟨hc,hb⟩ := List.forall_mem_cons.mp hb
    have hhead : ∀ d, (b ++ r).head? = some d → isBlank d = true := by
      cases b with
      | nil => exact hr
      | cons d b => simpa using hb d List.mem_cons_self
    rw [List.cons_append,lexemes_cons_of_isBlank hc hhead,ih hb,List.getLastD_cons]
    rfl

theorem spelling_blankLexeme (b : Text) : spelling (b.map blankLexeme) = b := by
  induction b with
  | nil => rfl
  | cons c b ih => rw [List.map_cons,spelling_cons,ih]; rfl

/-- The faults among blanks. -/
theorem locate_blankLexeme (file : Text) (i : Nat) (p : Position) (b : Text) :
    (locate file i p (b.map blankLexeme)).map (fun u => (u.kind,u.image,u.error)) =
      (b.filter (!isGap ·)).map fun c => (.operator,[c],some .unexpectedCharacter) := by
  induction b generalizing i p with
  | nil => rfl
  | cons c b ih =>
    rw [List.map_cons,locate]
    cases hg : isGap c with
    | true => simp [blankLexeme,hg,ih]
    | false => simp [blankLexeme,hg,ih]

/-! The tokens that start on a line -/

variable {file t : Text} {token u : Token} {i : Nat} {pos : Position} {ls : List Lexeme}

/-- The tokens that start on the line with a given number. -/
def startingOn (line : Int) (tokens : List Token) : List Token :=
  tokens.filter (·.span.start.line == line)

/-- Lexemes without a newline keep their tokens on one line. -/
theorem line_of_locate (hn : '\n' ∉ spelling ls) (h : u ∈ locate file i pos ls) :
    u.span.start.line = pos.line := by
  obtain ⟨as,bs,rfl,hstart,-⟩ := locate_eq_of_mem h
  have has : '\n' ∉ spelling as := fun hm => hn (by
    rw [spelling_append]
    exact List.mem_append_left _ hm)
  rw [hstart,Position.line_advance_of_notMem _ has]

/-- Behind a newline every token starts on a later line. -/
theorem line_lt_of_locate {p : Char} (h : u ∈ locate file i pos (lexemes p ('\n' :: r))) :
    pos.line < u.span.start.line := by
  rw [locate_isGap rfl] at h
  obtain ⟨as,bs,-,hstart,-⟩ := locate_eq_of_mem h
  rw [hstart,Position.line_advance]
  simp only [Position.after,if_true]
  omega

/-- In front of the left margin every token starts on an earlier line. -/
theorem line_lt_of_margin {as : List Lexeme} (hlast : (spelling as).getLastD '\n' = '\n')
    (h : u ∈ locate file i pos as) (hu : u.image ≠ []) :
    u.span.start.line < (pos.advance (spelling as)).line := by
  obtain ⟨bs,cs,rfl,hstart,-⟩ := locate_eq_of_mem h
  rw [spelling_append,spelling_cons] at hlast ⊢
  dsimp only at hlast ⊢
  have hbehind : '\n' ∈ u.image ++ spelling cs := by
    have hne := List.append_ne_nil_of_left_ne_nil hu (spelling cs)
    rw [getLastD_append,List.getLastD_eq_getLast?,List.getLast?_eq_some_getLast hne,
      Option.getD_some] at hlast
    exact hlast ▸ List.getLast_mem hne
  have hpos := List.count_pos_iff.mpr hbehind
  rw [hstart,Position.line_advance,Position.line_advance,List.count_append]
  omega

theorem startingOn_of_eq {line : Int} {tokens : List Token}
    (h : ∀ u ∈ tokens, u.span.start.line = line) : startingOn line tokens = tokens :=
  List.filter_eq_self.mpr fun u hu => beq_iff_eq.mpr (h u hu)

theorem startingOn_of_ne {line : Int} {tokens : List Token}
    (h : ∀ u ∈ tokens, u.span.start.line ≠ line) : startingOn line tokens = [] :=
  List.filter_eq_nil_iff.mpr fun u hu he => h u hu (beq_iff_eq.mp he)

theorem startingOn_append (line : Int) (ts us : List Token) :
    startingOn line (ts ++ us) = startingOn line ts ++ startingOn line us :=
  List.filter_append ts us

theorem startingOn_cons_self (u : Token) (us : List Token) :
    startingOn u.span.start.line (u :: us) = u :: startingOn u.span.start.line us :=
  List.filter_cons_of_pos (beq_self_eq_true _)

/-- From within a line, what starts on it are the faults among the blanks up to its end. -/
theorem startingOn_behind {s : Text} (hb : ∀ d ∈ b, isBlank d = true) (hn : '\n' ∉ b)
    (hs : s = [] ∨ ∃ s', s = '\n' :: s') (file : Text) (i : Nat) (pos : Position) (p : Char) :
    startingOn pos.line (locate file i pos (lexemes p (b ++ s))) =
      locate file i pos (b.map blankLexeme) := by
  have hhead : ∀ d, s.head? = some d → isBlank d = true := by
    rcases hs with rfl | ⟨s',rfl⟩
    · simp
    · simp [isBlank_newline]
  have hspell : '\n' ∉ spelling (b.map blankLexeme) := by rwa [spelling_blankLexeme]
  have hline := pos.line_advance_of_notMem hspell
  have hlater : ∀ i, startingOn pos.line (locate file i
      (pos.advance (spelling (b.map blankLexeme))) (lexemes (b.getLastD p) s)) = [] := by
    intro i
    rcases hs with rfl | ⟨s',rfl⟩
    · rw [lexemes]
      rfl
    · exact startingOn_of_ne fun u hu => ne_of_gt (hline ▸ line_lt_of_locate hu)
  rw [lexemes_append_of_isBlank hb hhead,locate_append,startingOn_append,hlater,List.append_nil]
  exact startingOn_of_eq fun u hu => line_of_locate hspell hu

/-- The line of a command, and what starts there behind it. -/
theorem startingOn_command (hk : token ∈ tokenize file t) (hc : token.kind = .command) :
    ∃ b, token.span.start.column = 1 ∧ token.error = none ∧
      trimRight (token.image ++ b) = token.image ∧
      lineNumbered? t token.span.start.line = some (token.image ++ b) ∧
      startingOn token.span.start.line (tokenize file t) = token :: locate file (token.index + 1)
        (token.span.start.advance token.image) (b.map blankLexeme) := by
  obtain ⟨as,bs,hls,hstart,htokens⟩ := locate_eq_of_mem hk
  obtain ⟨c,x,r,ht,himage,hbs,hlex⟩ := exists_of_lexemes_eq hls
  dsimp only at himage
  rw [hc] at hlex
  obtain ⟨hp,herror,-,b,s,rfl,hblank,hn,hend,hline,htrim⟩ := line_of_command hlex
  rw [← himage] at hn htrim
  rw [List.mem_append,not_or] at hn
  refine ⟨b,?_,herror,htrim,?_,?_⟩
  · rw [hstart,Position.origin_advance,behindLast_of_getLastD hp]
    rfl
  · rw [hstart,ht,lineNumbered?_append,behindLast_of_getLastD hp,himage]
    exact congrArg some hline
  · have hfront : startingOn token.span.start.line (locate file 0 .origin as) = [] := by
      refine startingOn_of_ne fun u hu => ne_of_lt ?_
      have hmem : u ∈ tokenize file t := by
        rw [tokenize,htokens]
        exact List.mem_append_left _ hu
      rw [hstart]
      exact line_lt_of_margin hp hu (endsWithin_of_mem (mem_of_locate hmem)).1
    have hadvance := token.span.start.line_advance_of_notMem hn.1
    have hbehind := startingOn_behind hblank hn.2 hend file (token.index + 1)
      (token.span.start.advance token.image) (x.getLastD c)
    rw [hadvance] at hbehind
    rw [tokenize,htokens,startingOn_append,hfront,List.nil_append,startingOn_cons_self,hbs,hbehind]

/-- What starts on the line of a command: the command at the left margin, with the line as it is
trimmed, and behind it a fault for each trimmed blank that is no gap. So the command is alone on its
line exactly when all of these blanks are gaps. -/
structure TakesLine (t : Text) (tokens : List Token) (k : Token) (line : Text) : Prop where
  margin : k.span.start.column = 1
  numbered : lineNumbered? t k.span.start.line = some line
  image : k.image = trimRight line
  starting : (startingOn k.span.start.line tokens).map (fun u => (u.kind,u.image,u.error)) =
    (.command,k.image,none) :: ((line.drop k.image.length).filter (!isGap ·)).map fun c =>
      (.operator,[c],some .unexpectedCharacter)
  alone : startingOn k.span.start.line tokens = [k] ↔
    ∀ c ∈ line.drop k.image.length, isGap c = true

/-- Commands take their lines, but for the blanks at the end that are no gaps. -/
theorem tokenize_takesLine (hk : token ∈ tokenize file t) (hc : token.kind = .command) :
    ∃ line, TakesLine t (tokenize file t) token line := by
  obtain ⟨b,hcolumn,herror,htrim,hnumbered,hstarting⟩ := startingOn_command hk hc
  have hfaults := locate_blankLexeme file (token.index + 1)
    (token.span.start.advance token.image) b
  refine ⟨token.image ++ b,hcolumn,hnumbered,htrim.symm,?_,?_⟩
  · rw [hstarting,List.map_cons,hfaults,List.drop_left,hc,herror]
  · rw [hstarting,List.drop_left,List.cons_eq_cons,eq_self_iff_true,true_and,
      ← List.map_eq_nil_iff,hfaults,List.map_eq_nil_iff,List.filter_eq_nil_iff]
    simp

end

/-- A command with a form feed at the end of its line. -/
def feedBehind : Text := "\\l a\x0c\nb".toList

theorem takesLine_feedBehind : ∃ k ∈ tokenize [] feedBehind, k.kind = .command ∧
    ∃ line, TakesLine feedBehind (tokenize [] feedBehind) k line ∧ line = "\\l a\x0c".toList := by
  let k := (tokenize [] feedBehind).get ⟨0,by decide +kernel⟩
  have hk : k ∈ tokenize [] feedBehind := List.get_mem _ _
  have hc : k.kind = .command := by decide +kernel
  obtain ⟨line,hline⟩ := tokenize_takesLine hk hc
  have hnumbered : lineNumbered? feedBehind k.span.start.line = some "\\l a\x0c".toList := by
    decide +kernel
  exact ⟨k,hk,hc,line,hline,Option.some.inj (hline.numbered.symm.trans hnumbered)⟩

/-- The form feed is a token on the line of the command. -/
theorem command_not_alone :
    (tokenize [] feedBehind).map (fun u => (u.kind,u.image,u.span.start,u.error)) =
      [(.command,"\\l a".toList,⟨1,1⟩,none),
        (.operator,['\x0c'],⟨1,5⟩,some .unexpectedCharacter),(.identifier,['b'],⟨2,1⟩,none)] ∧
    ¬∀ t, ∀ k ∈ tokenize [] t, k.kind = .command →
      startingOn k.span.start.line (tokenize [] t) = [k] := by
  refine ⟨by decide +kernel,fun h => ?_⟩
  let k := (tokenize [] feedBehind).get ⟨0,by decide +kernel⟩
  have hk : k ∈ tokenize [] feedBehind := List.get_mem _ _
  have hlength := congrArg List.length (h feedBehind k hk (by decide +kernel))
  revert hlength
  decide +kernel

end Lexing
end QScope
