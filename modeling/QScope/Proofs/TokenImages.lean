import QScope.Proofs.EditApplication

/-! # Token images: a token is read again from its image alone

Nothing around its slice makes a token what it is. Only the iterators that open with a slash or a
backslash are something else on a line of their own: a comment, the end of a script or a command. -/
namespace QScope.Lexing
open CharacterClasses TokenExtents Texts

section
variable {x u : Text}

/-! What a scanner takes, it takes again where nothing follows -/

theorem startsWith_of_append {p : Char → Bool} (h : startsWith p (x ++ u) = true) (hx : x ≠ []) :
    startsWith p x = true := by
  cases x with
  | nil => exact absurd rfl hx
  | cons c x => exact h

theorem nameRun_cut (hn : nameRun (x ++ u) = x.length) : nameRun x = x.length := by
  simpa [hn] using nameRun_take (x ++ u)

theorem symbolRun_cut {handle : Bool} (hn : symbolRun handle (x ++ u) = x.length) :
    symbolRun handle x = x.length := by
  induction x generalizing handle with
  | nil => rfl
  | cons c x ih =>
    rw [List.cons_append,symbolRun] at hn
    rw [symbolRun]
    split at hn
    · rename_i hc
      have hx : symbolRun ((x ++ u).head? == some ':') (x ++ u) = x.length := by simpa using hn
      -- a colon directly behind the backtick belongs to the symbol
      have hhead : (x.head? == some ':') = ((x ++ u).head? == some ':') := by
        cases x with
        | cons d x => rfl
        | nil =>
          cases u with
          | nil => rfl
          | cons d u =>
            refine (beq_eq_false_iff_ne.mpr fun hd => ?_).symm
            obtain rfl : d = ':' := Option.some.inj hd
            simp [symbolRun] at hx
      rw [if_pos hc,hhead,ih hx,List.length_cons]
    · rename_i hc
      rw [if_neg hc]
      split at hn
      · rename_i hw
        rw [if_pos hw,ih (by simpa using hn),List.length_cons]
      · simp at hn

theorem string_cut (hn : (string (x ++ u)).more = x.length) : string x = string (x ++ u) := by
  rw [string] at hn
  rw [string,string]
  cases hs : stringRun (x ++ u) with
  | some n =>
    rw [hs] at hn
    have hle : n ≤ x.length := hn.le
    have hx := stringRun_append (v := []) hs hle
    rw [List.append_nil] at hx
    simp only [hx]
    rw [List.take_append_of_le_length (by omega)]
  | none =>
    rw [hs] at hn
    have hx : stringRun x = none := by
      refine Option.eq_none_iff_forall_ne_some.mpr fun n hx => ?_
      have h := stringRun_append (u := []) (v := u) ((List.append_nil x).symm ▸ hx)
        (stringRun_le hx)
      rw [hs] at h
      cases h
    have hline : firstLine x = x := by
      have hp := List.prefix_iff_eq_take.mp (isPrefix_firstLine (x ++ u))
      rw [show (firstLine (x ++ u)).length = x.length from hn,List.take_left] at hp
      exact firstLine_of_notMem (hp ▸ newline_notMem_firstLine (x ++ u))
    simp only [hx,hline,show (firstLine (x ++ u)).length = x.length from hn]

/-! Numbers -/

theorem ne_nil_of_numberRun (hd : startsWith isDigit (x ++ u) = true)
    (hn : numberRun (x ++ u) ≤ x.length) : x ≠ [] := by
  rintro rfl
  cases u with
  | nil => cases hd
  | cons d u =>
    have hpos := numberRun_pos (.inl hd : OpensNumber d u)
    rw [List.nil_append] at hn
    exact absurd hn (Nat.not_le_of_lt hpos)

/-- The digits behind a mark of time or exponent belong to the number. -/
theorem startsWith_of_numberRun (hd : startsWith isDigit (x ++ u) = true)
    (hn : numberRun (x ++ u) ≤ x.length) : startsWith isDigit x = true :=
  startsWith_of_append hd (ne_nil_of_numberRun hd hn)

theorem joinsNumber_cut {c : Char} (hc : joinsNumber c (x ++ u) = true)
    (hn : numberRun (x ++ u) ≤ x.length) : joinsNumber c x = true := by
  unfold joinsNumber at hc
  split at hc
  · cases x with
    | nil => rfl
    | cons d x => exact hc
  · obtain ⟨hd,hdd⟩ := Bool.and_eq_true_iff.mp hc
    obtain ⟨d,y,rfl⟩ := List.exists_cons_of_ne_nil (ne_nil_of_numberRun hd hn)
    have hdigit : isDigit d = true := hd
    rw [List.cons_append,numberRun_cons,hdigit,Bool.true_or,if_pos rfl] at hn
    exact Bool.and_eq_true_iff.mpr ⟨hdigit,startsWith_of_numberRun hdd (Nat.le_of_succ_le_succ hn)⟩
  · exact startsWith_of_numberRun hc hn
  · exact startsWith_of_numberRun hc hn
  · exact startsWith_of_numberRun hc hn
  · cases hc

theorem joinsNumber_of_append {c : Char} (hd : c ≠ '.') (hc : joinsNumber c x = true) :
    joinsNumber c (x ++ u) = true := by
  unfold joinsNumber at hc
  split at hc
  · exact absurd rfl hd
  · obtain ⟨h,hh⟩ := Bool.and_eq_true_iff.mp hc
    cases x with
    | nil => cases h
    | cons d x => exact Bool.and_eq_true_iff.mpr ⟨h,startsWith_append hh u⟩
  · exact startsWith_append hc u
  · exact startsWith_append hc u
  · exact startsWith_append hc u
  · cases hc

/-- The run of a number is the same where only letters and digits stand behind it. -/
theorem numberRun_cut : ∀ {x : Text}, numberRun (x ++ u) ≤ x.length →
    (∀ c ∈ x.drop (numberRun (x ++ u)), isAlphanumeric c = true) → numberRun x = numberRun (x ++ u)
  | [],hn,_ => (Nat.le_zero.mp hn).symm
  | c :: x,hn,ha => by
    rw [List.cons_append,numberRun_cons] at hn ha
    rw [List.cons_append,numberRun_cons,numberRun_cons]
    split at hn
    · rename_i hc
      have hx : numberRun (x ++ u) ≤ x.length := by simpa using hn
      have hcx : (isDigit c || joinsNumber c x) = true := by
        rw [Bool.or_eq_true] at hc ⊢
        exact hc.imp_right fun h => joinsNumber_cut h hx
      rw [if_pos hc] at ha
      rw [if_pos hcx,if_pos hc,numberRun_cut hx (by simpa using ha)]
    · rename_i hc
      rw [if_neg hc] at ha
      have hdot : c ≠ '.' := by
        rintro rfl
        have := ha '.' (by simp)
        revert this
        decide
      have hcx : ¬(isDigit c || joinsNumber c x) = true := by
        rw [Bool.or_eq_true] at hc ⊢
        exact fun h => hc (h.imp_right (joinsNumber_of_append hdot))
      rw [if_neg hcx,if_neg hc]
      split at hn
      · rename_i he
        rw [if_pos he] at ha
        rw [if_pos he]
        cases x with
        | nil => simp at hn
        | cons s x =>
          have hd : startsWith isDigit (x ++ u) = true := by
            simpa using (Bool.and_eq_true_iff.mp he).2
          have hx : numberRun (x ++ u) ≤ x.length := by simpa using hn
          have hs : (c = 'e' && startsWith isSign (s :: x) &&
              startsWith isDigit ((s :: x).drop 1)) = true := by
            rw [Bool.and_eq_true] at he ⊢
            exact ⟨he.1,startsWith_of_numberRun hd hx⟩
          rw [if_pos hs,List.drop_succ_cons,List.drop_zero,
            numberRun_cut hx (by simpa using ha)]
          rfl
      · rename_i he
        rw [if_neg he,if_neg]
        intro h
        refine he ?_
        rw [Bool.and_eq_true,Bool.and_eq_true] at h ⊢
        cases x with
        | nil => cases h.1.2
        | cons s x => exact ⟨h.1,startsWith_append h.2 u⟩
termination_by x => x.length

theorem decimalNumber_cut (hn : (decimalNumber (x ++ u)).1 = x.length) :
    decimalNumber x = decimalNumber (x ++ u) := by
  obtain ⟨hle,hsuffix,-⟩ := suffix_of_decimalNumber hn
  have hall : ∀ c ∈ x.drop (numberRun (x ++ u)), isAlphanumeric c = true := fun c hc =>
    List.mem_takeWhile_imp (hsuffix.symm ▸ hc)
  rw [decimalNumber,decimalNumber,numberRun_cut hle hall,List.drop_append_of_le_length hle,hsuffix,
    List.takeWhile_eq_self_iff.mpr hall,List.take_append_of_le_length hle]

theorem numberExtent_cut (hn : (numberExtent (x ++ u)).1 = x.length) :
    numberExtent x = numberExtent (x ++ u) := by
  by_cases hx : ∃ y, x = '0' :: 'x' :: y
  · obtain ⟨y,rfl⟩ := hx
    have h := byteNumber_append (u := u) (v := []) (fun _ => rfl) (x := y) hn
    rwa [List.append_nil] at h
  · have hu : ∀ r, x ++ u ≠ '0' :: 'x' :: r := fun r hr => hx (exists_byte_of_append hn hr)
    rw [numberExtent_of_ne hu] at hn ⊢
    rw [numberExtent_of_ne fun r hr => hx ⟨r,hr⟩]
    exact decimalNumber_cut hn

theorem number_cut {c : Char} (hc : OpensNumber c (x ++ u))
    (hn : (number c (x ++ u)).more = x.length) : number c x = number c (x ++ u) := by
  have := numberExtent_cut (numberExtent_of_more hc hn)
  rw [number,number,this,List.cons_append]

/-! Lexemes -/

/-- A dot opens a number with a digit behind it. -/
theorem more_of_dot_digit {t : Text} (ht : startsWith isDigit t = true) (p : Char) :
    (withinLine p '.' t).more ≠ 0 := by
  have ho : OpensNumber '.' t := .inr ⟨rfl,ht⟩
  obtain ⟨d,r,rfl⟩ : ∃ d r, t = d :: r := List.exists_cons_of_ne_nil fun h => by
    rw [h] at ht
    cases ht
  have hw : withinLine p '.' (d :: r) = number '.' (d :: r) := by
    simp [withinLine,ht,show isGap '.' = false by decide]
  have hd : 0 < numberRun (d :: r) := numberRun_pos (.inl ht)
  rw [hw,number,numberExtent_of_ne (by simp),decimalNumber,numberRun_cons,
    if_pos (joins_of_opensNumber ho)]
  dsimp only
  omega

/-- What a dot opens shows in its own slice. -/
theorem dot_cut {q : Char → Bool}
    (hq : ∀ t p, startsWith q t = true → (withinLine p '.' t).more ≠ 0)
    {p c : Char} (hn : (withinLine p c (x ++ u)).more = x.length) :
    (c == '.' && startsWith q x) = (c == '.' && startsWith q (x ++ u)) := by
  cases x with
  | cons d x => rfl
  | nil =>
    by_cases hc : c = '.'
    · subst hc
      have hu : startsWith q u = false := Bool.eq_false_iff.mpr fun h => hq u p h hn
      rw [List.nil_append,hu]
      rfl
    · rw [beq_eq_false_iff_ne.mpr hc,Bool.false_and,Bool.false_and]

theorem punctuation_cut {c : Char} (hn : (punctuation c (x ++ u)).more = x.length) :
    punctuation c x = punctuation c (x ++ u) := by
  cases x with
  | cons d x => rfl
  | nil =>
    have hu : u.head?.bind (pairKind? c) = none := by
      refine Option.eq_none_iff_forall_ne_some.mpr fun kind hk => ?_
      rw [List.nil_append,punctuation,hk] at hn
      cases hn
    rw [List.nil_append,punctuation,punctuation,hu]
    rfl

theorem symbol_cut (hn : (symbol (x ++ u)).more = x.length) : symbol x = symbol (x ++ u) := by
  have hn : symbolRun ((x ++ u).head? == some ':') (x ++ u) = x.length := hn
  cases x with
  | nil => rw [symbol,symbol,hn]; rfl
  | cons d x =>
    have hx : symbolRun ((d :: x).head? == some ':') (d :: x) = (d :: x).length := symbolRun_cut hn
    rw [symbol,symbol,hn,hx]

theorem name_cut {c : Char} (hn : (name c (x ++ u)).more = x.length) :
    name c x = name c (x ++ u) := by
  have hn : nameRun (x ++ u) = x.length := hn
  rw [name,name,nameRun_cut hn,hn,List.take_left,List.take_length]

theorem withinLine_cut {p c : Char} (hs : c ≠ '/')
    (hn : (withinLine p c (x ++ u)).more = x.length) :
    withinLine '\n' c x = withinLine p c (x ++ u) := by
  have hdigit := dot_cut (fun _ p h => more_of_dot_digit h p) hn
  have hname := dot_cut (fun _ p h => more_of_dot h p) hn
  have hslash : ∀ q, ¬(c = '/' ∧ opensComment q = true) := fun q h => hs h.1
  unfold withinLine at hn ⊢
  rw [if_neg (hslash p)] at hn ⊢
  rw [if_neg (hslash '\n'),hdigit,hname]
  split_ifs at hn ⊢ with hgap hquote htick hnumber hletter
  · rfl
  · exact string_cut hn
  · exact symbol_cut hn
  · exact number_cut (by simpa [OpensNumber] using hnumber) hn
  · exact name_cut hn
  · exact punctuation_cut hn

/-- A command is its line without the blanks behind, so that the line may as well end there. -/
theorem lineForm?_command_cut {c d : Char} {line : Text}
    (h : trimRight (firstLine (c :: x ++ u)) = '\\' :: d :: line) (hd : isBlank d = false)
    (hn : line.length + 1 = x.length) :
    lineForm? (c :: x) = some ⟨.token .command none,x.length⟩ := by
  have hp := List.prefix_iff_eq_take.mp
    ((isPrefix_trimRight _).trans (isPrefix_firstLine (c :: x ++ u)))
  have hx : '\\' :: d :: line = c :: x := by
    rw [h,List.length_cons,List.length_cons,hn] at hp
    rw [hp,List.cons_append,List.take_succ_cons,List.take_left]
  have hline : firstLine (c :: x) = c :: x := by
    refine firstLine_of_notMem ?_
    rw [← hx,← h]
    exact fun hm => newline_notMem_firstLine _ ((isPrefix_trimRight _).subset hm)
  have htrim : trimRight (firstLine (c :: x)) = '\\' :: d :: line := by
    rw [hline,← hx,← h,trimRight_trimRight]
  rw [lineForm?_of_two htrim,if_pos ⟨rfl,hd⟩,hn]

/-- Slashes and backslashes that open neither a comment nor a line form are iterators, with a colon
directly behind them if there is one. -/
theorem punctuation_of_slash {c : Char} (hc : c = '/' ∨ c = '\\') (t : Text) :
    punctuation c t = ⟨.token .iterator none,if t.head? = some ':' then 1 else 0⟩ := by
  have hpair : ∀ d, pairKind? c d = if d = ':' then some .iterator else none := by
    intro d
    have hp : [c,d] ∉ pairs := by rcases hc with rfl | rfl <;> simp [pairs]
    have ho : isOperator c = false := by rcases hc with rfl | rfl <;> decide
    have hi : isIterator c = true := by rcases hc with rfl | rfl <;> decide
    have hne : c ≠ ':' := by rcases hc with rfl | rfl <;> decide
    simp [pairKind?,hp,ho,hi,hne]
  have hsingle : singleKind? c = some .iterator := by rcases hc with rfl | rfl <;> decide
  cases t with
  | nil => simp [punctuation,hsingle]
  | cons d t =>
    by_cases hd : d = ':'
    · simp [punctuation,hpair,hd]
    · simp [punctuation,hpair,hsingle,hd]

theorem withinLine_of_slash {p c : Char} {t : Text} (hc : c = '/' ∨ c = '\\')
    (hs : (withinLine p c t).shape.isToken = true) : withinLine p c t = punctuation c t := by
  have hgap : isGap c = false := by rcases hc with rfl | rfl <;> decide
  have hdigit : isDigit c = false := by rcases hc with rfl | rfl <;> decide
  have hname : isNameStart c = false := by rcases hc with rfl | rfl <;> decide
  have hdot : (c == '.') = false := by rcases hc with rfl | rfl <;> decide
  have hquote : c ≠ '"' := by rcases hc with rfl | rfl <;> decide
  have htick : c ≠ '\x60' := by rcases hc with rfl | rfl <;> decide
  rw [withinLine,hgap,if_neg Bool.false_ne_true] at hs ⊢
  split at hs
  · cases hs
  · rename_i hcomment
    rw [if_neg hcomment,if_neg hquote,if_neg htick,hdigit,hname,hdot,Bool.false_and,Bool.false_and,
      Bool.false_or,if_neg Bool.false_ne_true,if_neg Bool.false_ne_true]

/-- A token is a command or what its first character opens within a line. -/
theorem lexeme_cases {p c : Char} {t : Text} {kind : Kind} {error : Option LexicalError}
    (hs : (lexeme p c t).shape = .token kind error) :
    (∃ d line, trimRight (firstLine (c :: t)) = '\\' :: d :: line ∧ isBlank d = false ∧
      lexeme p c t = ⟨.token .command none,line.length + 1⟩) ∨
    lexeme p c t = withinLine p c t := by
  rw [lexeme] at hs ⊢
  split at hs
  · rename_i hp
    rw [if_pos hp]
    cases hl : lineForm? (c :: t) with
    | none => exact .inr rfl
    | some e =>
      rw [hl,Option.getD_some] at hs
      rw [lineForm?] at hl
      split at hl
      · obtain rfl := Option.some.inj hl
        cases hs
      · obtain rfl := Option.some.inj hl
        cases hs
      · rename_i d line htrim
        split at hl
        · cases hl
        · rename_i hd
          obtain rfl := Option.some.inj hl
          exact .inl ⟨d,line,htrim,Bool.not_eq_true _ ▸ hd,rfl⟩
      · cases hl
  · rename_i hp
    exact .inr (if_neg hp)

/-- A token is the same at the left margin with nothing behind it. -/
theorem lexeme_cut {p c : Char} {kind : Kind} {error : Option LexicalError}
    (hs : (lexeme p c (x ++ u)).shape = .token kind error)
    (hn : (lexeme p c (x ++ u)).more = x.length)
    (hk : ¬(kind = .iterator ∧ (c = '/' ∨ c = '\\'))) :
    lexeme '\n' c x = lexeme p c (x ++ u) := by
  rcases lexeme_cases hs with ⟨d,line,htrim,hd,he⟩ | he
  · rw [he] at hn ⊢
    dsimp only at hn
    rw [lexeme,if_pos rfl,lineForm?_command_cut htrim hd hn,Option.getD_some,hn]
  · rw [he] at hs hn ⊢
    have hc : ¬(c = '/' ∨ c = '\\') := by
      intro hc
      rw [withinLine_of_slash hc (by rw [hs]; rfl),punctuation_of_slash hc] at hs
      exact hk ⟨(Shape.token.inj hs).1.symm,hc⟩
    rw [not_or] at hc
    rw [lexeme,if_pos rfl,lineForm?_eq_none hc.1 hc.2,Option.getD_none,withinLine_cut hc.1 hn]

end

/-! Tokens -/

/-- An iterator that opens with a slash or a backslash, which means something else on a line of its
own. -/
def OpensLine (t : Token) : Prop :=
  t.kind = .iterator ∧ (t.image.head? = some '/' ∨ t.image.head? = some '\\')

/-- Lexemes are what their first character opens behind some other one. -/
theorem exists_lexeme {p : Char} {t : Text} {l : Lexeme} (h : l ∈ lexemes p t) :
    ∃ q c x u, l = ⟨(lexeme q c (x ++ u)).shape,c :: x⟩ ∧
      (lexeme q c (x ++ u)).more = x.length := by
  obtain ⟨as,bs,h⟩ := List.append_of_mem h
  obtain ⟨c,x,u,-,hl,-,hlex⟩ := exists_of_lexemes_eq h
  exact ⟨_,c,x,u,by rw [hlex,← hl],by rw [hlex]⟩

/-- A text that is one lexeme. -/
theorem tokenize_of_lexeme {c : Char} {x : Text} {kind : Kind} {error : Option LexicalError}
    (h : lexeme '\n' c x = ⟨.token kind error,x.length⟩) (file : Text) :
    tokenize file (c :: x) =
      [⟨kind,c :: x,⟨file,.origin,Position.origin.advance (c :: x).dropLast⟩,0,error⟩] := by
  rw [tokenize,lexemes,h]
  dsimp only
  rw [List.take_length,List.drop_length,lexemes,locate,locate]

/-- The images of such iterators: a slash or a backslash, alone or with a colon. -/
theorem image_of_opensLine {file text : Text} {t : Token} (ht : t ∈ tokenize file text)
    (hl : OpensLine t) :
    ∃ c, (c = '/' ∨ c = '\\') ∧ (t.image = [c] ∨ t.image = [c,':']) := by
  obtain ⟨q,c,x,u,he,hn⟩ := exists_lexeme (mem_of_locate ht)
  obtain ⟨hs,hi⟩ := Lexeme.mk.inj he
  have hc : c = '/' ∨ c = '\\' := by
    have hhead := hl.2
    rw [hi] at hhead
    exact hhead.imp Option.some.inj Option.some.inj
  refine ⟨c,hc,?_⟩
  rcases lexeme_cases hs.symm with ⟨d,line,-,-,hcommand⟩ | hw
  · rw [hcommand,hl.1] at hs
    cases hs
  rw [hw] at hs hn
  rw [withinLine_of_slash hc (by rw [← hs]; rfl),punctuation_of_slash hc] at hn
  rw [hi]
  cases x with
  | nil => exact .inl rfl
  | cons d x =>
    dsimp only at hn
    split at hn
    · rename_i hd
      obtain rfl : d = ':' := Option.some.inj hd
      obtain rfl := List.length_eq_zero_iff.mp (Nat.succ.inj hn).symm
      exact .inr rfl
    · cases hn

/-- On a line of their own they are comments, the end of the script or a command. -/
theorem kind_of_opensLine {file other text : Text} {t u : Token} (ht : t ∈ tokenize file text)
    (hl : OpensLine t) (hu : u ∈ tokenize other t.image) : u.kind = .command := by
  have hm := mem_of_locate hu
  obtain ⟨c,rfl | rfl,hi | hi⟩ := image_of_opensLine ht hl
  · rw [hi,show lexemes '\n' ['/'] = [⟨.blockComment,['/']⟩] by decide +kernel] at hm
    simp at hm
  · rw [hi,show lexemes '\n' ['/',':'] = [⟨.lineComment,['/',':']⟩] by decide +kernel] at hm
    simp at hm
  · rw [hi,show lexemes '\n' ['\\'] = [⟨.scriptEnd,['\\']⟩] by decide +kernel] at hm
    simp at hm
  · rw [hi,show lexemes '\n' ['\\',':'] = [⟨.token .command none,['\\',':']⟩] by
      decide +kernel] at hm
    simp at hm
    exact hm.1.1

/-- A text that is the image of a token is that token alone, unless it opens a line. -/
theorem tokenize_image {file text : Text} {t : Token} (ht : t ∈ tokenize file text) (other : Text) :
    tokenize other t.image =
        [⟨t.kind,t.image,⟨other,.origin,Position.origin.advance t.image.dropLast⟩,0,t.error⟩] ↔
      ¬OpensLine t := by
  constructor
  · intro h hl
    have hu := kind_of_opensLine ht hl (h.symm ▸ List.mem_singleton_self _)
    rw [hl.1] at hu
    cases hu
  · intro hl
    obtain ⟨q,c,x,u,he,hn⟩ := exists_lexeme (mem_of_locate ht)
    obtain ⟨hs,hi⟩ := Lexeme.mk.inj he
    have hk : ¬(t.kind = .iterator ∧ (c = '/' ∨ c = '\\')) := by
      intro h
      refine hl ⟨h.1,?_⟩
      rw [hi]
      exact h.2.imp (congrArg some) (congrArg some)
    have hlex := lexeme_cut hs.symm hn hk
    rw [hi]
    refine tokenize_of_lexeme ?_ other
    rw [hlex,hs,← hn]

/-- An open quote with a backslash at the end of its line. -/
theorem tokenize_image_of_open_quote :
    (⟨.string,"\"b\\".toList,⟨[],⟨1,2⟩,⟨1,4⟩⟩,1,some .unterminatedString⟩ : Token) ∈
      tokenize [] "x\"b\\\nc".toList ∧
    tokenize [] "\"b\\".toList =
      [⟨.string,"\"b\\".toList,⟨[],⟨1,1⟩,⟨1,3⟩⟩,0,some .unterminatedString⟩] := by
  have h : (⟨.string,"\"b\\".toList,⟨[],⟨1,2⟩,⟨1,4⟩⟩,1,some .unterminatedString⟩ : Token) ∈
      tokenize [] "x\"b\\\nc".toList := by decide +kernel
  exact ⟨h,(tokenize_image h []).mpr fun hl => nomatch hl.1⟩

end QScope.Lexing
