import QScope.Proofs.CursorMoves

/-! # Lexeme loops: comments, strings, symbols, numbers and names are as long as their lexemes -/
namespace QScope.Scanning.Cursor
open CharacterClasses TokenExtents Lexing Texts

variable {text : Text} {c : Cursor} {a : Char} {rest : Text} {n : Nat}

/-! Comments and strings -/

theorem skipCommentLine_last (h : '\n' ∉ c.ahead text) :
    c.skipCommentLine text = some (c.skip text (c.ahead text).length,
      trimRight (c.ahead text) == ['\\']) := by
  have hline : lineFrom text c.offset = c.ahead text := firstLine_of_notMem h
  have hend : (c.skip text (c.ahead text).length).isInside text = false := by
    rw [isInside_eq,ahead_skip,List.drop_length]
    rfl
  rw [skipCommentLine,hline,advanceBy_eq le_rfl]
  simp only [Option.bind_eq_bind,Option.bind_some,hend]
  rfl

theorem skipCommentLine_newline {s t : Text} (hs : '\n' ∉ s) (h : c.ahead text = s ++ '\n' :: t) :
    c.skipCommentLine text = some (c.skip text (s.length + 1),trimRight s == ['\\']) := by
  have hline : lineFrom text c.offset = s := by
    rw [lineFrom,show text.drop c.offset = _ from h,firstLine_append_newline hs]
  have ha : (c.skip text s.length).ahead text = '\n' :: t := by
    rw [ahead_skip,h,List.drop_left]
  have hin : (c.skip text s.length).isInside text = true := by
    rw [isInside_eq,ha]
    rfl
  rw [skipCommentLine,hline,advanceBy_eq (by rw [h]; simp)]
  simp only [Option.bind_eq_bind,Option.bind_some,hin,if_true]
  rw [advance_eq ha,skip_skip]
  rfl

/-- A block comment that is under way in `c` goes through the line that closes it. -/
theorem skipCommentLines_eq (text : Text) (c : Cursor) {n : Nat}
    (hn : (c.ahead text).length ≤ n) : ∃ closed,
    repeatWhile (fun (c,closed) => c.isInside text && !closed) (fun (c,_) => c.skipCommentLine text)
      n (c,false) = some (c.skip text (blockComment (c.ahead text)).length,closed) := by
  generalize ht : c.ahead text = t at hn
  induction t using lineInduction generalizing c n with
  | last s hs =>
    subst ht
    rw [blockComment_of_notMem hs]
    by_cases hnil : c.ahead text = []
    · refine ⟨false,?_⟩
      rw [hnil]
      exact repeatWhile_stop n (by simp [isInside_eq,hnil])
    · refine ⟨trimRight (c.ahead text) == ['\\'],?_⟩
      obtain ⟨m,rfl⟩ := Nat.exists_eq_add_one_of_ne_zero
        (Nat.ne_of_gt ((List.length_pos_iff.mpr hnil).trans_le hn))
      rw [repeatWhile_step m (by simp [isInside_eq,hnil]) (skipCommentLine_last hs)]
      exact repeatWhile_stop m (by simp [isInside_eq])
  | line s t hs ih =>
    have hstep := skipCommentLine_newline hs ht
    rw [List.length_append,List.length_cons] at hn
    obtain ⟨m,rfl⟩ := Nat.exists_eq_add_one_of_ne_zero (show n ≠ 0 by omega)
    rw [blockComment_append_newline hs]
    by_cases hc : trimRight s = ['\\']
    · refine ⟨true,?_⟩
      rw [hc] at hstep
      rw [repeatWhile_step m (by simp [isInside_eq,ht]) hstep,if_pos hc]
      simpa using repeatWhile_stop m (by simp)
    · have ha : (c.skip text (s.length + 1)).ahead text = t := by
        rw [ahead_skip,ht,List.drop_append]
        simp
      obtain ⟨closed,hclosed⟩ := ih _ ha (n := m) (by omega)
      refine ⟨closed,?_⟩
      rw [beq_eq_false_iff_ne.mpr hc] at hstep
      rw [repeatWhile_step m (by simp [isInside_eq,ht]) hstep,hclosed,skip_skip,if_neg hc,
        List.length_append,List.length_cons,Nat.add_right_comm,Nat.add_assoc s.length]

theorem skipBlockComment_eq (c : Cursor) :
    c.skipBlockComment text = some (c.skip text (blockComment (c.ahead text)).length) := by
  obtain ⟨closed,h⟩ := skipCommentLines_eq text c (length_ahead_le text c)
  rw [skipBlockComment,h]
  rfl

/-- The number of characters before the quote that closes a string, or of all if there is none. -/
def stringBody (t : Text) : Nat := ((stringRun t).map (· - 1)).getD t.length

theorem stringBody_quote (t : Text) : stringBody ('"' :: t) = 0 := rfl

theorem stringBody_escape (a : Char) (t : Text) :
    stringBody ('\\' :: a :: t) = 2 + stringBody t := by
  rw [stringBody,stringBody,stringRun]
  cases hs : stringRun t with
  | none =>
    simp
    omega
  | some n =>
    have := stringRun_pos hs
    simp
    omega

theorem stringBody_cons (hq : a ≠ '"') (he : a = '\\' → rest = []) :
    stringBody (a :: rest) = 1 + stringBody rest := by
  have hrun : stringRun (a :: rest) = (stringRun rest).map (· + 1) := by
    by_cases ha : a = '\\'
    · rw [he ha,ha]
      rfl
    · exact stringRun_cons hq ha rest
  rw [stringBody,stringBody,hrun]
  cases hs : stringRun rest with
  | none => simp [Nat.add_comm]
  | some n =>
    have := stringRun_pos hs
    simp
    omega

theorem skipStringCharacter_escape (h : c.ahead text = '\\' :: a :: rest) :
    c.skipStringCharacter text = some (c.skip text 2) := by
  have hescape : text[c.offset]? = some '\\' ∧ c.offset + 1 < text.length := by
    have hl := length_ahead text c
    rw [h] at hl
    simp only [List.length_cons] at hl
    exact ⟨by rw [getElem?_offset,h]; rfl,by omega⟩
  rw [skipStringCharacter,if_pos hescape,advance_eq h]
  simp only [Option.bind_eq_bind,Option.bind_some]
  rw [advance_eq (show (c.skip text 1).ahead text = a :: rest by rw [ahead_skip,h]; rfl),skip_skip]

theorem skipStringCharacter_plain (h : c.ahead text = a :: rest) (he : a = '\\' → rest = []) :
    c.skipStringCharacter text = some (c.skip text 1) := by
  have hplain : ¬(text[c.offset]? = some '\\' ∧ c.offset + 1 < text.length) := by
    rintro ⟨ha,hlt⟩
    have hl := length_ahead text c
    rw [getElem?_offset,h,List.head?_cons,Option.some.injEq] at ha
    rw [h,he ha,List.length_singleton] at hl
    omega
  rw [skipStringCharacter,if_neg hplain]
  exact advance_eq h

theorem skipStringBody_eq (text : Text) (c : Cursor) :
    c.skipStringBody text = some (c.skip text (stringBody (c.ahead text))) := by
  refine repeatWhile_skip text stringBody (fun c hc => ?_) (fun c hc => ?_) c
  · rw [isBefore_eq] at hc
    cases ha : c.ahead text with
    | nil => rfl
    | cons a rest =>
      rw [ha,startsWith_cons,bne_eq_false_iff_eq] at hc
      rw [hc,stringBody_quote]
  · rw [isBefore_eq] at hc
    cases ha : c.ahead text with
    | nil => simp [ha,startsWith] at hc
    | cons a rest =>
      rw [ha,startsWith_cons,bne_iff_ne] at hc
      by_cases he : a = '\\' → rest = []
      · exact ⟨1,Nat.one_pos,by simp,skipStringCharacter_plain ha he,stringBody_cons hc he⟩
      · obtain ⟨rfl,hne⟩ := Classical.not_imp.mp he
        obtain ⟨b,t,rfl⟩ := List.exists_cons_of_ne_nil hne
        exact ⟨2,Nat.two_pos,by simp,skipStringCharacter_escape ha,stringBody_escape b t⟩

/-! Symbols -/

/-- The characters that go on with a part of a symbol. -/
def isSymbolChar (handle : Bool) (a : Char) : Bool :=
  isWordChar a || a == '.' || handle && (a == ':' || a == '/')

/-- The extent of the parts of a symbol. -/
def symbolParts : Text → Nat
  | '\x60' :: t => 1 + symbolRun (t.head? == some ':') t
  | _ => 0

theorem symbolParts_of_ne (h : a ≠ '\x60') (t : Text) : symbolParts (a :: t) = 0 := by
  rw [symbolParts]
  exact fun _ he => h (List.cons.inj he).1

/-- A symbol goes on through one part and then through those behind it. -/
theorem symbolRun_eq (handle : Bool) (t : Text) : symbolRun handle t =
    run (isSymbolChar handle) t + symbolParts (t.drop (run (isSymbolChar handle) t)) := by
  fun_induction symbolRun handle t with
  | case1 => rfl
  | case2 handle t ih =>
    have hb : isSymbolChar handle '\x60' = false := by cases handle <;> decide
    rw [run_cons,hb]
    exact Nat.add_comm _ 1 |>.trans (Nat.zero_add _).symm
  | case3 handle a t ha hw ih =>
    rw [run_cons,show isSymbolChar handle a = true from hw,if_pos rfl,List.drop_succ_cons,ih]
    omega
  | case4 handle a t ha hw =>
    rw [run_cons,show isSymbolChar handle a = false by simpa [isSymbolChar] using hw,
      if_neg Bool.false_ne_true,List.drop_zero,symbolParts_of_ne ha]

theorem skipSymbolPart_eq (h : c.ahead text = a :: rest) : c.skipSymbolPart text =
    some (c.skip text (1 + run (isSymbolChar (rest.head? == some ':')) rest)) := by
  have ha : (c.skip text 1).ahead text = rest := by
    rw [ahead_skip,h]
    rfl
  have hh : ((c.skip text 1).peek text 0 == ':') = (rest.head? == some ':') := by
    rw [apply_peek (p := (· == ':')) (by decide),ha,List.drop_zero,head?_beq]
  rw [skipSymbolPart,advance_eq h]
  simp only [Option.bind_eq_bind,Option.bind_some,hh]
  rw [advanceWhile_eq,ha,skip_skip]
  rfl

theorem skipSymbol_eq (text : Text) (c : Cursor) :
    c.skipSymbol text = some (c.skip text (symbolParts (c.ahead text))) := by
  have hpeek : ∀ c : Cursor,
      (c.peek text 0 == '\x60') = startsWith (· == '\x60') (c.ahead text) := by
    intro c
    rw [apply_peek (p := (· == '\x60')) (by decide),List.drop_zero]
  refine repeatWhile_skip text symbolParts (fun c hc => ?_) (fun c hc => ?_) c
  · rw [hpeek] at hc
    cases ha : c.ahead text with
    | nil => rfl
    | cons a rest =>
      rw [ha,startsWith_cons,beq_eq_false_iff_ne] at hc
      exact symbolParts_of_ne hc rest
  · rw [hpeek] at hc
    cases ha : c.ahead text with
    | nil => simp [ha,startsWith] at hc
    | cons a rest =>
      rw [ha,startsWith_cons,beq_iff_eq] at hc
      subst hc
      refine ⟨_,?_,?_,skipSymbolPart_eq ha,?_⟩
      · omega
      · have := run_le (isSymbolChar (rest.head? == some ':')) rest
        rw [List.length_cons]
        omega
      · rw [symbolParts,symbolRun_eq,Nat.add_comm 1 (run _ _),List.drop_succ_cons]
        omega

/-! Numbers and names -/

theorem numberRun_digits (t : Text) :
    numberRun t = run isDigit t + numberRun (t.drop (run isDigit t)) := by
  induction t with
  | nil => rfl
  | cons a t ih =>
    rw [run_cons]
    split
    · rename_i ha
      rw [numberRun_cons,ha,Bool.true_or,if_pos rfl,List.drop_succ_cons,ih]
      omega
    · rw [Nat.zero_add,List.drop_zero]

/-- What goes on with a number whose digits have ended. -/
def jointRun (t : Text) : Nat := if startsWith isDigit t then 0 else numberRun t

theorem numberRun_eq (t : Text) :
    numberRun t = run isDigit t + jointRun (t.drop (run isDigit t)) := by
  rw [jointRun,startsWith_drop_run,if_neg Bool.false_ne_true]
  exact numberRun_digits t

theorem not_nameStart_of_digit {t : Text} (h : startsWith isDigit t = true) :
    startsWith isNameStart t = false ∧ t.head? ≠ some '.' := by
  cases t with
  | nil => cases h
  | cons d t =>
    rw [startsWith_cons] at h
    constructor
    · rw [startsWith_cons]
      exact Bool.eq_false_iff.mpr fun hd => by
        rw [isDigit_of_isNameStart hd] at h
        cases h
    · rintro ⟨⟩
      cases h

theorem not_digit_of_joins (h : joinsNumber a rest = true) : isDigit a = false := by
  unfold joinsNumber at h
  split at h
  · decide
  · decide
  · decide
  · decide
  · decide
  · cases h

theorem jointRun_of_joins (h : joinsNumber a rest = true) :
    jointRun (a :: rest) = 1 + numberRun rest := by
  rw [jointRun,startsWith_cons,not_digit_of_joins h,if_neg Bool.false_ne_true,numberRun_cons,h,
    Bool.or_true,if_pos rfl,Nat.add_comm]

theorem joinsNumber_of_joinsDigits (h : c.ahead text = a :: rest)
    (hj : c.joinsDigits text = true) : joinsNumber a rest = true := by
  rw [joinsDigits,peek_zero h,peek_one (p := isDigit) (by decide) h,
    peek_two (p := isDigit) (by decide) h] at hj
  unfold joinsNumber
  split at hj
  · have hn := not_nameStart_of_digit hj
    simp [hn.1,hn.2]
  · exact hj
  · exact hj
  · exact hj
  · cases hj

theorem joinsDot_iff (h : c.ahead text = a :: rest) :
    c.joinsDot text = true ↔ a = '.' ∧ joinsNumber '.' rest = true := by
  rw [joinsDot,peek_zero h,peek_one (p := isNameStart) (by decide) h,bne,
    peek_one (p := (· == '.')) (by decide) h,joinsNumber,bne,head?_beq]
  simp [and_assoc]

theorem joinsExponent_iff (h : c.ahead text = a :: rest) : c.joinsExponent text = true ↔
    a = 'e' ∧ (startsWith isDigit rest = true ∨
      startsWith isSign rest = true ∧ startsWith isDigit (rest.drop 1) = true) := by
  rw [joinsExponent,peek_zero h,peek_one (p := isDigit) (by decide) h,
    peek_one (p := isSign) (by decide) h,peek_two (p := isDigit) (by decide) h]
  simp

theorem joins_of_joinsNumber (h : c.ahead text = a :: rest) (hj : joinsNumber a rest = true) :
    c.joinsDigits text = true ∨ c.joinsDot text = true ∨ c.joinsExponent text = true := by
  rw [joinsDot_iff h,joinsExponent_iff h,joinsDigits,peek_zero h,
    peek_one (p := isDigit) (by decide) h,peek_two (p := isDigit) (by decide) h]
  unfold joinsNumber at hj
  split at hj
  · exact .inr (.inl ⟨rfl,hj⟩)
  · exact .inl hj
  · exact .inl hj
  · exact .inl hj
  · exact .inr (.inr ⟨rfl,.inl hj⟩)
  · cases hj

theorem jointRun_eq_zero (h : c.ahead text = a :: rest) (hd : c.joinsDigits text = false)
    (hdot : c.joinsDot text = false) (he : c.joinsExponent text = false) :
    jointRun (a :: rest) = 0 := by
  have hj : joinsNumber a rest = false := Bool.eq_false_iff.mpr fun hj => by
    simpa [hd,hdot,he] using joins_of_joinsNumber h hj
  have hsign : (a = 'e' && startsWith isSign rest && startsWith isDigit (rest.drop 1)) = false := by
    refine Bool.eq_false_iff.mpr fun hs => ?_
    simp only [Bool.and_eq_true,decide_eq_true_eq] at hs
    rw [(joinsExponent_iff h).mpr ⟨hs.1.1,.inr ⟨hs.1.2,hs.2⟩⟩] at he
    cases he
  rw [jointRun,numberRun_cons,hj,hsign,startsWith_cons]
  cases isDigit a <;> rfl

theorem skipJoint_digits (h : c.ahead text = a :: rest) (hd : c.joinsDigits text = true) :
    c.skipJoint text = some (c.skip text (1 + run isDigit rest)) := by
  rw [skipJoint,advance_eq h]
  simp only [Option.bind_eq_bind,Option.bind_some,hd,if_true]
  rw [skipDigits_eq,ahead_skip,h,List.drop_succ_cons,List.drop_zero,skip_skip]

theorem skipJoint_dot (h : c.ahead text = a :: rest) (hd : c.joinsDigits text = false)
    (hdot : c.joinsDot text = true) : c.skipJoint text = some (c.skip text 1) := by
  rw [skipJoint,advance_eq h]
  simp only [Option.bind_eq_bind,Option.bind_some,hd,hdot,if_true]
  rfl

theorem skipJoint_exponent {b : Char} {t : Text} (h : c.ahead text = a :: b :: t)
    (hd : c.joinsDigits text = false) (hdot : c.joinsDot text = false) :
    c.skipJoint text = some (c.skip text (2 + run isDigit t)) := by
  rw [skipJoint,advance_eq h]
  simp only [Option.bind_eq_bind,Option.bind_some,hd,hdot,Bool.false_eq_true,if_false]
  rw [advance_eq (show (c.skip text 1).ahead text = b :: t by rw [ahead_skip,h]; rfl),skip_skip]
  simp only [Option.bind_some]
  rw [skipDigits_eq,ahead_skip,h,skip_skip]
  rfl

theorem jointRun_exponent {b : Char} {t : Text} (h : startsWith isDigit (b :: t) = true ∨
    startsWith isSign (b :: t) = true ∧ startsWith isDigit t = true) :
    jointRun ('e' :: b :: t) = 2 + numberRun t := by
  cases hb : isDigit b with
  | true =>
    rw [jointRun_of_joins (show joinsNumber 'e' (b :: t) = true from hb),numberRun_cons,hb,
      Bool.true_or,if_pos rfl]
    omega
  | false =>
    rw [startsWith_cons,startsWith_cons,hb] at h
    obtain ⟨hs,hd⟩ := h.resolve_left Bool.false_ne_true
    have hj : joinsNumber 'e' (b :: t) = false := hb
    rw [jointRun,startsWith_cons,show isDigit 'e' = false by decide,if_neg Bool.false_ne_true,
      numberRun_cons,hj,startsWith_cons,hs,List.drop_succ_cons,List.drop_zero,hd]
    exact Nat.add_comm _ 2

theorem skipJoined_eq (text : Text) (c : Cursor) :
    c.skipJoined text = some (c.skip text (jointRun (c.ahead text))) := by
  refine repeatWhile_skip text jointRun (fun c hc => ?_) (fun c hc => ?_) c
  · simp only [Bool.or_eq_false_iff] at hc
    cases h : c.ahead text with
    | nil => rfl
    | cons a rest => exact jointRun_eq_zero h hc.1.1 hc.1.2 hc.2
  · cases h : c.ahead text with
    | nil =>
      have h0 : c.peek text 0 = '\x00' := by rw [peek_eq,h]; rfl
      simp [joinsDigits,joinsDot,joinsExponent,h0] at hc
    | cons a rest =>
      have hrest := run_le isDigit rest
      cases hd : c.joinsDigits text with
      | true =>
        refine ⟨_,by omega,by rw [List.length_cons]; omega,skipJoint_digits h hd,?_⟩
        rw [jointRun_of_joins (joinsNumber_of_joinsDigits h hd),numberRun_eq,
          Nat.add_comm 1 (run _ _),List.drop_succ_cons]
        omega
      | false =>
        cases hdot : c.joinsDot text with
        | true =>
          obtain ⟨rfl,hj⟩ := (joinsDot_iff h).mp hdot
          have hstop : startsWith isDigit rest = false := by
            rw [← hd,joinsDigits,peek_zero h,peek_one (p := isDigit) (by decide) h]
            rfl
          refine ⟨1,Nat.one_pos,by simp,skipJoint_dot h hd hdot,?_⟩
          rw [jointRun_of_joins hj,List.drop_succ_cons,List.drop_zero,jointRun,hstop]
          rfl
        | false =>
          rw [hd,hdot,Bool.false_or,Bool.false_or] at hc
          obtain ⟨rfl,he⟩ := (joinsExponent_iff h).mp hc
          obtain ⟨b,t,rfl⟩ : ∃ b t, rest = b :: t := List.exists_cons_of_ne_nil fun hn => by
            subst hn
            rcases he with he | he
            · cases he
            · cases he.1
          have ht := run_le isDigit t
          refine ⟨_,by omega,by simp only [List.length_cons]; omega,skipJoint_exponent h hd hdot,?_⟩
          rw [jointRun_exponent he,numberRun_eq,Nat.add_comm 2 (run _ _),← Nat.add_assoc,
            List.drop_succ_cons,List.drop_succ_cons]
          omega

/-- A byte literal goes through what is alphanumeric behind its digits. -/
theorem skipNumber_byte {t : Text} (h : c.ahead text = '0' :: 'x' :: t) :
    c.skipNumber text = some (c.skip text (byteNumber t).1,(byteNumber t).2) := by
  have h1 : (c.skip text 1).ahead text = 'x' :: t := by rw [ahead_skip,h]; rfl
  have h2 : (c.skip text 2).ahead text = t := by rw [ahead_skip,h]; rfl
  have hx : c.peek text 0 = '0' ∧ c.peek text 1 = 'x' := by
    rw [peek_zero h,← peek_succ,peek_zero h1]
    exact ⟨rfl,rfl⟩
  have hn := repeatWhile_peek text (p := isHexDigit) (by decide) (c.skip text 2)
  rw [h2,skip_skip] at hn
  have hd : (c.skip text (2 + run isHexDigit t)).ahead text = t.drop (run isHexDigit t) := by
    rw [← skip_skip,ahead_skip,h2]
  rw [skipNumber,if_pos hx,advance_eq h]
  simp only [Option.bind_eq_bind,Option.bind_some,advance_eq h1,skip_skip]
  rw [hn]
  simp only [Option.bind_some]
  rw [apply_peek (p := isAlphanumeric) (by decide),List.drop_zero,hd,advanceWhile_eq,hd,skip_skip,
    byteNumber]
  cases hs : startsWith isAlphanumeric (t.drop (run isHexDigit t)) with
  | true =>
    have hne := run_eq_zero_iff.not.mpr (Bool.not_eq_false _ ▸ hs)
    rw [if_neg hne]
    rfl
  | false =>
    rw [run_eq_zero_iff.mpr hs]
    rfl

theorem skipNumber_decimal (h : ∀ t, c.ahead text ≠ '0' :: 'x' :: t) : c.skipNumber text =
    some (c.skip text (decimalNumber (c.ahead text)).1,(decimalNumber (c.ahead text)).2) := by
  have hx : ¬(c.peek text 0 = '0' ∧ c.peek text 1 = 'x') := by
    rintro ⟨h0,h1⟩
    rw [peek_eq] at h0 h1
    rcases ha : c.ahead text with _ | ⟨a,_ | ⟨b,t⟩⟩
    · simp [ha] at h0
    · simp [ha] at h1
    · simp only [ha,List.getElem?_cons_zero,List.getElem?_cons_succ,Option.getD_some] at h0 h1
      exact h t (by rw [ha,h0,h1])
  have hj := skipJoined_eq text (c.skip text (run isDigit (c.ahead text)))
  rw [ahead_skip,skip_skip,← numberRun_eq] at hj
  rw [skipNumber,if_neg hx,skipDigits_eq]
  simp only [Option.bind_eq_bind,Option.bind_some]
  rw [hj]
  simp only [Option.bind_some]
  rw [advanceWhile_eq]
  simp only [Option.bind_some]
  rw [slice_skip,slice_skip,ahead_skip,take_run,skip_skip,decimalNumber,run]
  generalize ((c.ahead text).drop (numberRun (c.ahead text))).takeWhile isAlphanumeric = suffix
  generalize ((c.ahead text).take (numberRun (c.ahead text))).all _ = binary
  cases isTypeSuffix suffix with
  | false => rfl
  | true =>
    by_cases hb : suffix = ['b']
    · cases binary <;> simp [hb]
    · simp [hb]

theorem skipNumber_eq (c : Cursor) : c.skipNumber text =
    some (c.skip text (numberExtent (c.ahead text)).1,(numberExtent (c.ahead text)).2) := by
  by_cases hx : ∃ t, c.ahead text = '0' :: 'x' :: t
  · obtain ⟨t,ht⟩ := hx
    rw [skipNumber_byte ht,ht]
    rfl
  · have h := not_exists.mp hx
    rw [skipNumber_decimal h,numberExtent_of_ne h]

/-- Whether a name goes on. -/
def goesOn (t : Text) : Bool :=
  startsWith isWordChar t || startsWith (· == '.') t && startsWith isNameStart (t.drop 1)

theorem nameRun_of_goesOn (h : goesOn (a :: rest) = true) :
    nameRun (a :: rest) = 1 + nameRun rest := by
  have hg : (isWordChar a || a == '.' && startsWith isNameStart rest) = true := h
  rw [nameRun,if_pos hg,Nat.add_comm]

theorem nameRun_of_not_goesOn {t : Text} (h : goesOn t = false) : nameRun t = 0 := by
  cases t with
  | nil => rfl
  | cons a t => exact nameRun_eq_zero.mpr h

theorem repeatWhile_goesOn (c : Cursor) :
    repeatWhile (fun c => c.isBefore text isWordChar ||
      c.isBefore text (· == '.') && isNameStart (c.peek text 1)) (advance text) text.length c =
      some (c.skip text (nameRun (c.ahead text))) := by
  have hmore : ∀ c : Cursor, (c.isBefore text isWordChar ||
      c.isBefore text (· == '.') && isNameStart (c.peek text 1)) = goesOn (c.ahead text) := by
    intro c
    rw [isBefore_eq,isBefore_eq,apply_peek (p := isNameStart) (by decide),goesOn]
  refine repeatWhile_skip text nameRun (fun c hc => ?_) (fun c hc => ?_) c
  · exact nameRun_of_not_goesOn ((hmore c).symm.trans hc)
  · rw [hmore] at hc
    cases h : c.ahead text with
    | nil => simp [h,goesOn,startsWith] at hc
    | cons a rest =>
      exact ⟨1,Nat.one_pos,by simp,advance_eq h,nameRun_of_goesOn (h ▸ hc)⟩

/-- A name goes on from its first character, which may be a dot. -/
theorem skipName_eq (h : c.ahead text = a :: rest) (ha : isNameStart a = true ∨ a = '.') :
    c.skipName text = some (c.skip text (1 + nameRun rest)) := by
  rw [skipName,peek_zero h]
  by_cases hdot : a = '.'
  · rw [if_pos hdot,advance_eq h]
    simp only [Option.bind_eq_bind,Option.bind_some]
    rw [repeatWhile_goesOn,ahead_skip,h,skip_skip]
    rfl
  · have hw := isWordChar_of_isNameStart (ha.resolve_right hdot)
    rw [if_neg hdot]
    simp only [Option.bind_eq_bind,Option.bind_some]
    rw [repeatWhile_goesOn,h,nameRun,hw,Bool.true_or,if_pos rfl,Nat.add_comm]

end QScope.Scanning.Cursor
