import QScope.Proofs.DisjointClasses
import QScope.Proofs.LexemeEnds

/-! # Lookahead: what a lexeme can see of the text behind it

A token stays as it is when another text takes the place of what follows, as long as the two look
alike from the front: letters are all alike, a dot before one may stand for a letter, and gaps are
like the end of the text. -/
namespace QScope.Lexing
open CharacterClasses TokenExtents Texts

variable {u v : Text}

def AtGap (t : Text) : Prop := ∀ c, t.head? = some c → isGap c = true

/-- A text and another one for it that no lexeme in front can tell from the first by looking
ahead. -/
inductive Alike : Text → Text → Prop
  | gap {u v : Text} (hu : AtGap u) (hv : AtGap v) : Alike u v
  | letter {a b : Char} (u v : Text) (ha : isNameStart a = true) (hb : isNameStart b = true) :
      Alike (a :: u) (b :: v)
  | dotted {a b : Char} (u v : Text) (ha : isNameStart a = true) (hb : isNameStart b = true) :
      Alike (a :: u) ('.' :: b :: v)
  | same {u v : Text} (c : Char) (h : Alike u v) : Alike (c :: u) (c :: v)

theorem Alike.append_left (h : Alike u v) (x : Text) : Alike (x ++ u) (x ++ v) := by
  induction x with
  | nil => exact h
  | cons c x ih => exact .same c ih

/-- A class of characters that holds all letters or none, and neither gaps nor the dot. -/
structure Blind (p : Char → Bool) : Prop where
  gap : ∀ c, isGap c = true → p c = false
  letter : ∀ a b, isNameStart a = true → isNameStart b = true → p a = p b
  dot : p '.' = false

theorem blind_isDigit : Blind isDigit :=
  ⟨fun _ => eq_false_of_isGap (by decide),
    fun _ _ ha hb => (isDigit_of_isNameStart ha).trans (isDigit_of_isNameStart hb).symm,
    by decide⟩

theorem blind_isNameStart : Blind isNameStart :=
  ⟨fun _ => eq_false_of_isGap (by decide),fun _ _ ha hb => ha.trans hb.symm,by decide⟩

theorem blind_isWordChar : Blind isWordChar :=
  ⟨fun _ => eq_false_of_isGap (by decide),
    fun _ _ ha hb => (isWordChar_of_isNameStart ha).trans (isWordChar_of_isNameStart hb).symm,
    by decide⟩

theorem blind_isAlphanumeric : Blind isAlphanumeric :=
  ⟨fun _ => eq_false_of_isGap (by decide),fun _ _ ha hb =>
    (isAlphanumeric_of_isNameStart ha).trans (isAlphanumeric_of_isNameStart hb).symm,by decide⟩

theorem beq_eq_false_of_class {p : Char → Bool} {c k : Char} (hk : p k = false) (hc : p c = true) :
    (c == k) = false := by
  refine beq_eq_false_iff_ne.mpr ?_
  rintro rfl
  rw [hk] at hc
  cases hc

theorem blind_beq {k : Char} (hl : isNameStart k = false) (hg : isGap k = false)
    (hd : ('.' == k) = false) : Blind (· == k) :=
  ⟨fun _ => beq_eq_false_of_class hg,
    fun _ _ ha hb => (beq_eq_false_of_class hl ha).trans (beq_eq_false_of_class hl hb).symm,hd⟩

theorem isSign_of_isNameStart {c : Char} (h : isNameStart c = true) : isSign c = false := by
  apply Bool.eq_false_iff.mpr
  intro hs
  simp only [isSign,Bool.or_eq_true,beq_iff_eq] at hs
  rcases hs with rfl | rfl <;> cases h

theorem blind_isSign : Blind isSign :=
  ⟨fun _ => eq_false_of_isGap (by decide),
    fun _ _ ha hb => (isSign_of_isNameStart ha).trans (isSign_of_isNameStart hb).symm,by decide⟩

theorem startsWith_cons (p : Char → Bool) (c : Char) (t : Text) : startsWith p (c :: t) = p c := rfl

theorem AtGap.stops {p : Char → Bool} (hp : Blind p) (h : AtGap u) : startsWith p u = false := by
  cases u with
  | nil => rfl
  | cons c u => exact hp.gap c (h c rfl)

/-- What ends before a text ends before whatever looks like it. -/
theorem Alike.stops {p : Char → Bool} (hp : Blind p) (h : Alike u v)
    (hu : startsWith p u = false) : startsWith p v = false := by
  cases h with
  | gap _ hv => exact hv.stops hp
  | letter u v ha hb => exact (hp.letter _ _ hb ha).trans hu
  | dotted u v ha hb => exact hp.dot
  | same c h => exact hu

/-- A class without letters tells nothing. -/
theorem Alike.one {p : Char → Bool} (hp : Blind p) (hl : ∀ a, isNameStart a = true → p a = false)
    (h : Alike u v) : startsWith p u = startsWith p v := by
  cases h with
  | gap hu hv => rw [hu.stops hp,hv.stops hp]
  | letter u v ha hb => exact hp.letter _ _ ha hb
  | dotted u v ha hb => exact (hl _ ha).trans hp.dot.symm
  | same c h => rfl

/-- Two characters ahead, of which none is a letter. -/
theorem Alike.two {p q : Char → Bool} (hp : Blind p) (hq : Blind q)
    (hl : ∀ a, isNameStart a = true → p a = false) (hlq : ∀ a, isNameStart a = true → q a = false)
    (h : Alike u v) :
    (startsWith p u && startsWith q (u.drop 1)) = (startsWith p v && startsWith q (v.drop 1)) := by
  cases h with
  | gap hu hv => rw [hu.stops hp,hv.stops hp,Bool.false_and,Bool.false_and]
  | letter u v ha hb =>
    rw [startsWith_cons,startsWith_cons,hl _ ha,hl _ hb,Bool.false_and,Bool.false_and]
  | dotted u v ha hb =>
    rw [startsWith_cons,startsWith_cons,hl _ ha,hp.dot,Bool.false_and,Bool.false_and]
  | same c h =>
    rw [startsWith_cons,startsWith_cons,List.drop_succ_cons,List.drop_succ_cons,List.drop_zero,
      List.drop_zero,h.one hq hlq]

theorem Alike.digit (h : Alike u v) : startsWith isDigit u = startsWith isDigit v :=
  h.one blind_isDigit fun _ => isDigit_of_isNameStart

theorem head?_beq (t : Text) (k : Char) : (t.head? == some k) = startsWith (· == k) t := by
  cases t with
  | nil => rfl
  | cons c t => simp [startsWith]

theorem Alike.head?_beq (h : Alike u v) {k : Char} (hl : isNameStart k = false)
    (hg : isGap k = false) (hd : ('.' == k) = false) :
    (u.head? == some k) = (v.head? == some k) := by
  rw [Lexing.head?_beq,Lexing.head?_beq,
    h.one (blind_beq hl hg hd) fun _ => beq_eq_false_of_class hl]

theorem ne_dot_of_isGap {c : Char} (h : isGap c = true) : c ≠ '.' := by
  rintro rfl
  cases h

/-- A dot joins a number unless a letter or another dot follows: either ends it. -/
theorem Alike.joinsDot (h : Alike u v) : joinsNumber '.' u = joinsNumber '.' v := by
  have hgap : ∀ {t : Text}, AtGap t → joinsNumber '.' t = true := by
    intro t ht
    cases t with
    | nil => rfl
    | cons c t =>
      have hc := ht c rfl
      simp [joinsNumber,startsWith_cons,blind_isNameStart.gap c hc,ne_dot_of_isGap hc]
  cases h with
  | gap hu hv => rw [hgap hu,hgap hv]
  | letter u v ha hb => simp [joinsNumber,startsWith_cons,ha,hb]
  | dotted u v ha hb => simp [joinsNumber,startsWith_cons,ha]
  | same c h => rfl

theorem Alike.joinsNumber (h : Alike u v) (c : Char) :
    TokenExtents.joinsNumber c u = TokenExtents.joinsNumber c v := by
  by_cases hc : c = '.'
  · rw [hc,h.joinsDot]
  · unfold TokenExtents.joinsNumber
    split
    · exact absurd rfl hc
    · exact h.two blind_isDigit blind_isDigit (fun _ => isDigit_of_isNameStart)
        fun _ => isDigit_of_isNameStart
    · exact h.digit
    · exact h.digit
    · exact h.digit
    · rfl

/-! Names -/

theorem nameRun_eq_zero {c : Char} {t : Text} : nameRun (c :: t) = 0 ↔
    (isWordChar c || c == '.' && startsWith isNameStart t) = false := by
  rw [nameRun]
  split
  · rename_i h
    rw [h]
    simp
  · rename_i h
    rw [Bool.not_eq_true] at h
    rw [h]
    simp

theorem startsWith_of_nameRun_eq_zero {t : Text} (h : nameRun t = 0) :
    startsWith isNameStart t = false := by
  cases t with
  | nil => rfl
  | cons c t =>
    rw [startsWith_cons]
    by_contra hc
    rw [Bool.not_eq_false] at hc
    simp [nameRun_eq_zero,isWordChar_of_isNameStart hc] at h

/-- Only a letter directly ahead could be told from a dot. -/
theorem Alike.nameStart (h : Alike u v) {x : Text}
    (hx : x = [] → startsWith isNameStart u = false) :
    startsWith isNameStart (x ++ v) = startsWith isNameStart (x ++ u) := by
  cases x with
  | nil => exact (h.stops blind_isNameStart (hx rfl)).trans (hx rfl).symm
  | cons c x => rfl

theorem Alike.nameRun_eq_zero (h : Alike u v) (hn : nameRun u = 0) : nameRun v = 0 := by
  cases h with
  | gap hu hv =>
    cases v with
    | nil => rfl
    | cons c v =>
      have hc := hv c rfl
      rw [Lexing.nameRun_eq_zero,blind_isWordChar.gap c hc,
        beq_eq_false_iff_ne.mpr (ne_dot_of_isGap hc),Bool.false_and,Bool.or_false]
  | letter u v ha hb => simp [Lexing.nameRun_eq_zero,isWordChar_of_isNameStart ha] at hn
  | dotted u v ha hb => simp [Lexing.nameRun_eq_zero,isWordChar_of_isNameStart ha] at hn
  | same c h =>
    rw [Lexing.nameRun_eq_zero,Bool.or_eq_false_iff,Bool.and_eq_false_iff] at hn ⊢
    exact hn.imp_right (Or.imp_right (h.stops blind_isNameStart))

/-- A name that ends before `u` ends before whatever looks like it. -/
theorem nameRun_append (h : Alike u v) {x : Text} (hn : nameRun (x ++ u) = x.length) :
    nameRun (x ++ v) = x.length := by
  induction x with
  | nil => exact h.nameRun_eq_zero hn
  | cons c x ih =>
    rw [List.cons_append,nameRun] at hn ⊢
    split at hn
    · rename_i hc
      have hx : nameRun (x ++ u) = x.length := by simpa using hn
      rw [h.nameStart,if_pos hc,ih hx,List.length_cons]
      rintro rfl
      exact startsWith_of_nameRun_eq_zero hx
    · simp at hn

/-! Symbols -/

theorem symbolRun_eq_zero {handle : Bool} {c : Char} {t : Text} :
    symbolRun handle (c :: t) = 0 ↔
      c ≠ '\x60' ∧ (isWordChar c || c == '.' || handle && (c == ':' || c == '/')) = false := by
  rw [symbolRun]
  split
  · rename_i h
    simp [h]
  · rename_i hc
    split
    · rename_i h
      rw [h]
      simp
    · rename_i h
      rw [Bool.not_eq_true] at h
      rw [h]
      simpa using hc

theorem Alike.symbolRun_eq_zero (h : Alike u v) {handle : Bool} (hn : symbolRun handle u = 0) :
    symbolRun handle v = 0 := by
  cases h with
  | gap hu hv =>
    cases v with
    | nil => rfl
    | cons c v =>
      have hc := hv c rfl
      apply Lexing.symbolRun_eq_zero.mpr
      constructor
      · rintro rfl
        cases hc
      · rw [blind_isWordChar.gap c hc,beq_eq_false_iff_ne.mpr (ne_dot_of_isGap hc),
          (blind_beq (k := ':') (by decide) (by decide) (by decide)).gap c hc,
          (blind_beq (k := '/') (by decide) (by decide) (by decide)).gap c hc]
        cases handle <;> rfl
  | letter u v ha hb => simp [Lexing.symbolRun_eq_zero,isWordChar_of_isNameStart ha] at hn
  | dotted u v ha hb => simp [Lexing.symbolRun_eq_zero,isWordChar_of_isNameStart ha] at hn
  | same c h => exact Lexing.symbolRun_eq_zero.mpr (Lexing.symbolRun_eq_zero.mp hn)

theorem symbolRun_append (h : Alike u v) {handle : Bool} {x : Text}
    (hn : symbolRun handle (x ++ u) = x.length) : symbolRun handle (x ++ v) = x.length := by
  induction x generalizing handle with
  | nil => exact h.symbolRun_eq_zero hn
  | cons c x ih =>
    rw [List.cons_append,symbolRun] at hn ⊢
    rw [← (h.append_left x).head?_beq (by decide) (by decide) (by decide)]
    split at hn
    · rename_i hc
      rw [if_pos hc,ih (by simpa using hn),List.length_cons]
    · rename_i hc
      rw [if_neg hc]
      split at hn
      · rename_i hw
        rw [if_pos hw,ih (by simpa using hn),List.length_cons]
      · simp at hn

/-! Numbers -/

theorem numberRun_cons (c : Char) (t : Text) : numberRun (c :: t) =
    if isDigit c || joinsNumber c t then numberRun t + 1
    else if c = 'e' && startsWith isSign t && startsWith isDigit (t.drop 1) then
      numberRun (t.drop 1) + 2
    else 0 := by
  cases t with
  | nil => simp [numberRun,startsWith]
  | cons s t => simp [numberRun,startsWith]

theorem joinsNumber_of_isGap {c : Char} (h : isGap c = true) (t : Text) :
    joinsNumber c t = false := by
  simp only [isGap,Bool.or_eq_true,beq_iff_eq] at h
  rcases h with ((rfl | rfl) | rfl) | rfl <;> rfl

theorem Alike.numberRun_eq_zero (h : Alike u v) (ha : startsWith isAlphanumeric u = false)
    (hn : numberRun u = 0) : numberRun v = 0 := by
  cases h with
  | gap hu hv =>
    cases v with
    | nil => rfl
    | cons c v =>
      have hc := hv c rfl
      have he : c ≠ 'e' := by
        rintro rfl
        cases hc
      rw [numberRun_cons,blind_isDigit.gap c hc,joinsNumber_of_isGap hc]
      simp [he]
  | letter u v hl => simp [startsWith_cons,isAlphanumeric_of_isNameStart hl] at ha
  | dotted u v hl => simp [startsWith_cons,isAlphanumeric_of_isNameStart hl] at ha
  | same c h =>
    rw [startsWith_cons] at ha
    have he : c ≠ 'e' := by
      rintro rfl
      revert ha
      decide
    rw [numberRun_cons,h.joinsNumber] at hn
    rw [numberRun_cons]
    split at hn
    · cases hn
    · rename_i hc
      rw [if_neg hc]
      simp [he]

/-- The run of a number that ends before `u`, which goes on with no letter or digit. -/
theorem numberRun_append (h : Alike u v) (ha : startsWith isAlphanumeric u = false) :
    ∀ {x : Text}, numberRun (x ++ u) ≤ x.length → numberRun (x ++ v) = numberRun (x ++ u)
  | [],hn => by
    have h0 := Nat.le_zero.mp hn
    exact (h.numberRun_eq_zero ha h0).trans h0.symm
  | c :: x,hn => by
    have hx := h.append_left x
    rw [List.cons_append,numberRun_cons] at hn
    rw [List.cons_append,List.cons_append,numberRun_cons,numberRun_cons,← hx.joinsNumber,
      Bool.and_assoc,Bool.and_assoc,
      ← hx.two blind_isSign blind_isDigit (fun _ => isSign_of_isNameStart)
        fun _ => isDigit_of_isNameStart]
    rw [Bool.and_assoc] at hn
    split at hn
    · rename_i hc
      rw [if_pos hc,if_pos hc,numberRun_append h ha (by simpa using hn)]
    · rename_i hc
      rw [if_neg hc,if_neg hc]
      split at hn
      · rename_i he
        rw [if_pos he,if_pos he]
        cases x with
        | nil => simp at hn
        | cons s x =>
          have := numberRun_append h ha (x := x) (by simpa using hn)
          simpa using this
      · rename_i he
        rw [if_neg he,if_neg he]
termination_by x => x.length

theorem run_append {p : Char → Bool} (hv : startsWith p v = false) {x : Text}
    (hn : run p (x ++ u) ≤ x.length) : run p (x ++ v) = run p (x ++ u) := by
  induction x with
  | nil =>
    have hu : run p u = 0 := Nat.le_zero.mp hn
    cases v with
    | nil => exact hu.symm
    | cons c v =>
      rw [startsWith_cons] at hv
      simpa [run,hv] using hu.symm
  | cons c x ih =>
    by_cases hc : p c = true
    · simp only [run,List.cons_append,List.takeWhile_cons,hc,if_true,List.length_cons] at hn ih ⊢
      rw [ih (by omega)]
    · simp [run,hc]

/-- A run that reaches exactly through `x` takes all of it and stops there. -/
theorem takeWhile_append_stops {p : Char → Bool} {x : Text}
    (h : ((x ++ u).takeWhile p).length = x.length) :
    (x ++ u).takeWhile p = x ∧ startsWith p u = false := by
  induction x with
  | nil =>
    have hu := List.length_eq_zero_iff.mp h
    cases u with
    | nil => exact ⟨rfl,rfl⟩
    | cons c u =>
      refine ⟨hu,?_⟩
      rw [startsWith_cons]
      by_contra hc
      simp [hc] at hu
  | cons c x ih =>
    by_cases hc : p c = true
    · simp only [List.cons_append,List.takeWhile_cons,hc,if_true,List.length_cons] at h ⊢
      have := ih (by omega)
      exact ⟨by rw [this.1],this.2⟩
    · simp [hc] at h

theorem takeWhile_append_of_stops {p : Char → Bool} {x : Text} (hx : (x ++ u).takeWhile p = x)
    (hv : startsWith p v = false) : (x ++ v).takeWhile p = x := by
  have hp : ∀ c ∈ x, p c = true := fun c hc => List.mem_takeWhile_imp (hx ▸ hc)
  have h0 : v.takeWhile p = [] := by
    cases v with
    | nil => rfl
    | cons c v =>
      rw [startsWith_cons] at hv
      simp [hv]
  rw [List.takeWhile_append_of_pos hp,h0,List.append_nil]

/-- The letters and digits behind the run of a number reach through its end. -/
theorem suffix_of_decimalNumber {x : Text} (hn : (decimalNumber (x ++ u)).1 = x.length) :
    numberRun (x ++ u) ≤ x.length ∧
      (x.drop (numberRun (x ++ u)) ++ u).takeWhile isAlphanumeric = x.drop (numberRun (x ++ u)) ∧
      startsWith isAlphanumeric u = false := by
  have hle : numberRun (x ++ u) ≤ x.length := by
    rw [decimalNumber] at hn
    omega
  have hlen : ((x.drop (numberRun (x ++ u)) ++ u).takeWhile isAlphanumeric).length =
      (x.drop (numberRun (x ++ u))).length := by
    rw [decimalNumber,List.drop_append_of_le_length hle] at hn
    rw [List.length_drop]
    omega
  exact ⟨hle,takeWhile_append_stops hlen⟩

theorem decimalNumber_append (h : Alike u v) {x : Text}
    (hn : (decimalNumber (x ++ u)).1 = x.length) :
    startsWith isAlphanumeric u = false ∧ decimalNumber (x ++ v) = decimalNumber (x ++ u) := by
  obtain ⟨hle,hsuffix,hstop⟩ := suffix_of_decimalNumber hn
  have hrun := numberRun_append h hstop hle
  have hvs := takeWhile_append_of_stops hsuffix (h.stops blind_isAlphanumeric hstop)
  refine ⟨hstop,?_⟩
  rw [decimalNumber,decimalNumber,hrun,List.drop_append_of_le_length hle,
    List.drop_append_of_le_length hle,hsuffix,hvs,List.take_append_of_le_length hle,
    List.take_append_of_le_length hle]

theorem startsWith_of_subset {p q : Char → Bool} (h : ∀ c, p c = true → q c = true) {t : Text}
    (hq : startsWith q t = false) : startsWith p t = false := by
  cases t with
  | nil => rfl
  | cons c t =>
    rw [startsWith_cons] at hq ⊢
    exact Bool.eq_false_iff.mpr fun hp => Bool.eq_false_iff.mp hq (h c hp)

theorem byteNumber_append
    (h : startsWith isAlphanumeric u = false → startsWith isAlphanumeric v = false) {x : Text}
    (hn : (byteNumber (x ++ u)).1 = x.length + 2) : byteNumber (x ++ v) = byteNumber (x ++ u) := by
  have hle : run isHexDigit (x ++ u) ≤ x.length := by
    simp only [byteNumber] at hn
    omega
  have hu : (x ++ u).drop (run isHexDigit (x ++ u)) = x.drop (run isHexDigit (x ++ u)) ++ u :=
    List.drop_append_of_le_length hle
  have hv : (x ++ v).drop (run isHexDigit (x ++ u)) = x.drop (run isHexDigit (x ++ u)) ++ v :=
    List.drop_append_of_le_length hle
  have hlen : run isAlphanumeric (x.drop (run isHexDigit (x ++ u)) ++ u) =
      (x.drop (run isHexDigit (x ++ u))).length := by
    simp only [byteNumber,hu] at hn
    rw [List.length_drop]
    omega
  have hstop := h (takeWhile_append_stops hlen).2
  have hrun := run_append (startsWith_of_subset (fun _ => isAlphanumeric_of_isHexDigit) hstop) hle
  rw [byteNumber,byteNumber,hrun,hu,hv,run_append hstop hlen.le]

theorem numberExtent_of_ne {t : Text} (h : ∀ r, t ≠ '0' :: 'x' :: r) :
    numberExtent t = decimalNumber t := by
  unfold numberExtent
  split
  · rename_i r
    exact absurd rfl (h r)
  · rfl

/-- A number that ends behind `x` shows in `x` alone whether it is one of bytes. -/
theorem exists_byte_of_append {x r : Text} (hn : (numberExtent (x ++ u)).1 = x.length)
    (hr : x ++ u = '0' :: 'x' :: r) : ∃ y, x = '0' :: 'x' :: y := by
  rw [hr] at hn
  have h2 : 2 ≤ x.length := by
    rw [← hn,numberExtent,byteNumber]
    omega
  obtain ⟨a,y,rfl⟩ := List.exists_cons_of_length_pos (Nat.zero_lt_of_lt h2)
  obtain ⟨b,y,rfl⟩ := List.exists_cons_of_length_pos (Nat.lt_of_succ_lt_succ h2)
  simp only [List.cons_append,List.cons.injEq] at hr
  exact ⟨y,by rw [hr.1,hr.2.1]⟩

theorem numberExtent_append (h : Alike u v) {x : Text}
    (hn : (numberExtent (x ++ u)).1 = x.length) :
    numberExtent (x ++ v) = numberExtent (x ++ u) := by
  by_cases hx : ∃ y, x = '0' :: 'x' :: y
  · obtain ⟨y,rfl⟩ := hx
    exact byteNumber_append (h.stops blind_isAlphanumeric) hn
  have hu : ∀ r, x ++ u ≠ '0' :: 'x' :: r := fun r hr => hx (exists_byte_of_append hn hr)
  rw [numberExtent_of_ne hu] at hn ⊢
  obtain ⟨hstop,hd⟩ := decimalNumber_append h hn
  have hstop := h.stops blind_isAlphanumeric hstop
  rw [numberExtent_of_ne,hd]
  intro r hr
  rcases x with _ | ⟨a,_ | ⟨b,y⟩⟩
  · obtain rfl : v = '0' :: 'x' :: r := hr
    cases hstop
  · obtain rfl : v = 'x' :: r := (List.cons.inj hr).2
    cases hstop
  · simp only [List.cons_append,List.cons.injEq] at hr
    exact hx ⟨y,by rw [hr.1,hr.2.1]⟩

/-- What makes a number of a character: a digit, or a dot before one. -/
def OpensNumber (c : Char) (t : Text) : Prop :=
  isDigit c = true ∨ c = '.' ∧ startsWith isDigit t = true

theorem joins_of_opensNumber {c : Char} {t : Text} (h : OpensNumber c t) :
    (isDigit c || joinsNumber c t) = true := by
  rcases h with h | ⟨rfl,h⟩
  · rw [h,Bool.true_or]
  · cases t with
    | nil => cases h
    | cons d t =>
      rw [startsWith_cons] at h
      have hl : isNameStart d = false := Bool.eq_false_iff.mpr fun hl => by
        rw [isDigit_of_isNameStart hl] at h
        cases h
      have hd : d ≠ '.' := by
        rintro rfl
        cases h
      simp [joinsNumber,startsWith_cons,hl,hd]

theorem numberRun_pos {c : Char} {t : Text} (h : OpensNumber c t) : 0 < numberRun (c :: t) := by
  rw [numberRun_cons,if_pos (joins_of_opensNumber h)]
  omega

theorem numberExtent_pos {c : Char} {t : Text} (h : OpensNumber c t) :
    0 < (numberExtent (c :: t)).1 := by
  unfold numberExtent
  split
  · rw [byteNumber]
    omega
  · have := numberRun_pos h
    rw [decimalNumber]
    omega

/-! Operators and strings -/

theorem Alike.pairKind (h : Alike u v) (c : Char) :
    u.head?.bind (pairKind? c) = v.head?.bind (pairKind? c) := by
  have hnone : ∀ {d : Char}, isNameStart d = true ∨ isGap d = true ∨ d = '.' →
      pairKind? c d = none := by
    intro d hd
    apply Option.eq_none_iff_forall_ne_some.mpr
    intro kind hk
    rcases pairKind?_isSome hk with rfl | rfl | rfl <;> rcases hd with hd | hd | hd <;> cases hd
  have hgap : ∀ {t : Text}, AtGap t → t.head?.bind (pairKind? c) = none := by
    intro t ht
    cases t with
    | nil => rfl
    | cons d t => exact hnone (Or.inr (Or.inl (ht d rfl)))
  cases h with
  | gap hu hv => rw [hgap hu,hgap hv]
  | letter u v ha hb => exact (hnone (Or.inl ha)).trans (hnone (Or.inl hb)).symm
  | dotted u v ha hb => exact (hnone (Or.inl ha)).trans (hnone (Or.inr (Or.inr rfl))).symm
  | same d h => rfl

theorem punctuation_append (h : Alike u v) (c : Char) (x : Text) :
    punctuation c (x ++ v) = punctuation c (x ++ u) := by
  rw [punctuation,punctuation,(h.append_left x).pairKind]

theorem stringRun_pos {t : Text} {n : Nat} (h : stringRun t = some n) : 0 < n := by
  fun_induction stringRun t generalizing n with
  | case1 => cases h
  | case2 t =>
    obtain rfl := Option.some.inj h
    exact Nat.one_pos
  | case3 c t ih =>
    obtain ⟨m,-,rfl⟩ := Option.map_eq_some_iff.mp h
    omega
  | case4 c t _ _ ih =>
    obtain ⟨m,-,rfl⟩ := Option.map_eq_some_iff.mp h
    omega

theorem stringRun_cons {c : Char} (hq : c ≠ '"') (he : c ≠ '\\') (t : Text) :
    stringRun (c :: t) = (stringRun t).map (· + 1) := by
  rw [stringRun]
  · exact fun h => hq h
  · exact fun _ _ h => absurd h he

/-- A string that closes within `x` does so whatever follows. -/
theorem stringRun_append {x : Text} {n : Nat} (h : stringRun (x ++ u) = some n)
    (hn : n ≤ x.length) : stringRun (x ++ v) = some n := by
  fun_induction stringRun x generalizing n with
  | case1 =>
    have := stringRun_pos h
    simp at hn
    omega
  | case2 t => exact h
  | case3 c t ih =>
    obtain ⟨m,hm,rfl⟩ := Option.map_eq_some_iff.mp h
    have := ih hm (by simpa using hn)
    simp [stringRun,this]
  | case4 c t hq he ih =>
    by_cases hc : c = '\\'
    · subst hc
      cases t with
      | cons d t => exact absurd rfl (he d t rfl)
      | nil =>
        cases u with
        | nil => cases h
        | cons d u =>
          obtain ⟨m,-,rfl⟩ := Option.map_eq_some_iff.mp h
          simp at hn
    · rw [List.cons_append,stringRun_cons hq hc] at h ⊢
      obtain ⟨m,hm,rfl⟩ := Option.map_eq_some_iff.mp h
      rw [ih hm (by simpa using hn)]
      rfl

/-! Lexemes -/

/-- What may take the place of `u` behind a lexeme that leaves the end of its line alone: it looks
alike, it opens with a line of blanks when `u` does, and it closes no string that `u` leaves
open. -/
structure Adjoins (u v : Text) : Prop where
  alike : Alike u v
  nil : u = [] → v = []
  blank : (firstLine u).all isBlank = (firstLine v).all isBlank
  unclosed : ∀ x, stringRun (x ++ u) = none → stringRun (x ++ v) = none

/-- What may take the place of `u` behind any lexeme: it also ends a line where `u` does. -/
structure Follows (u v : Text) : Prop extends Adjoins u v where
  lineEnd : firstLine u = [] → firstLine v = []

/-- Line comments and strings that are never closed take the rest of their line. -/
def Shape.takesLine : Shape → Bool
  | lineComment | token _ (some .unterminatedString) => true
  | _ => false

variable {x : Text}

theorem firstLine_append_length (h : firstLine u = [] → firstLine v = [])
    (hn : (firstLine (x ++ u)).length = x.length) : (firstLine (x ++ v)).length = x.length := by
  have hx : '\n' ∉ x := by
    intro hx
    obtain ⟨a,b,rfl,ha⟩ := List.eq_append_cons_of_mem hx
    rw [List.append_assoc,List.cons_append,firstLine_append_newline ha] at hn
    simp at hn
  rw [firstLine_append hx] at hn ⊢
  have hu : firstLine u = [] := by simpa using hn
  rw [h hu,List.append_nil]

theorem string_append (h : Adjoins u v)
    (hl : (string (x ++ u)).shape.takesLine = true → firstLine u = [] → firstLine v = [])
    (hn : (string (x ++ u)).more = x.length) : string (x ++ v) = string (x ++ u) := by
  rw [string,string]
  rw [string] at hn hl
  cases hs : stringRun (x ++ u) with
  | none =>
    rw [hs] at hn hl
    have hu : (firstLine (x ++ u)).length = x.length := hn
    simp only [h.unclosed x hs,firstLine_append_length (hl rfl) hn,hu]
  | some n =>
    rw [hs] at hn
    have hle : n ≤ x.length := hn.le
    simp only [stringRun_append (v := v) hs hle]
    rw [List.take_append_of_le_length (by omega),List.take_append_of_le_length (by omega)]

theorem numberExtent_of_more {c : Char} (hc : OpensNumber c (x ++ u))
    (hn : (number c (x ++ u)).more = x.length) :
    (numberExtent (c :: x ++ u)).1 = (c :: x).length := by
  have hpos := numberExtent_pos hc
  rw [number] at hn
  rw [List.cons_append,List.length_cons]
  dsimp only at hn
  omega

theorem number_append (h : Alike u v) {c : Char} (hc : OpensNumber c (x ++ u))
    (hn : (number c (x ++ u)).more = x.length) : number c (x ++ v) = number c (x ++ u) := by
  have := numberExtent_append h (numberExtent_of_more hc hn)
  rw [List.cons_append,List.cons_append] at this
  rw [number,number,this]

theorem name_append (h : Alike u v) {c : Char} (hn : (name c (x ++ u)).more = x.length) :
    name c (x ++ v) = name c (x ++ u) := by
  have hu : nameRun (x ++ u) = x.length := hn
  have hv := nameRun_append h hu
  rw [name,name,hu,hv,List.take_left,List.take_left]

theorem symbol_append (h : Alike u v) (hn : (symbol (x ++ u)).more = x.length) :
    symbol (x ++ v) = symbol (x ++ u) := by
  have hh := (h.append_left x).head?_beq (k := ':') (by decide) (by decide) (by decide)
  have hu : symbolRun ((x ++ u).head? == some ':') (x ++ u) = x.length := hn
  rw [symbol,symbol,← hh,hu,symbolRun_append h hu]

/-- A dot opens a name with a letter behind it. -/
theorem more_of_dot {t : Text} (ht : startsWith isNameStart t = true) (p : Char) :
    (withinLine p '.' t).more ≠ 0 := by
  obtain ⟨a,r,rfl⟩ : ∃ a r, t = a :: r := List.exists_cons_of_ne_nil fun h => by
    rw [h] at ht
    cases ht
  rw [startsWith_cons] at ht
  have hw : withinLine p '.' (a :: r) = name '.' (a :: r) := by
    simp [withinLine,startsWith_cons,ht,isDigit_of_isNameStart ht,show isGap '.' = false by decide,
      show isDigit '.' = false by decide]
  rw [hw,name]
  intro h0
  simp [nameRun_eq_zero,isWordChar_of_isNameStart ht] at h0

/-- A lexeme within a line keeps its extent when something alike follows. -/
theorem withinLine_append (h : Adjoins u v) {p c : Char}
    (hl : (withinLine p c (x ++ u)).shape.takesLine = true → firstLine u = [] → firstLine v = [])
    (hn : (withinLine p c (x ++ u)).more = x.length) :
    withinLine p c (x ++ v) = withinLine p c (x ++ u) := by
  have hdot : (c == '.' && startsWith isNameStart (x ++ v)) =
      (c == '.' && startsWith isNameStart (x ++ u)) := by
    by_cases hc : c = '.'
    · rw [h.alike.nameStart]
      rintro rfl
      rw [hc] at hn
      by_contra hu
      exact more_of_dot (Bool.not_eq_false _ ▸ hu) p hn
    · rw [beq_eq_false_iff_ne.mpr hc,Bool.false_and,Bool.false_and]
  unfold withinLine at hn hl ⊢
  rw [← (h.alike.append_left x).digit,hdot]
  split_ifs at hn hl ⊢ with hgap hslash hquote htick hdigit hname
  · rfl
  · rw [firstLine_append_length (hl rfl) hn,show (firstLine (x ++ u)).length = x.length from hn]
  · exact string_append h hl hn
  · exact symbol_append h.alike hn
  · exact number_append h.alike (by simpa [OpensNumber] using hdigit) hn
  · exact name_append h.alike hn
  · exact punctuation_append h.alike c x

theorem lineForm?_congr {s t : Text} (h : trimRight (firstLine s) = trimRight (firstLine t))
    (hb : trimRight (firstLine t) = ['/'] → (blockComment s).length = (blockComment t).length)
    (he : trimRight (firstLine t) = ['\\'] → s.length = t.length) :
    lineForm? s = lineForm? t := by
  rw [lineForm?,lineForm?]
  rw [h]
  split
  · rw [hb ‹_›]
  · rw [he ‹_›]
  · rfl
  · rfl

theorem lineForm?_eq_none {c : Char} (hs : c ≠ '/') (hb : c ≠ '\\') (t : Text) :
    lineForm? (c :: t) = none := by
  have hp := (isPrefix_trimRight _).trans (isPrefix_firstLine (c :: t))
  rw [lineForm?]
  split
  · rename_i h
    rw [h,List.cons_prefix_cons] at hp
    exact absurd hp.1.symm hs
  · rename_i h
    rw [h,List.cons_prefix_cons] at hp
    exact absurd hp.1.symm hb
  · rename_i h
    rw [h,List.cons_prefix_cons] at hp
    exact absurd hp.1.symm hb
  · rfl

theorem lexeme_of_isGap {c : Char} (hc : isGap c = true) (p : Char) (rest : Text) :
    lexeme p c rest = ⟨.blank,0⟩ := by
  have hw : withinLine p c rest = ⟨.blank,0⟩ := if_pos hc
  have hs : c ≠ '/' := by
    rintro rfl
    cases hc
  have hb : c ≠ '\\' := by
    rintro rfl
    cases hc
  rw [lexeme,lineForm?_eq_none hs hb,Option.getD_none,hw,ite_self]

theorem lineForm?_of_two {t s : Text} {c d : Char} (h : trimRight (firstLine t) = c :: d :: s) :
    lineForm? t =
      if c = '\\' ∧ isBlank d = false then some ⟨.token .command none,s.length + 1⟩ else none := by
  rw [lineForm?]
  rw [h]
  split
  · simp_all
  · simp_all
  · rename_i hs
    simp only [List.cons.injEq] at hs
    obtain ⟨rfl,rfl,rfl⟩ := hs
    cases isBlank d <;> simp
  · rename_i hs
    rw [if_neg]
    rintro ⟨rfl,-⟩
    exact hs _ _ rfl

theorem lineForm?_of_slash {t : Text} (h : trimRight (firstLine t) = ['/']) :
    lineForm? t = some ⟨.blockComment,(blockComment t).length - 1⟩ := by
  rw [lineForm?,h]
  rfl

theorem lineForm?_of_backslash {t : Text} (h : trimRight (firstLine t) = ['\\']) :
    lineForm? t = some ⟨.scriptEnd,t.length - 1⟩ := by
  rw [lineForm?,h]
  rfl

/-- A line form that would hold the same lines keeps its extent. -/
theorem lineForm?_append_of_trim (h : u = [] → v = []) {c : Char}
    (ht : trimRight (firstLine (c :: (x ++ v))) = trimRight (firstLine (c :: (x ++ u))))
    (hn : ∀ e, lineForm? (c :: (x ++ u)) = some e → e.more = x.length) :
    lineForm? (c :: (x ++ v)) = lineForm? (c :: (x ++ u)) := by
  refine lineForm?_congr ht (fun hm => ?_) (fun hm => ?_)
  · have hl := hn _ (lineForm?_of_slash hm)
    have hpos : blockComment (c :: (x ++ u)) ≠ [] := fun h0 =>
      List.cons_ne_nil _ _ (blockComment_eq_nil h0)
    rw [← List.length_pos_iff] at hpos
    have hlen : (blockComment (c :: x ++ u)).length = (c :: x).length := by
      rw [List.cons_append,List.length_cons]
      dsimp only at hl
      omega
    have heq : blockComment (c :: x ++ u) = c :: x := by
      rw [List.prefix_iff_eq_take.mp (isPrefix_blockComment (c :: x ++ u)),hlen,List.take_left]
    rcases blockComment_append heq with hu | ⟨-,hv⟩
    · rw [hu,h hu]
    · have hv := hv v
      rw [List.cons_append] at heq hv
      rw [heq,hv]
  · have hl := hn _ (lineForm?_of_backslash hm)
    have hu : u = [] := by simpa using hl
    rw [hu,h hu]

/-- Lines that look alike and are not blank have alike characters in front. -/
theorem Adjoins.blank_head (h : Adjoins u v) {d e : Char} {s t : Text}
    (hu : trimRight (firstLine u) = d :: s) (hv : trimRight (firstLine v) = e :: t)
    (hd : isBlank d = true) : isBlank e = true := by
  have hhead : ∀ {w : Text} {c : Char} {r : Text}, trimRight (firstLine w) = c :: r →
      ∃ r, w = c :: r := by
    intro w c r hw
    obtain ⟨r,hr⟩ := (isPrefix_trimRight _).trans (isPrefix_firstLine w)
    rw [hw] at hr
    exact ⟨_,hr.symm⟩
  obtain ⟨s,rfl⟩ := hhead hu
  obtain ⟨t,rfl⟩ := hhead hv
  cases h.alike with
  | gap hu hv => exact isBlank_of_isGap (hv _ rfl)
  | letter _ _ ha _ | dotted _ _ ha _ =>
    rw [isBlank_of_isWordChar (isWordChar_of_isNameStart ha)] at hd
    cases hd
  | same c _ => exact hd

theorem lineForm?_append (h : Adjoins u v) {c : Char}
    (hn : ∀ e, lineForm? (c :: (x ++ u)) = some e → e.more = x.length) :
    lineForm? (c :: (x ++ v)) = lineForm? (c :: (x ++ u)) := by
  by_cases hx : '\n' ∈ c :: x
  · apply lineForm?_append_of_trim h.nil _ hn
    rw [← List.cons_append,← List.cons_append,firstLine_append_of_mem hx,firstLine_append_of_mem hx]
  have hu := firstLine_append hx u
  have hv := firstLine_append hx v
  rw [List.cons_append] at hu hv
  by_cases hb : trimRight (firstLine u) = []
  · apply lineForm?_append_of_trim h.nil _ hn
    have hvb : ∀ d ∈ firstLine v, isBlank d = true := by
      rw [← List.all_eq_true,← h.blank,List.all_eq_true]
      exact trimRight_eq_nil.mp hb
    rw [hu,hv,trimRight_append_blank _ (trimRight_eq_nil.mp hb),trimRight_append_blank _ hvb]
  · have hvb : trimRight (firstLine v) ≠ [] := by
      intro hv0
      apply hb
      rw [trimRight_eq_nil,← List.all_eq_true,h.blank,List.all_eq_true]
      exact trimRight_eq_nil.mp hv0
    obtain ⟨d,s,hd⟩ := List.exists_cons_of_ne_nil hb
    obtain ⟨e,t,he⟩ := List.exists_cons_of_ne_nil hvb
    have hut := trimRight_append (c :: x) hb
    have hvt := trimRight_append (c :: x) hvb
    rw [← hu,hd] at hut
    rw [← hv,he] at hvt
    -- Both lines go on beyond `x`, so neither may be a form: it would not end behind `x`.
    cases x with
    | nil =>
      have hul := lineForm?_of_two hut
      have hblank : c = '\\' → isBlank d = true := by
        intro hc
        by_contra hd'
        rw [if_pos ⟨hc,by simpa using hd'⟩] at hul
        simpa using hn _ hul
      rw [hul,lineForm?_of_two hvt,if_neg,if_neg]
      · rintro ⟨hc,hd'⟩
        rw [hblank hc] at hd'
        cases hd'
      · rintro ⟨hc,he'⟩
        rw [h.blank_head hd he (hblank hc)] at he'
        cases he'
    | cons a x =>
      have hul := lineForm?_of_two hut
      have hnone : ¬ (c = '\\' ∧ isBlank a = false) := by
        intro hc
        rw [if_pos hc] at hul
        simpa using hn _ hul
      rw [hul,lineForm?_of_two hvt,if_neg hnone,if_neg hnone]

/-- A lexeme keeps its extent when something alike follows, and also the end of a line if it takes
the rest of its own. -/
theorem Adjoins.lexeme_append (h : Adjoins u v) {p c : Char}
    (hl : (lexeme p c (x ++ u)).shape.takesLine = true → firstLine u = [] → firstLine v = [])
    (hn : (lexeme p c (x ++ u)).more = x.length) :
    lexeme p c (x ++ v) = lexeme p c (x ++ u) := by
  unfold lexeme at hn hl ⊢
  split
  · rename_i hp
    rw [if_pos hp] at hn hl
    have hform := lineForm?_append (c := c) h (x := x) (by
      intro e he
      rwa [he,Option.getD_some] at hn)
    rw [hform]
    cases he : lineForm? (c :: (x ++ u)) with
    | none =>
      rw [he,Option.getD_none] at hn hl
      exact withinLine_append h hl hn
    | some e => rfl
  · rename_i hp
    rw [if_neg hp] at hn hl
    exact withinLine_append h hl hn

theorem lexeme_append (h : Follows u v) {p c : Char} (hn : (lexeme p c (x ++ u)).more = x.length) :
    lexeme p c (x ++ v) = lexeme p c (x ++ u) :=
  h.toAdjoins.lexeme_append (fun _ => h.lineEnd) hn

end QScope.Lexing
