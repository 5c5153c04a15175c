import QScope.Proofs.Renaming
import QScope.Proofs.TokenImages

/-! # Float literals: digits with a fraction, an exponent and a type letter are one number

Each part may be left out. Only a dot without digits behind it ends the number in front of it where
an exponent or a type letter follows, since such a dot opens a name. -/
namespace QScope.Lexing
open CharacterClasses TokenExtents Texts

def AsciiDigits (t : Text) : Prop := ∀ c ∈ t, c.isDigit = true

/-- A dot with the digits behind it, which may be none. -/
inductive IsFraction : Text → Prop
  | none : IsFraction []
  | dot {ds : Text} (digits : AsciiDigits ds) : IsFraction ('.' :: ds)

inductive IsExponent : Text → Prop
  | none : IsExponent []
  | plain {ds : Text} (digits : AsciiDigits ds) (some : ds ≠ []) : IsExponent ('e' :: ds)
  | signed {s : Char} {ds : Text} (sign : s = '+' ∨ s = '-') (digits : AsciiDigits ds)
      (some : ds ≠ []) : IsExponent ('e' :: s :: ds)

/-- The type letters of floating numbers, if there is one. -/
inductive IsFloatSuffix : Text → Prop
  | none : IsFloatSuffix []
  | real : IsFloatSuffix ['e']
  | float : IsFloatSuffix ['f']

/-- A floating number by its parts, as they are written. -/
structure FloatLiteral where
  whole : Text
  fraction : Text
  exponent : Text
  suffix : Text
  digits : AsciiDigits whole
  nonempty : whole ≠ []
  isFraction : IsFraction fraction
  isExponent : IsExponent exponent
  isSuffix : IsFloatSuffix suffix

namespace FloatLiteral

/-- What follows the fraction. -/
def scale (n : FloatLiteral) : Text := n.exponent ++ n.suffix

def text (n : FloatLiteral) : Text := n.whole ++ (n.fraction ++ n.scale)

/-- Whether the dot has no digits behind it, but a letter. -/
def DotOpensName (n : FloatLiteral) : Prop := n.fraction = ['.'] ∧ n.scale ≠ []

end FloatLiteral

section
variable {ds t s : Text} {c : Char}

theorem isDigit_of_ascii (h : c.isDigit = true) : CharacterClasses.isDigit c = true := by
  rw [CharacterClasses.isDigit,h,Bool.true_or]

theorem AsciiDigits.notMem (h : AsciiDigits ds) (hc : c.isDigit = false) : c ∉ ds := fun hm => by
  rw [h c hm] at hc
  cases hc

theorem AsciiDigits.startsWith (h : AsciiDigits ds) (hs : ds ≠ []) (t : Text) :
    startsWith isDigit (ds ++ t) = true := by
  obtain ⟨c,ds,rfl⟩ := List.exists_cons_of_ne_nil hs
  exact isDigit_of_ascii (h c List.mem_cons_self)

/-! The characters of the parts -/

theorem IsFraction.notMem (h : IsFraction t) (hc : c.isDigit = false) (hd : c ≠ '.') : c ∉ t := by
  cases h with
  | none => exact List.not_mem_nil
  | dot digits => simp [hd,digits.notMem hc]

theorem IsExponent.notMem (h : IsExponent t) (hc : c.isDigit = false) (hm : c ∉ ['e','+','-']) :
    c ∉ t := by
  simp only [List.mem_cons,List.not_mem_nil,or_false,not_or] at hm
  obtain ⟨he,hplus,hminus⟩ := hm
  cases h with
  | none => exact List.not_mem_nil
  | plain digits => simp [he,digits.notMem hc]
  | signed sign digits => rcases sign with rfl | rfl <;> simp [he,hplus,hminus,digits.notMem hc]

theorem IsFloatSuffix.notMem (h : IsFloatSuffix s) (hm : c ∉ ['e','f']) : c ∉ s := by
  simp only [List.mem_cons,List.not_mem_nil,or_false,not_or] at hm
  cases h <;> simp [hm]

theorem IsFloatSuffix.all_isAlphanumeric (h : IsFloatSuffix s) :
    ∀ c ∈ s, isAlphanumeric c = true := by
  cases h with
  | none => exact List.forall_mem_nil _
  | real | float => exact List.forall_mem_singleton.mpr (by decide)

/-- An exponent and a type letter open with a letter, if there are any. -/
theorem IsExponent.startsWith_append (h : IsExponent t) (hs : IsFloatSuffix s)
    (hne : t ++ s ≠ []) : TokenExtents.startsWith isNameStart (t ++ s) = true := by
  cases h with
  | none =>
    cases hs with
    | none => exact absurd rfl hne
    | real => rfl
    | float => rfl
  | plain => rfl
  | signed => rfl

/-! How far the parts go on with a number -/

/-- Digits in front belong to a number. -/
theorem AsciiDigits.numberRun_append (h : AsciiDigits ds) (t : Text) :
    numberRun (ds ++ t) = ds.length + numberRun t := by
  induction ds with
  | nil => exact (Nat.zero_add _).symm
  | cons c ds ih =>
    obtain ⟨hc,hds⟩ := List.forall_mem_cons.mp h
    rw [List.cons_append,numberRun_cons,isDigit_of_ascii hc,Bool.true_or,if_pos rfl,ih hds,
      List.length_cons]
    omega

theorem IsFloatSuffix.numberRun_eq_zero (h : IsFloatSuffix s) : numberRun s = 0 := by
  cases h <;> rfl

/-- An exponent belongs to the number, and the type letter behind it does not. -/
theorem IsExponent.numberRun_append (h : IsExponent t) (hs : IsFloatSuffix s) :
    numberRun (t ++ s) = t.length := by
  cases h with
  | none => exact hs.numberRun_eq_zero
  | plain digits some =>
    have hj : (isDigit 'e' || joinsNumber 'e' (_ ++ s)) = true := digits.startsWith some s
    rw [List.cons_append,numberRun_cons,if_pos hj,digits.numberRun_append,hs.numberRun_eq_zero]
    rfl
  | signed sign digits some =>
    rename_i mark ds
    have hd := digits.startsWith some s
    obtain ⟨hdigit,hsign⟩ : isDigit mark = false ∧ isSign mark = true := by
      rcases sign with rfl | rfl <;> decide
    have hj : ¬(isDigit 'e' || joinsNumber 'e' (mark :: (ds ++ s))) = true := by
      simp [joinsNumber,startsWith_cons,hdigit,show isDigit 'e' = false by decide]
    have he : ('e' = 'e' && startsWith isSign (mark :: (ds ++ s)) &&
        startsWith isDigit ((mark :: (ds ++ s)).drop 1)) = true := by
      simp [startsWith_cons,hsign,hd]
    rw [List.cons_append,List.cons_append,numberRun_cons,if_neg hj,if_pos he,List.drop_succ_cons,
      List.drop_zero,digits.numberRun_append,hs.numberRun_eq_zero]
    rfl

/-- A fraction belongs to it too, unless its dot has no digits and something else behind it. -/
theorem IsFraction.numberRun_append (h : IsFraction t) (hs : t = ['.'] → s = []) :
    numberRun (t ++ s) = t.length + numberRun s := by
  cases h with
  | none => exact (Nat.zero_add _).symm
  | @dot ds digits =>
    have hj : (isDigit '.' || joinsNumber '.' (ds ++ s)) = true := by
      by_cases hds : ds = []
      · rw [hds,hs (by rw [hds])]
        rfl
      · exact joins_of_opensNumber (.inr ⟨rfl,digits.startsWith hds s⟩)
    rw [List.cons_append,numberRun_cons,if_pos hj,digits.numberRun_append,List.length_cons]
    omega

/-- A number with sound letters behind it. -/
theorem decimalNumber_of_numberRun {x r : Text} (hrun : numberRun (x ++ (s ++ r)) = x.length)
    (hs : IsFloatSuffix s) (hr : startsWith isAlphanumeric r = false) :
    decimalNumber (x ++ (s ++ r)) = ((x ++ s).length,none) := by
  have hself : (s ++ []).takeWhile isAlphanumeric = s := by
    rw [List.append_nil]
    exact List.takeWhile_eq_self_iff.mpr hs.all_isAlphanumeric
  have hsound : (isTypeSuffix s && (s != ['b'] || x.all fun c => c == '0' || c == '1')) = true := by
    cases hs <;> rfl
  rw [decimalNumber,hrun,List.drop_left,List.take_left,takeWhile_append_of_stops hself hr,hsound,
    List.length_append]
  rfl

/-- What opens with a digit is read as a number. -/
theorem lexeme_of_isDigit (h : c.isDigit = true) (p : Char) (t : Text) :
    lexeme p c t = number c t := by
  have hne : ∀ {k : Char}, k.isDigit = false → c ≠ k := by
    rintro k hk rfl
    rw [h] at hk
    cases hk
  have hgap : isGap c = false := by
    simp [isGap,hne (k := ' ') rfl,hne (k := '\t') rfl,hne (k := '\r') rfl,hne (k := '\n') rfl]
  rw [lexeme,lineForm?_eq_none (hne rfl) (hne rfl),Option.getD_none,ite_self,withinLine,hgap,
    if_neg Bool.false_ne_true,if_neg fun hc => hne (k := '/') rfl hc.1,if_neg (hne rfl),
    if_neg (hne rfl),isDigit_of_ascii h,Bool.true_or,if_pos rfl]

theorem lexeme_of_decimalNumber {r : Text} (hc : c.isDigit = true) (hx : 'x' ∉ c :: (ds ++ r))
    (h : decimalNumber (c :: (ds ++ r)) = ((c :: ds).length,none)) (p : Char) :
    lexeme p c (ds ++ r) = ⟨.token .number none,ds.length⟩ := by
  have hne : ∀ r', c :: (ds ++ r) ≠ '0' :: 'x' :: r' := fun r' he => by
    rw [he] at hx
    simp at hx
  rw [lexeme_of_isDigit hc,number,numberExtent_of_ne hne,h]
  rfl

/-- Without dots a name goes on through word characters only. -/
theorem nameRun_of_dot_notMem (h : '.' ∉ t) : nameRun t = (t.takeWhile isWordChar).length := by
  induction t with
  | nil => rfl
  | cons c t ih =>
    rw [List.mem_cons,not_or] at h
    obtain ⟨hc,ht⟩ := h
    rw [nameRun,beq_eq_false_iff_ne.mpr (Ne.symm hc),Bool.false_and,Bool.or_false,ih ht,
      List.takeWhile_cons]
    split <;> rfl

/-- A name that opens with a dot is no reserved word. -/
theorem lexeme_of_dot (h : startsWith isNameStart t = true) (p : Char) :
    lexeme p '.' t = ⟨.token .identifier none,nameRun t⟩ := by
  have hk : ¬Keywords.all.contains ('.' :: t.take (nameRun t)) = true := fun hk =>
    dot_notMem_keyword (List.contains_iff_mem.mp hk) List.mem_cons_self
  rw [lexeme_of_opensName (.inr ⟨rfl,h⟩),name,if_neg hk]

end

namespace FloatLiteral
variable (n : FloatLiteral)

theorem x_notMem_text : 'x' ∉ n.text := by
  have hd : Char.isDigit 'x' = false := rfl
  rw [text,scale]
  simp [n.digits.notMem hd,n.isFraction.notMem hd (by decide),n.isExponent.notMem hd (by decide),
    n.isSuffix.notMem (c := 'x') (by decide)]

theorem dot_notMem_scale : '.' ∉ n.scale := by
  rw [scale]
  simp [n.isExponent.notMem (c := '.') rfl (by decide),n.isSuffix.notMem (c := '.') (by decide)]

/-- Where something stands behind the fraction, a letter does. -/
theorem startsWith_scale (h : n.scale ≠ []) : startsWith isNameStart n.scale = true :=
  n.isExponent.startsWith_append n.isSuffix h

/-! How far the number in front of a literal reaches -/

theorem decimalNumber_text (h : ¬n.DotOpensName) : decimalNumber n.text = (n.text.length,none) := by
  have hdot : n.fraction = ['.'] → n.scale = [] := fun hf => by_contra fun hs => h ⟨hf,hs⟩
  have htext : n.text = (n.whole ++ (n.fraction ++ n.exponent)) ++ (n.suffix ++ []) := by
    simp [text,scale]
  have hrun : numberRun n.text = (n.whole ++ (n.fraction ++ n.exponent)).length := by
    rw [text,n.digits.numberRun_append,n.isFraction.numberRun_append hdot,scale,
      n.isExponent.numberRun_append n.isSuffix,List.length_append,List.length_append]
  rw [htext] at hrun ⊢
  rw [decimalNumber_of_numberRun hrun n.isSuffix rfl,List.append_nil]

/-- The dot of a name ends the number in front of it. -/
theorem decimalNumber_whole (h : n.DotOpensName) :
    decimalNumber n.text = (n.whole.length,none) := by
  have hrun : numberRun ('.' :: n.scale) = 0 := by
    simp [numberRun_cons,joinsNumber,n.startsWith_scale h.2,show isDigit '.' = false by decide]
  have htext : n.text = n.whole ++ ([] ++ '.' :: n.scale) := by
    rw [text,h.1]
    rfl
  have hwhole : numberRun (n.whole ++ ([] ++ '.' :: n.scale)) = n.whole.length := by
    rw [List.nil_append,n.digits.numberRun_append,hrun,Nat.add_zero]
  have hdot : startsWith isAlphanumeric ('.' :: n.scale) = false := by
    rw [startsWith_cons]
    decide
  rw [htext,decimalNumber_of_numberRun hwhole .none hdot,List.append_nil]

end FloatLiteral

/-- The tokens of a literal: a single number, or a number and a name with its dot in front, where
the dot has no digits behind it but a letter. -/
structure ReadsFloat (file : Text) (n : FloatLiteral) : Prop where
  whole : ¬n.DotOpensName → tokenize file n.text =
    [⟨.number,n.text,⟨file,.origin,Position.origin.advance n.text.dropLast⟩,0,none⟩]
  split : n.DotOpensName → ∃ name rest, tokenize file n.text =
      ⟨.number,n.whole,⟨file,.origin,Position.origin.advance n.whole.dropLast⟩,0,none⟩ ::
        name :: rest ∧
    name.kind = .identifier ∧ name.image = '.' :: n.scale.takeWhile isWordChar ∧
    name.error = none

/-- Literals of every form are read to their ends, unless their dot opens a name. -/
theorem tokenize_float (file : Text) (n : FloatLiteral) : ReadsFloat file n := by
  obtain ⟨c,ds,hw⟩ := List.exists_cons_of_ne_nil n.nonempty
  have hc : c.isDigit = true := n.digits c (hw ▸ List.mem_cons_self)
  have htext : n.text = c :: (ds ++ (n.fraction ++ n.scale)) := by
    rw [FloatLiteral.text,hw]
    rfl
  have hx := n.x_notMem_text
  constructor
  case whole =>
    intro h
    have hd := n.decimalNumber_text h
    generalize n.fraction ++ n.scale = r at *
    rw [htext] at hx hd ⊢
    refine tokenize_of_lexeme ?_ file
    have hl : ∀ p, lexeme p c (ds ++ r ++ []) = ⟨.token .number none,(ds ++ r).length⟩ :=
      lexeme_of_decimalNumber hc (by rwa [List.append_nil]) (by rwa [List.append_nil])
    rw [List.append_nil] at hl
    exact hl _
  case split =>
    intro h
    have hd := n.decimalNumber_whole h
    rw [htext,hw] at hd
    rw [htext] at hx ⊢
    have hl := lexemes_of_lexeme (lexeme_of_decimalNumber hc hx hd '\n')
    have hname : n.scale.take (nameRun n.scale) = n.scale.takeWhile isWordChar := by
      rw [nameRun_of_dot_notMem n.dot_notMem_scale]
      exact (List.prefix_iff_eq_take.mp (List.takeWhile_prefix _)).symm
    rw [tokenize,← List.cons_append,hl,h.1,List.singleton_append,lexemes,
      lexeme_of_dot (n.startsWith_scale h.2),hw,← hname]
    exact ⟨_,_,rfl,rfl,rfl,rfl⟩

/-- A whole number with a dot and an exponent, but no digits between them. -/
def dottedExponent : FloatLiteral where
  whole := ['1']
  fraction := ['.']
  exponent := ['e','5']
  suffix := []
  digits := by simp [AsciiDigits]
  nonempty := List.cons_ne_nil _ _
  isFraction := .dot nofun
  isExponent := .plain (by simp [AsciiDigits]) (List.cons_ne_nil _ _)
  isSuffix := .none

theorem dottedExponent_is_split :
    dottedExponent.text = "1.e5".toList ∧
    tokenize [] dottedExponent.text = [⟨.number,['1'],⟨[],⟨1,1⟩,⟨1,1⟩⟩,0,none⟩,
      ⟨.identifier,".e5".toList,⟨[],⟨1,2⟩,⟨1,4⟩⟩,1,none⟩] ∧
    ¬∀ n : FloatLiteral, ∃ t, tokenize [] n.text = [t] ∧ t.kind = .number ∧ t.error = none ∧
      t.image = n.text := by
  have htokens : tokenize [] dottedExponent.text = [⟨.number,['1'],⟨[],⟨1,1⟩,⟨1,1⟩⟩,0,none⟩,
      ⟨.identifier,".e5".toList,⟨[],⟨1,2⟩,⟨1,4⟩⟩,1,none⟩] := by decide +kernel
  refine ⟨rfl,htokens,fun h => ?_⟩
  obtain ⟨t,ht,-⟩ := h dottedExponent
  rw [htokens] at ht
  cases ht

end QScope.Lexing
