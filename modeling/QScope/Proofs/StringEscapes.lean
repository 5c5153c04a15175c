import QScope.Proofs.ParsedTokens
import QScope.Proofs.RulePasses
import QScope.Proofs.TokenImages

/-! # String escapes: the lexer and the linter read one grammar of strings

What stands between the quotes is read in units, plain characters and escapes. The lexer looks for
the closing quote and at the length, the linter for the first backslash that opens no escape. -/
namespace QScope

/-- A unit of a string: a character other than a backslash, a backslash with one of five characters,
or a backslash with three octal digits. -/
inductive IsUnit : Text → Prop
  | plain (c : Char) (hc : c ≠ '\\') : IsUnit [c]
  | letter (c : Char) (hc : c ∈ ['n','t','r','\\','"']) : IsUnit ['\\',c]
  | octal (c d e : Char) (h : ∀ x ∈ [c,d,e], '0' ≤ x ∧ x ≤ '7') : IsUnit ['\\',c,d,e]

/-- A text that is units, one behind the other, and then some rest. -/
structure Units (us : List Text) (rest t : Text) : Prop where
  units : ∀ u ∈ us, IsUnit u
  text : t = us.flatten ++ rest

/-- A backslash that opens no unit. -/
structure Stuck (t : Text) : Prop where
  backslash : t.head? = some '\\'
  closed : ∀ u, IsUnit u → ¬u <+: t

section
variable {t u rest : Text} {us : List Text}

theorem IsUnit.ne_nil (h : IsUnit u) : u ≠ [] := by
  cases h <;> exact List.cons_ne_nil _ _

theorem Units.nil (t : Text) : Units [] t t := ⟨nofun,rfl⟩

theorem Units.cons (hu : IsUnit u) (h : Units us rest t) : Units (u :: us) rest (u ++ t) :=
  ⟨List.forall_mem_cons.mpr ⟨hu,h.units⟩,by rw [h.text,List.flatten_cons,List.append_assoc]⟩

/-- What holds of the rest, and in front of a unit of what holds behind it, holds of the text. -/
theorem Units.induction {P : List Text → Text → Prop} (h : Units us rest t) (nil : P [] rest)
    (cons : ∀ u us t, IsUnit u → P us t → P (u :: us) (u ++ t)) : P us t := by
  obtain ⟨hus,rfl⟩ := h
  induction us with
  | nil => exact nil
  | cons u us ih =>
    obtain ⟨hu,hus⟩ := List.forall_mem_cons.mp hus
    rw [List.flatten_cons,List.append_assoc]
    exact cons u us _ hu (ih hus)

end

/-! How the linter reads units -/

namespace Linting
open CharacterClasses

section
variable {t u : Text} {us : List Text} {c d e : Char}

theorem isEscapeLetter_iff : isEscapeLetter c = true ↔ c ∈ ['n','t','r','\\','"'] := by
  rw [isEscapeLetter,List.contains_iff_mem]
  rfl

theorem isOctalDigit_iff : [c,d,e].all isOctalDigit = true ↔
    ∀ x ∈ [c,d,e], '0' ≤ x ∧ x ≤ '7' := by
  simp [isOctalDigit]

/-- Octal digits are none of the characters that make an escape alone. -/
theorem isEscapeLetter_of_octal (h : '0' ≤ c ∧ c ≤ '7') : isEscapeLetter c = false := by
  refine Bool.eq_false_iff.mpr fun hc => ?_
  have hm := isEscapeLetter_iff.mp hc
  simp only [List.mem_cons,List.not_mem_nil,or_false] at hm
  rcases hm with rfl | rfl | rfl | rfl | rfl <;> revert h <;> decide

/-- Units are passed over. -/
theorem badEscape?_append (h : IsUnit u) (t : Text) : badEscape? (u ++ t) = badEscape? t := by
  cases h with
  | plain c hc =>
    rw [List.singleton_append,badEscape?]
    exact fun h => hc h
  | letter c hc =>
    rw [badEscape?.eq_def]
    exact if_pos (isEscapeLetter_iff.mpr hc)
  | octal c d e h =>
    have hl := isEscapeLetter_of_octal (h c (by simp))
    simp only [List.cons_append,List.nil_append,badEscape?,hl,isOctalDigit_iff.mpr h]
    rfl

theorem badEscape?_units (h : Units us rest t) : badEscape? t = badEscape? rest := by
  refine h.induction (P := fun _ t => badEscape? t = badEscape? rest) rfl fun u us t hu ih => ?_
  rw [badEscape?_append hu,ih]

/-- What opens a unit behind a backslash. -/
theorem exists_of_isPrefix (h : IsUnit u) (hp : u <+: '\\' :: t) :
    (∃ c v, t = c :: v ∧ isEscapeLetter c = true) ∨
      ∃ c d e v, t = c :: d :: e :: v ∧ [c,d,e].all isOctalDigit = true := by
  obtain ⟨v,hv⟩ := hp
  cases h with
  | plain c hc => exact absurd (List.cons.inj hv).1 hc
  | letter c hc => exact .inl ⟨c,v,(List.cons.inj hv).2.symm,isEscapeLetter_iff.mpr hc⟩
  | octal c d e h => exact .inr ⟨c,d,e,v,(List.cons.inj hv).2.symm,isOctalDigit_iff.mpr h⟩

theorem stuck_of (hl : ∀ c v, t = c :: v → isEscapeLetter c = false)
    (ho : ∀ c d e v, t = c :: d :: e :: v → [c,d,e].all isOctalDigit = false) :
    Stuck ('\\' :: t) := by
  refine ⟨rfl,fun u hu hp => ?_⟩
  rcases exists_of_isPrefix hu hp with ⟨c,v,ht,hc⟩ | ⟨c,d,e,v,ht,hc⟩
  · rw [hl c v ht] at hc
    cases hc
  · rw [ho c d e v ht] at hc
    cases hc

/-- A text is units to its end, or up to a backslash that opens none. -/
theorem exists_units (t : Text) : ∃ us rest, Units us rest t ∧ (rest = [] ∨ Stuck rest) := by
  fun_induction badEscape? t with
  | case1 => exact ⟨[],[],.nil [],.inl rfl⟩
  | case2 => exact ⟨[],_,.nil _,.inr (stuck_of nofun nofun)⟩
  | case3 c t hc ih =>
    obtain ⟨us,rest,h,hr⟩ := ih
    exact ⟨_,rest,h.cons (.letter c (isEscapeLetter_iff.mp hc)),hr⟩
  | case4 c hc d e t ho ih =>
    obtain ⟨us,rest,h,hr⟩ := ih
    exact ⟨_,rest,h.cons (.octal c d e (isOctalDigit_iff.mp ho)),hr⟩
  | case5 c hc d e t ho =>
    refine ⟨[],_,.nil _,.inr (stuck_of ?_ ?_)⟩
    · rintro _ _ ⟨⟩
      exact Bool.eq_false_iff.mpr hc
    · rintro _ _ _ _ ⟨⟩
      exact Bool.eq_false_iff.mpr ho
  | case6 c t hc hshort =>
    refine ⟨[],_,.nil _,.inr (stuck_of ?_ ?_)⟩
    · rintro _ _ ⟨⟩
      exact Bool.eq_false_iff.mpr hc
    · rintro _ d e v ⟨⟩
      exact absurd rfl (hshort d e v)
  | case7 c t hc ih =>
    obtain ⟨us,rest,h,hr⟩ := ih
    exact ⟨_,rest,h.cons (.plain c hc),hr⟩

theorem badEscape?_stuck (h : Stuck t) : badEscape? t = some (t.take 2) := by
  obtain ⟨hb,hc⟩ := h
  obtain ⟨t,rfl⟩ := List.head?_eq_some_iff.mp hb
  cases t with
  | nil => rfl
  | cons c t =>
    have hl : ¬isEscapeLetter c = true := fun hl =>
      hc _ (.letter c (isEscapeLetter_iff.mp hl)) (List.prefix_append ['\\',c] t)
    rw [badEscape?.eq_def]
    refine (if_neg hl).trans ?_
    split
    · rename_i d e v
      refine if_neg fun ho => ?_
      exact hc _ (.octal c d e (isOctalDigit_iff.mp ho)) (List.prefix_append ['\\',c,d,e] v)
    · rfl

theorem badEscape?_eq_none : badEscape? t = none ↔ ∃ us, Units us [] t := by
  constructor
  · intro h
    obtain ⟨us,rest,hus,rfl | hs⟩ := exists_units t
    · exact ⟨us,hus⟩
    · rw [badEscape?_units hus,badEscape?_stuck hs] at h
      cases h
  · rintro ⟨us,hus⟩
    exact badEscape?_units hus

end
end Linting

/-! How the lexer reads units -/

namespace Lexing
open TokenExtents CharacterClasses

section
variable {t u rest : Text} {us : List Text} {n : Nat}

/-- A character that ends no string is passed over. -/
theorem stringRun_of_plain {c : Char} (hc : c ≠ '\\') (hn : 0 < n)
    (h : stringRun (c :: t) = some (n + 1)) : stringRun t = some n := by
  have hq : c ≠ '"' := by
    rintro rfl
    rw [stringRun,Option.some.injEq] at h
    omega
  rw [stringRun_cons hq hc,Option.map_eq_some_iff] at h
  obtain ⟨k,hk,hkn⟩ := h
  rwa [← Nat.succ_inj.mp hkn]

theorem stringRun_of_escape {c : Char} (h : stringRun ('\\' :: c :: t) = some (n + 2)) :
    stringRun t = some n := by
  rw [stringRun,Option.map_eq_some_iff] at h
  obtain ⟨k,hk,hkn⟩ := h
  obtain rfl : k = n := Nat.add_right_cancel hkn
  exact hk

/-- Only the quote that closes a string ends its run. -/
theorem stringRun_unit (hu : IsUnit u) (h : stringRun (u ++ t) = some (u.length + n))
    (hn : 0 < n) : stringRun t = some n := by
  rw [Nat.add_comm] at h
  cases hu with
  | plain c hc => exact stringRun_of_plain hc hn h
  | letter c hc => exact stringRun_of_escape h
  | octal c d e ho =>
    have hne : ∀ x ∈ [c,d,e], x ≠ '\\' := by
      rintro x hx rfl
      exact absurd (ho _ hx) (by decide)
    have hd : stringRun (d :: e :: t) = some (n + 2) := stringRun_of_escape h
    have he : stringRun (e :: t) = some (n + 1) :=
      stringRun_of_plain (hne d (by simp)) n.succ_pos hd
    exact stringRun_of_plain (hne e (by simp)) hn he

theorem stringRun_units (h : Units us rest t) (hn : 0 < n) {v : Text}
    (hr : stringRun (t ++ v) = some (t.length + n)) :
    stringRun (rest ++ v) = some (rest.length + n) := by
  refine h.induction (P := fun _ t => stringRun (t ++ v) = some (t.length + n) →
    stringRun (rest ++ v) = some (rest.length + n)) id (fun u us t hu ih h => ih ?_) hr
  rw [List.append_assoc,List.length_append,Nat.add_assoc] at h
  exact stringRun_unit hu h (by omega)

/-- The backslash at the end of a text would take along the quote behind it. -/
theorem stringRun_ne_of_backslash (t : Text) : stringRun ('\\' :: '"' :: t) ≠ some 2 := by
  intro h
  rw [stringRun,Option.map_eq_some_iff] at h
  obtain ⟨k,hk,hk2⟩ := h
  have hpos := stringRun_pos hk
  omega

theorem isDigit_of_octal {c : Char} (h : '0' ≤ c ∧ c ≤ '7') : isDigit c = true := by
  have hc : c.isDigit = true := by
    simp only [Char.isDigit,Bool.and_eq_true,decide_eq_true_eq]
    exact ⟨h.1,UInt32.le_trans h.2 (by decide)⟩
  rw [isDigit,hc,Bool.true_or]

theorem not_isDigit_of_letter {c : Char} (h : c ∈ ['n','t','r','\\','"']) : isDigit c = false := by
  simp only [List.mem_cons,List.not_mem_nil,or_false] at h
  rcases h with rfl | rfl | rfl | rfl | rfl <;> decide

/-- A body of one character is one unit. -/
theorem isCharacterBody_append (hu : IsUnit u) (t : Text) :
    isCharacterBody (u ++ t) = true ↔ t = [] := by
  cases t with
  | nil =>
    refine iff_of_true ?_ rfl
    cases hu with
    | plain | letter => simp [isCharacterBody]
    | octal c d e ho => simp [isCharacterBody,fun x hx => isDigit_of_octal (ho x hx)]
  | cons d t =>
    refine iff_of_false ?_ (List.cons_ne_nil d t)
    unfold isCharacterBody
    cases hu with
    | plain c hc => split <;> simp_all
    | letter c hc =>
      have hdigit := not_isDigit_of_letter hc
      split <;> simp_all
    | octal => split <;> simp_all

theorem isCharacterBody_units (h : Units us [] t) : isCharacterBody t = true ↔ us.length = 1 := by
  obtain ⟨hus,rfl⟩ := h
  cases us with
  | nil => simp [isCharacterBody]
  | cons u us =>
    obtain ⟨hu,hus⟩ := List.forall_mem_cons.mp hus
    have hnil : us.flatten = [] ↔ us = [] := by
      rw [List.flatten_eq_nil_iff,List.eq_nil_iff_forall_not_mem]
      exact forall₂_congr fun v hv => iff_of_false (hus v hv).ne_nil id
    rw [List.append_nil,List.flatten_cons,isCharacterBody_append hu,hnil,List.length_cons,
      Nat.add_eq_right,List.length_eq_zero_iff]

/-! Strings as they are lexed -/

/-- Only a quote opens a string. -/
theorem OpensToken.string_of_kind {p c : Char} {rest : Text} {e : Extent} {kind : Kind}
    {error : Option LexicalError} (h : OpensToken p c rest e) (hs : e.shape = .token kind error)
    (hk : kind = .string ∨ kind = .character) : c = '"' ∧ e = Lexing.string rest := by
  cases h with
  | string hc => exact ⟨hc,rfl⟩
  | punctuation => exact absurd hs (punctuation_ne (.inr (.inr (.inr hk))) c rest error)
  | name =>
    rw [Lexing.name] at hs
    cases hs
    split at hk <;> exact absurd hk (by decide)
  | command | symbol | number =>
    cases hs
    exact absurd hk (by decide)

/-- A string that is closed is a body between quotes, the second of which is the first that no
backslash takes along. -/
theorem exists_body {file t : Text} {token : Token} (h : token ∈ tokenize file t)
    (hk : token.kind = .string ∨ token.kind = .character) (he : token.error = none) :
    ∃ body behind, token.image = '"' :: (body ++ ['"']) ∧
      stringRun (body ++ '"' :: behind) = some (body.length + 1) ∧
      token.kind = if isCharacterBody body then .character else .string := by
  obtain ⟨q,c,x,u,hl,hn⟩ := exists_lexeme (mem_of_locate h)
  obtain ⟨hs,hi⟩ := Lexeme.mk.inj hl
  have ho : OpensToken q c (x ++ u) (lexeme q c (x ++ u)) := opensToken (by rw [← hs]; rfl)
  obtain ⟨rfl,hstring⟩ := ho.string_of_kind hs.symm hk
  rw [hstring,Lexing.string] at hs hn
  cases hrun : stringRun (x ++ u) with
  | none =>
    rw [hrun] at hs
    rw [(Shape.token.inj hs).2] at he
    cases he
  | some n =>
    rw [hrun] at hs hn
    obtain rfl : n = x.length := hn
    have hlast := getLast?_take_stringRun hrun
    rw [List.take_left] at hlast
    obtain ⟨body,rfl⟩ := List.getLast?_eq_some_iff.mp hlast
    refine ⟨body,u,hi,?_,?_⟩
    · simpa using hrun
    · rw [(Shape.token.inj hs).1]
      simp

end
end Lexing

/-! What is said of the strings of a text -/

namespace Linting
open Annotating

def escapeFindings (tokens : List AnnotatedToken) (x : AnnotatedToken) : List Finding :=
  (lint [] tokens).filter fun f => f.token == x && f.problem.rule == .invalidEscape

/-- The body of a string is units, or units up to a backslash that opens none. Then that backslash
is reported with the character behind it, and nothing else is. A body of units is a character when
it is one. -/
structure EscapesRead (tokens : List AnnotatedToken) (x : AnnotatedToken) (body : Text) : Prop where
  quoted : x.image = '"' :: (body ++ ['"'])
  units : (∃ us, Units us [] body) ∨ ∃ us rest, Units us rest body ∧ Stuck rest
  clean : escapeFindings tokens x = [] ↔ ∃ us, Units us [] body
  stuck : ∀ us rest, Units us rest body → Stuck rest → ∃ c t, rest = '\\' :: c :: t ∧
    escapeFindings tokens x = [⟨x,.invalidEscape ['\\',c]⟩]
  single : ∀ us, Units us [] body → (x.kind = .character ↔ us.length = 1)

section
variable {file t : Text} {tokens : List AnnotatedToken} {x : AnnotatedToken}
  {following : Option AnnotatedToken}

theorem filter_invalidEscape_problems (following : Option AnnotatedToken) :
    (problems tokens x following).filter (·.rule == .invalidEscape) = (invalidEscape? x).toList := by
  have husage : (usage? tokens x).toList.filter (·.rule == .invalidEscape) = [] := by
    refine List.filter_eq_nil_iff.mpr fun p hp hr => ?_
    have hu := isUsage_of_usage? (Option.mem_toList.mp hp)
    rw [beq_iff_eq.mp hr] at hu
    cases hu
  refine (filter_problems (· == .invalidEscape) following).trans ?_
  rw [husage]
  exact List.append_nil _

/-- The findings are those of the one rule on the one token. -/
theorem escapeFindings_eq (hx : x ∈ parse file t) :
    escapeFindings (parse file t) x = (invalidEscape? x).toList.map (Finding.mk x) := by
  have hindex : escapeFindings (parse file t) x =
      ((lint [] (parse file t)).filter (·.token.index == x.index)).filter fun f =>
        f.token == x && f.problem.rule == .invalidEscape := by
    rw [List.filter_filter]
    refine List.filter_congr fun f _ => ?_
    by_cases hf : f.token = x <;> simp [hf]
  rw [hindex,filter_lint (fun _ _ h => index_of_parse h),getElem?_index hx,Option.toList_some,
    List.flatMap_singleton,filter_disabled_nil,List.filter_map,
    ← filter_invalidEscape_problems (parse file t)[x.index + 1]?]
  congr 1
  refine List.filter_congr fun p _ => ?_
  simp

theorem parse_escapesRead (hx : x ∈ parse file t) (hk : x.kind = .string ∨ x.kind = .character)
    (he : x.error = none) : EscapesRead (parse file t) x (body x.image) := by
  obtain ⟨b,behind,himage,hrun,hkind⟩ := Lexing.exists_body (toToken_mem_tokenize hx) hk he
  have hb : body x.image = b := by simp [body,himage]
  have hfound : escapeFindings (parse file t) x =
      (badEscape? b).toList.map fun e => ⟨x,.invalidEscape e⟩ := by
    rw [escapeFindings_eq hx,invalidEscape?,if_pos ⟨hk,he⟩,hb]
    cases badEscape? b <;> rfl
  rw [hb]
  constructor
  case quoted => exact himage
  case units =>
    obtain ⟨us,rest,hus,rfl | hs⟩ := exists_units b
    · exact .inl ⟨us,hus⟩
    · exact .inr ⟨us,rest,hus,hs⟩
  case clean =>
    rw [hfound,List.map_eq_nil_iff,Option.toList_eq_nil_iff,badEscape?_eq_none]
  case stuck =>
    intro us rest hus hs
    have hfirst := (badEscape?_units hus).trans (badEscape?_stuck hs)
    obtain ⟨r,rfl⟩ := List.head?_eq_some_iff.mp hs.backslash
    cases r with
    | nil =>
      have hend := Lexing.stringRun_units hus Nat.one_pos hrun
      exact absurd hend (Lexing.stringRun_ne_of_backslash behind)
    | cons c r =>
      refine ⟨c,r,rfl,?_⟩
      rw [hfound,hfirst]
      rfl
  case single =>
    intro us hus
    rw [← Lexing.isCharacterBody_units hus,hkind]
    split <;> simp_all

/-- An escape that is none, behind one that is and in front of another that is none. -/
theorem parse_escapesRead_octal : ∃ x ∈ parse [] "\"\\101\\8\\9\"".toList,
    (x.kind = .string ∨ x.kind = .character) ∧ x.error = none ∧
      EscapesRead (parse [] "\"\\101\\8\\9\"".toList) x "\\101\\8\\9".toList ∧
      escapeFindings (parse [] "\"\\101\\8\\9\"".toList) x = [⟨x,.invalidEscape "\\8".toList⟩] := by
  let x := (parse [] "\"\\101\\8\\9\"".toList).get ⟨0,by decide +kernel⟩
  have hx : x ∈ parse [] "\"\\101\\8\\9\"".toList := List.get_mem _ _
  have hk : x.kind = .string ∨ x.kind = .character := by decide +kernel
  have he : x.error = none := by decide +kernel
  have hb : body x.image = "\\101\\8\\9".toList := by decide +kernel
  have hread := parse_escapesRead hx hk he
  rw [hb] at hread
  exact ⟨x,hx,hk,he,hread,by decide +kernel⟩

end
end Linting
end QScope
