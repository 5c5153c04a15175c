import QScope.Tokens

/-! # How far a lexeme reaches: strings, symbols, numbers, names and comments -/
namespace QScope.TokenExtents
open CharacterClasses

/-- The number of characters in front that all satisfy `p`. -/
def run (p : Char → Bool) (t : Text) : Nat := (t.takeWhile p).length

theorem run_le (p : Char → Bool) (t : Text) : run p t ≤ t.length := (List.takeWhile_sublist p).length_le

def startsWith (p : Char → Bool) (t : Text) : Bool := t.head?.any p

/-- How many characters follow the opening quote of a string through the closing one, if there is
one. A backslash takes the character after it along. -/
def stringRun : Text → Option Nat
  | [] => none
  | '"' :: _ => some 1
  | '\\' :: _ :: t => (stringRun t).map (· + 2)
  | _ :: t => (stringRun t).map (· + 1)

theorem stringRun_le {t : Text} {n : Nat} (h : stringRun t = some n) : n ≤ t.length := by
  fun_induction stringRun t generalizing n with
  | case1 => simp at h
  | case2 t => simp_all
  | case3 c t ih =>
    obtain ⟨m,hm,rfl⟩ := Option.map_eq_some_iff.mp h
    have := ih hm
    simp only [List.length_cons]; omega
  | case4 c t _ _ ih =>
    obtain ⟨m,hm,rfl⟩ := Option.map_eq_some_iff.mp h
    have := ih hm
    simp only [List.length_cons]; omega

/-- The text between quotes that holds one character, plain or escaped. -/
def isCharacterBody : Text → Bool
  | [_] => true
  | ['\\',_] => true
  | ['\\',a,b,c] => isDigit a && isDigit b && isDigit c
  | _ => false

/-- How many characters go on with a symbol behind a backtick; further backticks join on. A part
that begins with a colon is a handle, and only a handle holds colons and slashes. -/
def symbolRun (handle : Bool) : Text → Nat
  | [] => 0
  | c :: t =>
    if c = '\x60' then symbolRun (t.head? == some ':') t + 1
    else if isWordChar c || c == '.' || handle && (c == ':' || c == '/') then symbolRun handle t + 1
    else 0

theorem symbolRun_le (handle : Bool) (t : Text) : symbolRun handle t ≤ t.length := by
  fun_induction symbolRun handle t <;> simp <;> omega

/-- Whether a number goes on through `c` before `t`: a dot that opens no name, or a mark of time
or exponent with its digits. -/
def joinsNumber (c : Char) (t : Text) : Bool :=
  match c with
  | '.' => !startsWith isNameStart t && t.head? != some '.'
  | ':' => startsWith isDigit t && startsWith isDigit (t.drop 1)
  | 'D' | 'T' | 'e' => startsWith isDigit t
  | _ => false

def isSign (c : Char) : Bool := c == '+' || c == '-'

/-- How many characters in front are digits of a number, its dots, time marks and exponents. -/
def numberRun : Text → Nat
  | [] => 0
  | [c] => if isDigit c || joinsNumber c [] then 1 else 0
  | c :: s :: t =>
    if isDigit c || joinsNumber c (s :: t) then numberRun (s :: t) + 1
    else if c = 'e' && isSign s && startsWith isDigit t then numberRun t + 2
    else 0

theorem numberRun_le (t : Text) : numberRun t ≤ t.length := by
  fun_induction numberRun t <;> simp_all

def isTypeLetter (c : Char) : Bool := "bhijefcpmdznuvtg".toList.contains c

/-- Null and infinity, in a small or a capital letter. -/
def isNullMark (c : Char) : Bool := "NnWw".toList.contains c

/-- The letters that may stand behind a number: one type letter, a null or infinity mark, or the
mark with a type letter behind it. -/
def isTypeSuffix : Text → Bool
  | [] => true
  | [c] => isTypeLetter c || isNullMark c
  | [c,d] => isNullMark c && isTypeLetter d
  | _ => false

/-- The length of a number in decimal digits with the letters behind it, and what is wrong with it.
Boolean literals hold zeros and ones only. -/
def decimalNumber (t : Text) : Nat × Option LexicalError :=
  let n := numberRun t
  let suffix := (t.drop n).takeWhile isAlphanumeric
  let sound := isTypeSuffix suffix &&
    (suffix != ['b'] || (t.take n).all fun c => c == '0' || c == '1')
  (n + suffix.length,if sound then none else some .invalidNumber)

/-- The length of a number with the given text behind its `0x`, and what is wrong with it: whatever
is alphanumeric behind its digits. -/
def byteNumber (t : Text) : Nat × Option LexicalError :=
  let n := run isHexDigit t
  let excess := run isAlphanumeric (t.drop n)
  (2 + n + excess,if excess = 0 then none else some .invalidNumber)

/-- The length of the number in front of a text, and what is wrong with it. -/
def numberExtent : Text → Nat × Option LexicalError
  | '0' :: 'x' :: t => byteNumber t
  | t => decimalNumber t

theorem numberExtent_le (t : Text) : (numberExtent t).1 ≤ t.length := by
  unfold numberExtent
  split
  · rename_i t
    have h₁ := run_le CharacterClasses.isHexDigit t
    have h₂ := run_le CharacterClasses.isAlphanumeric (t.drop (run CharacterClasses.isHexDigit t))
    simp only [byteNumber,List.length_cons,List.length_drop] at *
    omega
  · have h₁ := numberRun_le t
    have h₂ := run_le CharacterClasses.isAlphanumeric (t.drop (numberRun t))
    simp only [decimalNumber,run,List.length_drop] at *
    omega

/-- How many characters in front go on with a name: word characters, and dots before an ASCII
letter. -/
def nameRun : Text → Nat
  | [] => 0
  | c :: t => if isWordChar c || c == '.' && startsWith isNameStart t then nameRun t + 1 else 0

theorem nameRun_le (t : Text) : nameRun t ≤ t.length := by
  fun_induction nameRun t <;> simp_all

/-- The elements up to and including the first that satisfies `p`. -/
def through {α : Type} (p : α → Bool) : List α → List α
  | [] => []
  | a :: as => if p a then [a] else a :: through p as

theorem isPrefix_through {α : Type} (p : α → Bool) (l : List α) : through p l <+: l := by
  fun_induction through p l with
  | case1 => exact List.prefix_rfl
  | case2 a l h => exact ⟨l,rfl⟩
  | case3 a l h ih => exact (List.prefix_cons_inj a).mpr ih

/-- A block comment ends with the line that holds a backslash alone. -/
def blockComment (t : Text) : Text :=
  (through (fun l => Texts.trimRight l == ['\\']) (Texts.lines t)).flatten

theorem isPrefix_blockComment (t : Text) : blockComment t <+: t := by
  have ⟨r,hr⟩ := isPrefix_through (fun l => Texts.trimRight l == ['\\']) (Texts.lines t)
  exact ⟨r.flatten,by rw [blockComment,← List.flatten_append,hr,Texts.flatten_lines]⟩

end QScope.TokenExtents
