import QScope.TokenExtents

/-! # Lexing: a text as a sequence of lexemes, and its tokens with their places -/
namespace QScope.Lexing
open CharacterClasses TokenExtents

/-- What a lexeme is: a token, or one of the gaps between tokens. -/
inductive Shape
  | blank | lineComment | blockComment | scriptEnd
  | token (kind : Kind) (error : Option LexicalError)
deriving DecidableEq

structure Lexeme where
  shape : Shape
  text : Text
deriving DecidableEq

/-- The shape of a lexeme, and how many characters belong to it after its first. -/
structure Extent where
  shape : Shape
  more : Nat
deriving DecidableEq

def isOperator (c : Char) : Bool := "+-*%!&|<>=~,^#_$?@.".toList.contains c

def isIterator (c : Char) : Bool := c == '\'' || c == '/' || c == '\\'

def isGap (c : Char) : Bool := c == ' ' || c == '\t' || c == '\r' || c == '\n'

def pairs : List Text := ["<=",">=","<>"].map String.toList

/-- Operators of two characters. -/
def pairKind? (c d : Char) : Option Kind :=
  if c = ':' && d = ':' then some .doubleColon
  else if isIterator c && d = ':' then some .iterator
  else if pairs.contains [c,d] then some .operator
  else if isOperator c && d = ':' then some .amend
  else none

def singleKind? : Char → Option Kind
  | '(' => some .openParen
  | ')' => some .closeParen
  | '[' => some .openBracket
  | ']' => some .closeBracket
  | '{' => some .openBrace
  | '}' => some .closeBrace
  | ';' => some .semicolon
  | ':' => some .colon
  | c => if isIterator c then some .iterator else if isOperator c then some .operator else none

/-- An operator or a bracket, of two characters where two make one. -/
def punctuation (c : Char) (rest : Text) : Extent :=
  match rest.head?.bind (pairKind? c) with
  | some kind => ⟨.token kind none,1⟩
  | none =>
    match singleKind? c with
    | some kind => ⟨.token kind none,0⟩
    | none => ⟨.token .operator (some .unexpectedCharacter),0⟩

theorem punctuation_le (c : Char) (rest : Text) : (punctuation c rest).more ≤ rest.length := by
  unfold punctuation
  split
  · cases rest <;> simp_all
  · split <;> simp

/-- A string through its closing quote. One that is never closed ends with its line. -/
def string (rest : Text) : Extent :=
  match stringRun rest with
  | some n =>
    ⟨.token (if isCharacterBody (rest.take (n - 1)) then .character else .string) none,n⟩
  | none => ⟨.token .string (some .unterminatedString),(Texts.firstLine rest).length⟩

theorem string_le (rest : Text) : (string rest).more ≤ rest.length := by
  unfold string
  split
  · exact stringRun_le (by assumption)
  · exact (Texts.isPrefix_firstLine rest).length_le

def symbol (rest : Text) : Extent :=
  ⟨.token .symbol none,symbolRun (rest.head? == some ':') rest⟩

def number (c : Char) (rest : Text) : Extent :=
  let n := numberExtent (c :: rest)
  ⟨.token .number n.2,n.1 - 1⟩

theorem number_le (c : Char) (rest : Text) : (number c rest).more ≤ rest.length := by
  have := numberExtent_le (c :: rest)
  simp only [number,List.length_cons] at *; omega

def name (c : Char) (rest : Text) : Extent :=
  let n := nameRun rest
  ⟨.token (if Keywords.all.contains (c :: rest.take n) then .keyword else .identifier) none,n⟩

/-- The forms that a line can open with: a block comment, the end of the script, a command. -/
def lineForm? (t : Text) : Option Extent :=
  match Texts.trimRight (Texts.firstLine t) with
  | ['/'] => some ⟨.blockComment,(blockComment t).length - 1⟩
  | ['\\'] => some ⟨.scriptEnd,t.length - 1⟩
  | '\\' :: c :: line => if isBlank c then none else some ⟨.token .command none,line.length + 1⟩
  | _ => none

theorem lineForm?_le {t : Text} {e : Extent} (h : lineForm? t = some e) : e.more ≤ t.length - 1 := by
  have hl := ((Texts.isPrefix_trimRight _).trans (Texts.isPrefix_firstLine t)).length_le
  unfold lineForm? at h
  split at h
  · have := (isPrefix_blockComment t).length_le
    simp only [Option.some.injEq] at h; subst h; dsimp only; omega
  · simp only [Option.some.injEq] at h; subst h; simp
  · rename_i hs
    rw [hs] at hl
    simp only [List.length_cons] at hl
    split at h
    · simp at h
    · simp only [Option.some.injEq] at h; subst h; dsimp only; omega
  · simp at h

/-- A slash opens a comment at the left margin and behind a space or a tab. -/
def opensComment (previous : Char) : Bool := previous == '\n' || previous == ' ' || previous == '\t'

/-- The lexeme that `c` opens within a line. -/
def withinLine (previous c : Char) (rest : Text) : Extent :=
  if isGap c then ⟨.blank,0⟩
  else if c = '/' ∧ opensComment previous then ⟨.lineComment,(Texts.firstLine rest).length⟩
  else if c = '"' then string rest
  else if c = '\x60' then symbol rest
  else if isDigit c || c == '.' && startsWith isDigit rest then number c rest
  else if isNameStart c || c == '.' && startsWith isNameStart rest then name c rest
  else punctuation c rest

theorem withinLine_le (p c : Char) (rest : Text) : (withinLine p c rest).more ≤ rest.length := by
  unfold withinLine
  split; · simp
  split; · exact (Texts.isPrefix_firstLine rest).length_le
  split; · exact string_le rest
  split; · exact symbolRun_le _ rest
  split; · exact number_le c rest
  split; · exact nameRun_le rest
  exact punctuation_le c rest

/-- The lexeme that `c` opens behind the character `previous`; behind a newline is the left
margin. -/
def lexeme (previous c : Char) (rest : Text) : Extent :=
  if previous = '\n' then (lineForm? (c :: rest)).getD (withinLine previous c rest)
  else withinLine previous c rest

/-- A lexeme ends within the text. -/
theorem lexeme_le (p c : Char) (rest : Text) : (lexeme p c rest).more ≤ rest.length := by
  unfold lexeme
  split
  · cases h : lineForm? (c :: rest) with
    | none => exact withinLine_le p c rest
    | some e => simpa using lineForm?_le h
  · exact withinLine_le p c rest

/-- The lexemes of a text, gaps included. -/
def lexemes (previous : Char) : Text → List Lexeme
  | [] => []
  | c :: rest =>
    let e := lexeme previous c rest
    ⟨e.shape,c :: rest.take e.more⟩ ::
      lexemes ((rest.take e.more).getLastD c) (rest.drop e.more)
termination_by t => t.length

/-- Nothing of a text is lost. -/
theorem lexemes_flatMap (p : Char) (t : Text) : (lexemes p t).flatMap (·.text) = t := by
  fun_induction lexemes p t with
  | case1 => rfl
  | case2 p c rest e ih => rw [List.flatMap_cons,ih,List.cons_append,List.take_append_drop]

/-- The tokens among lexemes that begin at a position, numbered from an index on. -/
def locate (file : Text) (index : Nat) (p : Position) : List Lexeme → List Token
  | [] => []
  | l :: ls =>
    match l.shape with
    | .token kind error =>
      ⟨kind,l.text,⟨file,p,p.advance l.text.dropLast⟩,index,error⟩ ::
        locate file (index + 1) (p.advance l.text) ls
    | .blank | .lineComment | .blockComment | .scriptEnd => locate file index (p.advance l.text) ls

/-- A text begins at the left margin. -/
def tokenize (file text : Text) : List Token := locate file 0 .origin (lexemes '\n' text)

end QScope.Lexing
