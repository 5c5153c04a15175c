import QScope.Lexing
import QScope.Proofs.Lines
import QScope.Proofs.Offsets

/-! # Scanning: the tokens of a text, found by a cursor that goes over one character at a time

A cursor looks a few characters ahead and goes on without asking again whether they are there. The
scan breaks off where it goes beyond the end of the text, and so it does in a loop of more steps
than the text has characters. -/
namespace QScope

/-- The position of the character before, as far as that is in the same line. -/
def Position.back (p : Position) : Position := ⟨p.line,if 1 < p.column then p.column - 1 else 1⟩

namespace Scanning
open CharacterClasses TokenExtents Lexing Texts

/-- Repeats a step as long as a condition holds. Without result if a step has none, or if the
condition still holds after so many steps. -/
def repeatWhile {σ : Type} (more : σ → Bool) (step : σ → Option σ) : Nat → σ → Option σ
  | 0,s => if more s then none else some s
  | n + 1,s => if more s then do repeatWhile more step n (← step s) else some s

/-- A place in a text: the number of characters behind it, and its line and column. -/
structure Cursor where
  offset : Nat
  position : Position
deriving DecidableEq

section
variable (text : Text)

namespace Cursor

def start : Cursor := ⟨0,.origin⟩

def isInside (c : Cursor) : Bool := c.offset < text.length

/-- Goes over the character ahead. At the end of the text there is none. -/
def advance (c : Cursor) : Option Cursor :=
  text[c.offset]?.map fun a => ⟨c.offset + 1,c.position.after a⟩

def advanceBy : Nat → Cursor → Option Cursor
  | 0,c => some c
  | n + 1,c => do advanceBy n (← c.advance text)

/-- The character some places ahead, which is NUL behind the end of the text. -/
def peek (n : Nat) (c : Cursor) : Char := text[c.offset + n]?.getD '\x00'

/-- Whether there is a character ahead that satisfies `p`. -/
def isBefore (p : Char → Bool) (c : Cursor) : Bool := text[c.offset]?.any p

def advanceWhile (p : Char → Bool) (c : Cursor) : Option Cursor :=
  repeatWhile (isBefore text p) (advance text) text.length c

/-- A slash opens a comment at the left margin and behind a space or a tab. -/
def startsComment (c : Cursor) : Bool :=
  c.offset == 0 || c.position.column == 1 ||
    text[c.offset - 1]?.any fun a => a == ' ' || a == '\t'

/-- Goes over a line of a block comment, and says whether that is the last one. -/
def skipCommentLine (c : Cursor) : Option (Cursor × Bool) := do
  let line := lineFrom text c.offset
  let d ← c.advanceBy text line.length
  let e ← if d.isInside text then d.advance text else some d
  return (e,trimRight line == ['\\'])

def skipBlockComment (c : Cursor) : Option Cursor :=
  (repeatWhile (fun (c,closed) => c.isInside text && !closed) (fun (c,_) => c.skipCommentLine text)
    text.length (c,false)).map (·.1)

/-- Goes over a character of a string, and over the one behind it if that is escaped. -/
def skipStringCharacter (c : Cursor) : Option Cursor := do
  let d ←
    if text[c.offset]? = some '\\' ∧ c.offset + 1 < text.length then c.advance text else some c
  d.advance text

/-- Goes through a string up to its closing quote, or else to the end of the text. -/
def skipStringBody (c : Cursor) : Option Cursor :=
  repeatWhile (isBefore text (· != '"')) (skipStringCharacter text) text.length c

/-- One part of a symbol: a backtick and what belongs to it. -/
def skipSymbolPart (c : Cursor) : Option Cursor := do
  let d ← c.advance text
  let handle := d.peek text 0 == ':'
  d.advanceWhile text fun a => isWordChar a || a == '.' || handle && (a == ':' || a == '/')

def skipSymbol (c : Cursor) : Option Cursor :=
  repeatWhile (fun c => c.peek text 0 == '\x60') (skipSymbolPart text) text.length c

def skipDigits (c : Cursor) : Option Cursor :=
  repeatWhile (fun c => isDigit (c.peek text 0)) (advance text) text.length c

/-- A dot, a colon or a letter with digits behind it. -/
def joinsDigits (c : Cursor) : Bool :=
  match c.peek text 0 with
  | '.' | 'D' | 'T' => isDigit (c.peek text 1)
  | ':' => isDigit (c.peek text 1) && isDigit (c.peek text 2)
  | _ => false

/-- A dot that opens no name. -/
def joinsDot (c : Cursor) : Bool :=
  c.peek text 0 == '.' && !isNameStart (c.peek text 1) && c.peek text 1 != '.'

/-- The mark of an exponent with its digits, which may have a sign. -/
def joinsExponent (c : Cursor) : Bool :=
  c.peek text 0 == 'e' &&
    (isDigit (c.peek text 1) || isSign (c.peek text 1) && isDigit (c.peek text 2))

/-- Goes over what joins a number, with the digits behind it. -/
def skipJoint (c : Cursor) : Option Cursor := do
  let d ← c.advance text
  if c.joinsDigits text then d.skipDigits text
  else if c.joinsDot text then some d
  else
    let e ← d.advance text
    e.skipDigits text

def skipJoined (c : Cursor) : Option Cursor :=
  repeatWhile (fun c => c.joinsDigits text || c.joinsDot text || c.joinsExponent text)
    (skipJoint text) text.length c

/-- The end of a number, and what is wrong with it. -/
def skipNumber (c : Cursor) : Option (Cursor × Option LexicalError) :=
  if c.peek text 0 = '0' ∧ c.peek text 1 = 'x' then do
    let d ← c.advance text
    let d ← d.advance text
    let d ← repeatWhile (fun c => isHexDigit (c.peek text 0)) (advance text) text.length d
    if isAlphanumeric (d.peek text 0) then
      return (← d.advanceWhile text isAlphanumeric,some .invalidNumber)
    else return (d,none)
  else do
    let d ← c.skipDigits text
    let d ← d.skipJoined text
    let e ← d.advanceWhile text isAlphanumeric
    let suffix := slice text d.offset e.offset
    if !isTypeSuffix suffix then return (e,some .invalidNumber)
    else if suffix = ['b'] ∧ !(slice text c.offset d.offset).all fun a => a == '0' || a == '1' then
      return (e,some .invalidNumber)
    else return (e,none)

def skipName (c : Cursor) : Option Cursor := do
  let d ← if c.peek text 0 = '.' then c.advance text else some c
  repeatWhile (fun c => c.isBefore text isWordChar ||
    c.isBefore text (· == '.') && isNameStart (c.peek text 1)) (advance text) text.length d

end Cursor

variable (file : Text)

/-- A scan under way: where it is and the tokens so far. -/
structure Scan where
  cursor : Cursor
  tokens : List Token

namespace Scan

/-- The scan with a token that reaches up to `c`. -/
def emit (s : Scan) (kind : Kind) (image : Text) (c : Cursor) (error : Option LexicalError) :
    Scan :=
  ⟨c,s.tokens ++
    [⟨kind,image,⟨file,s.cursor.position,c.position.back⟩,s.tokens.length,error⟩]⟩

def skipTo (s : Scan) (c : Cursor) : Scan := ⟨c,s.tokens⟩

/-- What takes a whole line, or more, from its beginning on; nothing where a line opens with none of
that. -/
def readLineForm (s : Scan) : Option (Option Scan) :=
  let line := trimRight (lineFrom text s.cursor.offset)
  if line = ['/'] then do return some (s.skipTo (← s.cursor.skipBlockComment text))
  else if line = ['\\'] then do return some (s.skipTo (← s.cursor.advanceWhile text fun _ => true))
  else if line.head? = some '\\' ∧ (line.drop 1).head?.any fun a => !isBlank a then do
    return some (s.emit file .command line (← s.cursor.advanceBy text line.length) none)
  else some none

/-- A string that is not closed goes back to its quote and ends with that line. -/
def readString (s : Scan) : Option Scan := do
  let c ← s.cursor.advance text
  let d ← c.skipStringBody text
  if d.isInside text then
    let e ← d.advance text
    let image := slice text s.cursor.offset e.offset
    let kind := if isCharacterBody (image.drop 1).dropLast then .character else .string
    return s.emit file kind image e none
  else
    let line := lineFrom text s.cursor.offset
    let e ← s.cursor.advanceBy text line.length
    return s.emit file .string line e (some .unterminatedString)

def readSymbol (s : Scan) : Option Scan := do
  let c ← s.cursor.skipSymbol text
  return s.emit file .symbol (slice text s.cursor.offset c.offset) c none

def readNumber (s : Scan) : Option Scan := do
  let (c,error) ← s.cursor.skipNumber text
  return s.emit file .number (slice text s.cursor.offset c.offset) c error

def readName (s : Scan) : Option Scan := do
  let c ← s.cursor.skipName text
  let word := slice text s.cursor.offset c.offset
  return s.emit file (if Keywords.all.contains word then .keyword else .identifier) word c none

def readPunctuation (s : Scan) (a : Char) : Option Scan := do
  let b := s.cursor.peek text 1
  let c ← s.cursor.advance text
  match pairKind? a b with
  | some kind =>
    let d ← c.advance text
    return s.emit file kind [a,b] d none
  | none =>
    match singleKind? a with
    | some kind => return s.emit file kind [a] c none
    | none => return s.emit file .operator [a] c (some .unexpectedCharacter)

def readWithinLine (s : Scan) : Option Scan := do
  let a ← text[s.cursor.offset]?
  let b := s.cursor.peek text 1
  if isGap a then return s.skipTo (← s.cursor.advance text)
  else if a = '/' ∧ s.cursor.startsComment text then
    return s.skipTo (← s.cursor.advanceWhile text (· != '\n'))
  else if a = '"' then s.readString text file
  else if a = '\x60' then s.readSymbol text file
  else if isDigit a || a == '.' && isDigit b then s.readNumber text file
  else if isNameStart a || a == '.' && isNameStart b then s.readName text file
  else s.readPunctuation text file a

/-- One round: what begins at the cursor. -/
def round (s : Scan) : Option Scan := do
  match ← if s.cursor.position.column = 1 then s.readLineForm text file else some none with
  | some r => return r
  | none => s.readWithinLine text file

end Scan

/-- The tokens that rounds find until none of the text is left. -/
def scan : Option (List Token) :=
  (repeatWhile (·.cursor.isInside text) (Scan.round text file) text.length
    ⟨.start,[]⟩).map (·.tokens)

end

end Scanning
end QScope
