import QScope.CharacterRanges

/-! # Character classes: letters, digits, numerals, blanks -/
namespace QScope.CharacterClasses

def within (ranges : List (Nat × Nat)) (c : Char) : Bool :=
  ranges.any fun r => r.1 ≤ c.toNat && c.toNat ≤ r.2

def isAscii (c : Char) : Bool := c.toNat < 128

/-- ASCII letters, the only characters that open a name or a segment of one. -/
def isNameStart (c : Char) : Bool := c.isAlpha

def isLetter (c : Char) : Bool :=
  c.isAlpha || (!isAscii c && within CharacterRanges.letters c)

/-- Decimal digits of every script, and superscript, subscript and circled ones. -/
def isDigit (c : Char) : Bool :=
  c.isDigit || (!isAscii c && within CharacterRanges.digits c)

def isNumeral (c : Char) : Bool :=
  isDigit c || (!isAscii c && within CharacterRanges.numerals c)

def isAlphanumeric (c : Char) : Bool := isLetter c || isNumeral c

/-- The characters that go on with a name: alphanumeric ones and the underscore. -/
def isWordChar (c : Char) : Bool := isAlphanumeric c || c == '_'

def isBlank (c : Char) : Bool := within CharacterRanges.spaces c

def isHexDigit (c : Char) : Bool :=
  c.isDigit || ('a' ≤ c && c ≤ 'f') || ('A' ≤ c && c ≤ 'F')

def isOctalDigit (c : Char) : Bool := '0' ≤ c && c ≤ '7'

/-- Characters that a quoted text shows as they are. -/
def isPrintable (c : Char) : Bool := !within CharacterRanges.unprintables c

/-- The value of a decimal digit of any script. -/
def decimalDigit? (c : Char) : Option Nat :=
  (CharacterRanges.zeros.find? fun z => z ≤ c.toNat && c.toNat < z + 10).map (c.toNat - ·)

end QScope.CharacterClasses
