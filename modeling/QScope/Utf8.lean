import QScope.Texts

/-! # Utf8: bytes read as characters, one after the other

What encodes no character becomes a replacement character, one for each longest beginning of an
encoding and one for each other byte. -/
namespace QScope.Utf8

def replacement : Char := '\ufffd'

/-- The beginning of an encoding: its code so far, the bounds of the byte that must follow, and how
many more follow that one. -/
structure Begun where
  code : Nat
  least : Nat
  most : Nat
  more : Nat
deriving DecidableEq

/-- What a byte is that continues nothing. -/
def first (b : Nat) : Text × Option Begun :=
  if b < 0x80 then ([Char.ofNat b],none)
  else if b < 0xC2 ∨ 0xF4 < b then ([replacement],none)
  else if b < 0xE0 then ([],some ⟨b - 0xC0,0x80,0xBF,0⟩)
  else if b < 0xF0 then
    ([],some ⟨b - 0xE0,if b = 0xE0 then 0xA0 else 0x80,if b = 0xED then 0x9F else 0xBF,1⟩)
  else ([],some ⟨b - 0xF0,if b = 0xF0 then 0x90 else 0x80,if b = 0xF4 then 0x8F else 0xBF,2⟩)

/-- The characters that are complete with a byte, and what begins with it. -/
def step (begun : Option Begun) (b : Nat) : Text × Option Begun :=
  match begun with
  | none => first b
  | some g =>
    if g.least ≤ b ∧ b ≤ g.most then
      let code := 64 * g.code + (b - 0x80)
      if g.more = 0 then ([Char.ofNat code],none) else ([],some ⟨code,0x80,0xBF,g.more - 1⟩)
    else
      let (characters,next) := first b
      (replacement :: characters,next)

/-- What remains of an encoding that is not continued. -/
def cut (begun : Option Begun) : Text :=
  match begun with
  | none => []
  | some _ => [replacement]

end QScope.Utf8
