import QScope.Texts

/-! # Shortest decimals: the fewest digits that still denote the same double -/
namespace QScope

/-- `digits · 10 ^ exponent` -/
structure Decimal where
  digits : Nat
  exponent : Int
deriving DecidableEq

/-- `mantissa · 2 ^ exponent` -/
structure Binary where
  mantissa : Nat
  exponent : Int
deriving DecidableEq

namespace ShortestDecimals

/-- The quotient rounded to the nearest whole number, a tie to the even one. -/
def roundDiv (num den : Nat) : Nat :=
  let q := num / den
  let r := 2 * (num % den)
  if r < den || (r == den && q % 2 == 0) then q else q + 1

/-- The fraction `num / den` times a power of the base. -/
def scale (base : Nat) (e : Int) (num den : Nat) : Nat × Nat :=
  if 0 ≤ e then (num * base.pow e.toNat,den) else (num,den * base.pow (-e).toNat)

/-- One more than the largest mantissa. -/
def mantissaBound : Nat := 9007199254740992

def smallestExponent : Int := -1074

def largestExponent : Int := 971

/-- The binary number of 53 digits nearest to a positive fraction, of fewer digits if it is below
the normal range. -/
def nearest (num den : Nat) : Binary :=
  let e : Int := max smallestExponent ((num.log2 : Int) - den.log2 - 53)
  let rounded (e : Int) : Nat := let (n,d) := scale 2 (-e) num den; roundDiv n d
  if rounded e < mantissaBound then ⟨rounded e,e⟩
  else if rounded (e + 1) < mantissaBound then ⟨rounded (e + 1),e + 1⟩
  else ⟨mantissaBound / 2,e + 2⟩

/-- Whether a decimal lies within half a step of a binary number. The bounds themselves belong to
it if its mantissa is even. -/
def denotes (b : Binary) (d : Decimal) : Bool :=
  let below := if 2 * b.mantissa = mantissaBound ∧ smallestExponent < b.exponent then 1 else 2
  let (num,den) := scale 10 d.exponent d.digits 1
  let (n,m) := scale 2 (2 - b.exponent) num den
  let low := (4 * b.mantissa - below) * m
  let high := (4 * b.mantissa + 2) * m
  if b.mantissa % 2 = 0 then low ≤ n && n ≤ high else low < n && n < high

/-- The decimal with a given exponent that denotes the binary number: the nearest one, or else its
neighbour across the number. -/
def onGrid? (b : Binary) (e : Int) : Option Decimal :=
  let (num,den) := scale 2 b.exponent b.mantissa 1
  let (n,d) := scale 10 (-e) num den
  let near := roundDiv n d
  let far := if near * d ≤ n then near + 1 else near - 1
  [⟨near,e⟩,⟨far,e⟩].find? (denotes b)

/-- The decimal on the coarsest grid that denotes a binary number other than zero. No number has
more digits before the point than the first grid allows, and seventeen digits suffice. -/
def shortest (b : Binary) : Option Decimal :=
  let top : Int := ((b.mantissa.log2 : Int) + 1 + b.exponent) * 30103 / 100000 + 2
  ((List.range 21).map fun k : Nat => top - k).findSome? (onGrid? b)

/-- The shortest decimal for a decimal read as a double: nothing if it is too large for one, and
zero if it is too small. -/
def ofDecimal (d : Decimal) : Option Decimal :=
  let size : Int := (Nat.toDigits 10 d.digits).length + d.exponent
  if d.digits = 0 ∨ size < -330 then some ⟨0,0⟩
  else if 310 < size then none
  else
    let (num,den) := scale 10 d.exponent d.digits 1
    let b := nearest num den
    if b.mantissa = 0 then some ⟨0,0⟩
    else if largestExponent < b.exponent then none
    else shortest b

end ShortestDecimals
end QScope
