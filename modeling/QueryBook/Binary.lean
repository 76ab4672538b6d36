/-!
Floating-point numbers as their bits, in the binary formats of 32 and 64 bits: what the bits mean,
how a number of one format becomes one of the other, and the decimal text of large numbers.
-/

namespace QueryBook

/-- A number in 32 bits: sign, 8 bits of exponent, 23 bits of fraction. -/
structure Binary32 where
  bits : UInt32
  deriving DecidableEq, Repr

/-- A number in 64 bits: sign, 11 bits of exponent, 52 bits of fraction. -/
structure Binary64 where
  bits : UInt64
  deriving DecidableEq, Repr

namespace Binary32

/-- The bit of the sign. -/
def signBit : Nat := 0x80000000

/-- The lowest bit of the exponent; fractions are below it. -/
def exponentUnit : Nat := 0x800000

/-- The highest bit of the fraction, which tells a quiet NaN from a signalling one. -/
def quietBit : Nat := 0x400000

def isNegative (x : Binary32) : Bool :=
  signBit ≤ x.bits.toNat

/-- The exponent as it is stored. -/
def exponent (x : Binary32) : Nat :=
  x.bits.toNat / exponentUnit % 256

def fraction (x : Binary32) : Nat :=
  x.bits.toNat % exponentUnit

/-- The bits without the sign. They order the numbers of one sign by magnitude. -/
def magnitude (x : Binary32) : Nat :=
  x.bits.toNat % signBit

def isNaN (x : Binary32) : Bool :=
  x.exponent == 255 && x.fraction != 0

def isFinite (x : Binary32) : Bool :=
  x.exponent != 255

/-- Equality of numbers: no NaN equals anything, and the two zeros are equal. -/
def equals (x y : Binary32) : Bool :=
  !x.isNaN && !y.isNaN && (x == y || (x.magnitude == 0 && y.magnitude == 0))

/-- The number with the given sign and magnitude. -/
def ofMagnitude (isNegative : Bool) (magnitude : Nat) : Binary32 :=
  ⟨UInt32.ofNat ((if isNegative then signBit else 0) + magnitude)⟩

end Binary32

namespace Binary64

/-- The bit of the sign. -/
def signBit : Nat := 0x8000000000000000

/-- The lowest bit of the exponent; fractions are below it. -/
def exponentUnit : Nat := 0x10000000000000

def isNegative (x : Binary64) : Bool :=
  signBit ≤ x.bits.toNat

/-- The exponent as it is stored. -/
def exponent (x : Binary64) : Nat :=
  x.bits.toNat / exponentUnit % 2048

def fraction (x : Binary64) : Nat :=
  x.bits.toNat % exponentUnit

/-- The bits without the sign. They order the numbers of one sign by magnitude. -/
def magnitude (x : Binary64) : Nat :=
  x.bits.toNat % signBit

def isNaN (x : Binary64) : Bool :=
  x.exponent == 2047 && x.fraction != 0

def isFinite (x : Binary64) : Bool :=
  x.exponent != 2047

/-- Equality of numbers: no NaN equals anything, and the two zeros are equal. -/
def equals (x y : Binary64) : Bool :=
  !x.isNaN && !y.isNaN && (x == y || (x.magnitude == 0 && y.magnitude == 0))

/-- The number with the given sign and magnitude. -/
def ofMagnitude (isNegative : Bool) (magnitude : Nat) : Binary64 :=
  ⟨UInt64.ofNat ((if isNegative then signBit else 0) + magnitude)⟩

/-- The fraction and the bit above it that a normal number leaves out. -/
def significand (x : Binary64) : Nat :=
  exponentUnit + x.fraction

end Binary64

/-! ## From one format to the other -/

/-- How much finer the fractions of 64 bits are than those of 32, as a factor and in bits. -/
def fractionRatio : Nat := 0x20000000

def fractionRatioBits : Nat := 29

/-- The same number in 64 bits, always exact. A number below the normal range of 32 bits is
normal in 64. A NaN keeps its payload and becomes quiet. -/
def Binary32.widen (x : Binary32) : Binary64 :=
  .ofMagnitude x.isNegative <|
    if x.exponent = 255 then
      2047 * Binary64.exponentUnit +
        (if x.fraction = 0 then 0 else (x.fraction ||| quietBit) * fractionRatio)
    else if x.exponent = 0 then
      if x.fraction = 0 then 0
      else
        let top := x.fraction.log2
        (top + 874) * Binary64.exponentUnit +
          (x.fraction - Nat.pow 2 top) * Nat.pow 2 (52 - top)
    else (x.exponent + 896) * Binary64.exponentUnit + x.fraction * fractionRatio

/-- The whole number nearest to `n / 2 ^ k`, of two equally near ones the even one. -/
def roundedShift (n k : Nat) : Nat :=
  let unit := Nat.pow 2 k
  let quotient := n / unit
  let rest := 2 * (n % unit)
  if rest < unit then quotient
  else if unit < rest then quotient + 1
  else quotient + quotient % 2

/-- The magnitude of the largest finite number of 32 bits, as bits of 64. -/
def Binary64.greatest32 : Nat :=
  0x47EFFFFFE0000000

/-- Whether a number is finite but too large for 32 bits. Numbers that would round down to the
largest finite one count as too large. -/
def Binary64.exceeds32 (x : Binary64) : Bool :=
  x.isFinite && decide (Binary64.greatest32 < x.magnitude)

/-- The nearest number of 32 bits, of two equally near ones the one with an even fraction. The
significand is shifted to 23 bits, and further where the result is below the normal range; a
carry moves into the exponent by itself. A NaN keeps the upper part of its payload and becomes
quiet. -/
def Binary64.narrow (x : Binary64) : Binary32 :=
  .ofMagnitude x.isNegative <|
    if x.exponent = 2047 then
      255 * Binary32.exponentUnit +
        (if x.fraction = 0 then 0 else x.fraction / fractionRatio ||| Binary32.quietBit)
    else if x.exponent = 0 then 0
    else
      (x.exponent - 897) * Binary32.exponentUnit +
        roundedShift x.significand (fractionRatioBits + (897 - x.exponent))

/-! ## Shortest decimal text -/

/-- The number of decimal digits of `n`. -/
def decimalLength (n : Nat) : Nat :=
  (Nat.toDigits 10 n).length

/-- An interval of numbers around a whole number, all three taken four times as large so that the
ends are whole. -/
structure Rounding where
  value : Nat
  low : Nat
  high : Nat
  /-- Whether the ends belong to the interval. -/
  closed : Bool

namespace Rounding

def contains (r : Rounding) (n : Nat) : Bool :=
  if r.closed then r.low ≤ 4 * n && 4 * n ≤ r.high else r.low < 4 * n && 4 * n < r.high

/-- Among the multiples of `10 ^ k` in the interval, the one nearest to the value. If there is one,
one of the two next to the value is one. -/
def nearestMultiple (r : Rounding) (k : Nat) : Option Nat :=
  let unit := Nat.pow 10 k
  let below := r.value / 4 / unit * unit
  let above := below + unit
  match r.contains below, r.contains above with
  | true, true => some (if r.value - 4 * below ≤ 4 * above - r.value then below else above)
  | true, false => some below
  | false, true => some above
  | false, false => none

/-- The first multiple found on the grids `10 ^ (k - 1)`, `10 ^ (k - 2)`, and so on down to 1. -/
def coarsestMultiple (r : Rounding) : Nat → Nat
  | 0 => r.value / 4
  | k + 1 =>
    match r.nearestMultiple k with
    | some n => n
    | none => coarsestMultiple r k

end Rounding

/-- The numbers that round to the magnitude of `x`, which is so large that the last bit of its
significand is worth 1 or more. Below a power of two numbers lie twice as close. -/
def Binary64.rounding (x : Binary64) : Rounding :=
  let unit := Nat.pow 2 (x.exponent - 1075)
  let value := 4 * x.significand * unit
  { value := value
    low := value - (if x.fraction = 0 then unit else 2 * unit)
    high := value + 2 * unit
    closed := x.fraction % 2 == 0 }

/-- The whole number with the fewest significant digits that reads back as the magnitude of `x`,
and the nearest of those. Meant for numbers so large that the last bit of the significand is worth
1 or more. -/
def Binary64.shortestWhole (x : Binary64) : Nat :=
  x.rounding.coarsestMultiple (decimalLength (x.rounding.value / 4))

end QueryBook
