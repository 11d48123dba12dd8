/-!
Floating-point numbers of 64 bits, by their bits, and the rounding of a decimal number to the
nearest of them. All arithmetic is exact, on natural numbers.
-/

set_option autoImplicit false

namespace CommandLine.Decimal

/-- A floating-point number of 64 bits. -/
structure Binary64 where
  bits : UInt64
  deriving DecidableEq, Repr

/-- A quotient rounded to the nearest natural number, a half to the even one. -/
def roundDiv (numerator denominator : Nat) : Nat :=
  let quotient := numerator / denominator
  let twice := 2 * (numerator % denominator)
  if twice < denominator ∨ twice = denominator ∧ quotient % 2 = 0 then quotient else quotient + 1

/-- A power, as numerator and denominator. -/
def ratioPow (base : Nat) (exponent : Int) : Nat × Nat :=
  if 0 ≤ exponent then (base.pow exponent.toNat, 1) else (1, base.pow (-exponent).toNat)

namespace Binary64

/-- The exponent of the least positive number. -/
def leastExponent : Int := -1074

/-- The parts of a number: its sign, its significand and its exponent of two. -/
structure Parts where
  negative : Bool
  significand : Nat
  exponent : Int
  deriving DecidableEq, Repr

def isNegative (x : Binary64) : Bool := Nat.pow 2 63 ≤ x.bits.toNat

/-- The biased exponent. -/
def exponentField (x : Binary64) : Nat := x.bits.toNat / Nat.pow 2 52 % Nat.pow 2 11

/-- The significand without its leading bit. -/
def fraction (x : Binary64) : Nat := x.bits.toNat % Nat.pow 2 52

def isNaN (x : Binary64) : Bool := x.exponentField = 0x7FF ∧ x.fraction ≠ 0

def isInfinite (x : Binary64) : Bool := x.exponentField = 0x7FF ∧ x.fraction = 0

def isZero (x : Binary64) : Bool := x.bits.toNat % Nat.pow 2 63 = 0

/-- The parts of a finite number. -/
def parts (x : Binary64) : Parts :=
  if x.exponentField = 0 then ⟨x.isNegative, x.fraction, leastExponent⟩
  else ⟨x.isNegative, x.fraction + Nat.pow 2 52, leastExponent + x.exponentField - 1⟩

def ofMagnitude (negative : Bool) (magnitude : Nat) : Binary64 :=
  ⟨UInt64.ofNat (magnitude + if negative then Nat.pow 2 63 else 0)⟩

def infinity (negative : Bool) : Binary64 := ofMagnitude negative (0x7FF * Nat.pow 2 52)

def nan : Binary64 := ofMagnitude false (0x7FF8 * Nat.pow 2 48)

/-- The binary exponent of a positive ratio: the largest whose power of two is not above it. -/
def ratioExponent (numerator denominator : Nat) : Int :=
  let estimate : Int := numerator.log2 - denominator.log2
  let power := ratioPow 2 estimate
  if numerator * power.2 < denominator * power.1 then estimate - 1 else estimate

/-- The number nearest to a positive ratio. -/
def ofRatio (negative : Bool) (numerator denominator : Nat) : Binary64 :=
  let exponent := max (ratioExponent numerator denominator - 52) leastExponent
  let power := ratioPow 2 exponent
  let significand := roundDiv (numerator * power.2) (denominator * power.1)
  let magnitude := significand + (exponent - leastExponent).toNat * Nat.pow 2 52
  if magnitude < 0x7FF * Nat.pow 2 52 then ofMagnitude negative magnitude else infinity negative

/-- The decimal digits of a number, most significant first; none for zero. -/
def digitCount (n : Nat) : Nat := if n = 0 then 0 else (Nat.toDigits 10 n).length

/-- The number nearest to `mantissa` times ten to the `exponent`. Beyond every number it is
infinite, and below half of the least number it is zero, which spares the powers. -/
def ofDecimal (negative : Bool) (mantissa : Nat) (exponent : Int) : Binary64 :=
  let size := exponent + digitCount mantissa
  if mantissa = 0 ∨ size < -330 then ofMagnitude negative 0
  else if 330 < size then infinity negative
  else
    let power := ratioPow 10 exponent
    ofRatio negative (mantissa * power.1) power.2

end Binary64

end CommandLine.Decimal
