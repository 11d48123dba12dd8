import CommandLine.Decimal.Binary64

/-!
Sums and products of floating-point numbers: computed exactly, and then rounded.
-/

set_option autoImplicit false

namespace CommandLine.Decimal.Binary64

/-- The number nearest to `magnitude` times two to the `exponent`. -/
def ofScaled (negative : Bool) (magnitude : Nat) (exponent : Int) : Binary64 :=
  if magnitude = 0 then ofMagnitude negative 0
  else
    let power := ratioPow 2 exponent
    ofRatio negative (magnitude * power.1) power.2

def ofNat (n : Nat) : Binary64 := ofScaled false n 0

def neg (x : Binary64) : Binary64 := ⟨x.bits ^^^ UInt64.ofNat (Nat.pow 2 63)⟩

def mul (x y : Binary64) : Binary64 :=
  let negative := x.isNegative != y.isNegative
  if x.isNaN || y.isNaN then nan
  else if x.isInfinite || y.isInfinite then
    if x.isZero || y.isZero then nan else infinity negative
  else
    ofScaled negative (x.parts.significand * y.parts.significand)
      (x.parts.exponent + y.parts.exponent)

/-- A finite number as a multiple of two to an exponent that is not above its own. -/
def multiple (x : Binary64) (exponent : Int) : Int :=
  let magnitude : Int := x.parts.significand * Nat.pow 2 (x.parts.exponent - exponent).toNat
  if x.isNegative then -magnitude else magnitude

def add (x y : Binary64) : Binary64 :=
  if x.isNaN || y.isNaN then nan
  else if x.isInfinite then
    if y.isInfinite && x.isNegative != y.isNegative then nan else x
  else if y.isInfinite then y
  else
    let exponent := min x.parts.exponent y.parts.exponent
    let sum := x.multiple exponent + y.multiple exponent
    let negative := if sum = 0 then x.isNegative && y.isNegative else sum < 0
    ofScaled negative sum.natAbs exponent

/-- The integer that a number is, if it is one. -/
def toInt? (x : Binary64) : Option Int :=
  if x.isNaN || x.isInfinite then none
  else
    let power := ratioPow 2 x.parts.exponent
    let numerator := x.parts.significand * power.1
    if numerator % power.2 = 0 then
      let magnitude : Int := numerator / power.2
      some (if x.isNegative then -magnitude else magnitude)
    else none

end CommandLine.Decimal.Binary64
