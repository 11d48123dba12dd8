import CommandLine.Decimal.Binary64

/-!
The shortest decimal that reads back as a floating-point number. The reals that round to a number
form an interval, whose ends belong to it when the significand is even; of the decimals with the
fewest digits in that interval the one nearest to the number is taken. A decimal with a given number
of digits lies in the interval only if one of the two that are next to the number does.
-/

set_option autoImplicit false

namespace CommandLine.Decimal

/-- A decimal number: `digits` times ten to the `exponent`. -/
structure Scaled where
  digits : Nat
  exponent : Int
  deriving DecidableEq, Repr

/-- A positive number with the interval that rounds to it, over one denominator. -/
structure Neighbourhood where
  low : Nat
  value : Nat
  high : Nat
  denominator : Nat
  closed : Bool

namespace Neighbourhood

/-- The neighbourhood of a positive number. Below a power of two the next number is twice as near. -/
def ofParts (parts : Binary64.Parts) : Neighbourhood :=
  let power := ratioPow 2 (parts.exponent - 2)
  let isNarrow := parts.significand = Nat.pow 2 52 ∧ Binary64.leastExponent < parts.exponent
  ⟨(4 * parts.significand - if isNarrow then 1 else 2) * power.1, 4 * parts.significand * power.1,
    (4 * parts.significand + 2) * power.1, power.2, parts.significand % 2 = 0⟩

/-- A decimal with the given exponent lies in the interval. -/
def contains (around : Neighbourhood) (exponent : Int) (digits : Nat) : Bool :=
  let power := ratioPow 10 exponent
  let point := digits * power.1 * around.denominator
  let low := around.low * power.2
  let high := around.high * power.2
  if around.closed then low ≤ point ∧ point ≤ high else low < point ∧ point < high

/-- The decimal exponent of the number: the largest whose power of ten is not above it. -/
def decimalExponent (around : Neighbourhood) : Int :=
  let exponents := (List.range 640).map fun (n : Nat) ↦ (310 : Int) - n
  (exponents.find? fun exponent ↦
    let power := ratioPow 10 exponent
    power.1 * around.denominator ≤ around.value * power.2).getD 0

/-- The nearest decimal with the given exponent in the interval, a half going to the even one. -/
def nearest? (around : Neighbourhood) (exponent : Int) : Option Nat :=
  let power := ratioPow 10 exponent
  let numerator := around.value * power.2
  let denominator := power.1 * around.denominator
  let below := numerator / denominator
  let rounded := roundDiv numerator denominator
  let other := if rounded = below then below + 1 else below
  if around.contains exponent rounded then some rounded
  else if around.contains exponent other then some other
  else none

/-- The shortest decimal in the interval. Seventeen digits are always enough. -/
def shortest (around : Neighbourhood) : Scaled :=
  let exponent := around.decimalExponent
  ((List.range 17).findSome? fun (n : Nat) ↦
    (around.nearest? (exponent - n)).map fun digits ↦ ⟨digits, exponent - n⟩).getD ⟨0, 0⟩

end Neighbourhood

/-- The shortest decimal that reads back as a finite number without its sign. -/
def shortest (x : Binary64) : Scaled :=
  if x.isZero then ⟨0, 0⟩ else (Neighbourhood.ofParts x.parts).shortest

end CommandLine.Decimal
