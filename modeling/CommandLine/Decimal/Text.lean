import CommandLine.Decimal.Shortest

/-!
The text of floating-point numbers.
-/

set_option autoImplicit false

namespace CommandLine.Decimal

/-- How numbers are laid out: the decimal exponents that are written positionally, the least number
of digits of an exponent, and the words for what is not finite. -/
structure Layout where
  leastPositional : Int
  mostPositional : Int
  exponentDigits : Nat
  infinity : String
  nan : String

/-- Numbers from a ten thousandth up to ten to the sixteenth are written positionally, with at least
one decimal; exponents have a sign and two digits. -/
def plainLayout : Layout := ⟨-4, 15, 2, "inf", "nan"⟩

/-- A row of digits with a point behind the given number of them. -/
def pointed (digits : List Char) (whole : Int) : List Char :=
  if whole ≤ 0 then ['0', '.'] ++ List.replicate (-whole).toNat '0' ++ digits
  else if whole < digits.length then digits.take whole.toNat ++ '.' :: digits.drop whole.toNat
  else digits ++ List.replicate (whole.toNat - digits.length) '0' ++ ['.', '0']

/-- The exponent part of a number. -/
def exponentText (layout : Layout) (exponent : Int) : List Char :=
  let digits := Nat.toDigits 10 exponent.natAbs
  'e' :: (if exponent < 0 then '-' else '+') ::
    (List.replicate (layout.exponentDigits - digits.length) '0' ++ digits)

/-- A row of digits without the zeros at its end, except the first digit. -/
def trimmed (digits : List Char) : List Char :=
  match (digits.reverse.dropWhile (· == '0')).reverse with
  | [] => ['0']
  | kept => kept

/-- The text of a decimal. -/
def decimalText (layout : Layout) (decimal : Scaled) : List Char :=
  let digits := Nat.toDigits 10 decimal.digits
  let exponent : Int := decimal.exponent + digits.length - 1
  if decimal.digits = 0 then ['0', '.', '0']
  else if layout.leastPositional ≤ exponent ∧ exponent ≤ layout.mostPositional then
    pointed (trimmed digits) (exponent + 1)
  else
    match trimmed digits with
    | [] => []
    | [digit] => digit :: exponentText layout exponent
    | digit :: rest => digit :: '.' :: rest ++ exponentText layout exponent

/-- The text of a number. -/
def text (layout : Layout) (x : Binary64) : String :=
  if x.isNaN then layout.nan
  else
    (if x.isNegative then "-" else "") ++
      (if x.isInfinite then layout.infinity else String.ofList (decimalText layout (shortest x)))

end CommandLine.Decimal
