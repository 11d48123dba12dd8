import CommandLine.Decimal.Arithmetic
import CommandLine.Text.Blank
import CommandLine.Text.Digit
import CommandLine.Yaml.Error
import CommandLine.Yaml.Kind

/-!
The numbers that scalars write. Underscores between digits do not count.
-/

set_option autoImplicit false

namespace CommandLine.Yaml

open Decimal

/-- A text without the blanks around it. -/
def trimmed (text : List Char) : List Char :=
  ((text.dropWhile Text.isBlank).reverse.dropWhile Text.isBlank).reverse

/-- The value of a digit, if the base has it. -/
def digit? (base : Nat) (c : Char) : Option Nat :=
  ((Text.digit? c).or (Text.hexValue? c)).filter (· < base)

/-- The number that a row of digits writes. -/
def natOf? (base : Nat) (digits : List Char) : Option Nat :=
  if digits.isEmpty then none
  else digits.foldl (fun value c ↦ do return (← value) * base + (← digit? base c)) (some 0)

/-- The letter that may stand behind a zero in front of the digits of a base. -/
def baseLetter? : Nat → Option Char
  | 2 => some 'b'
  | 8 => some 'o'
  | 16 => some 'x'
  | _ => none

/-- Digits without the zero and the letter that may stand in front of them. -/
def withoutLetter (base : Nat) (text : List Char) : List Char :=
  match text with
  | '0' :: c :: rest => if some c.toLower = baseLetter? base then rest else text
  | text => text

/-- An integer of a base. -/
def integer (base : Nat) (text : List Char) : Except Error Int :=
  let bare := trimmed text
  match natOf? base (withoutLetter base (Kind.unsigned bare)) with
  | some magnitude => .ok (if bare.head? = some '-' then -magnitude else magnitude)
  | none => .error (.noInteger base text)

/-- A number with its sign taken off, which must be there to take it from. -/
def splitSign (text : List Char) : Except Error (Bool × List Char) :=
  match text with
  | [] => .error .emptyNumber
  | c :: _ => .ok (c == '-', Kind.unsigned text)

/-- The integer that a scalar writes. -/
def readInt (text : List Char) : Except Error Int := do
  let (negative, digits) ← splitSign (text.filter (· != '_'))
  let magnitude ←
    match digits with
    | [] => throw .emptyNumber
    | ['0'] => pure 0
    | '0' :: 'b' :: rest => integer 2 rest
    | '0' :: 'x' :: rest => integer 16 rest
    | '0' :: rest => integer 8 ('0' :: rest)
    | digits =>
      if digits.contains ':' then do
        let parts ← (Kind.colonParts digits).mapM (integer 10)
        pure (parts.foldl (fun value part ↦ value * 60 + part) 0)
      else integer 10 digits
  return if negative then -magnitude else magnitude

/-- The exponent of a decimal, behind its mark, or none. -/
def exponent? : List Char → Option Int
  | [] => some 0
  | mark :: rest =>
    if mark = 'e' then
      (natOf? 10 (Kind.unsigned rest)).map fun magnitude ↦
        if rest.head? = some '-' then -magnitude else magnitude
    else none

/-- An unsigned decimal: digits with a point among or beside them, and an exponent. -/
def decimal? (negative : Bool) (text : List Char) : Option Binary64 := do
  let isDigit (c : Char) := (Text.digit? c).isSome
  let (whole, rest) := text.span isDigit
  let (fraction, rest) :=
    match rest with
    | '.' :: rest => rest.span isDigit
    | rest => ([], rest)
  let mantissa ← natOf? 10 (whole ++ fraction)
  return .ofDecimal negative mantissa ((← exponent? rest) - fraction.length)

/-- A floating-point number in lower case, or a word for one that is not finite. -/
def floating (text : List Char) : Except Error Binary64 :=
  let bare := trimmed text
  let negative := bare.head? == some '-'
  let found :=
    match String.ofList (Kind.unsigned bare) with
    | "inf" | "infinity" => some (.infinity negative)
    | "nan" => some .nan
    | _ => decimal? negative (Kind.unsigned bare)
  match found with
  | some value => .ok value
  | none => .error (.noFloat text)

/-- The sum of parts from the last to the first, each of sixty times the weight of the one behind
it, rounded at each step. -/
def sexagesimal (parts : List Binary64) : Binary64 :=
  (parts.foldr
    (fun part (sum, weight) ↦ (Binary64.add sum (part.mul (.ofNat weight)), weight * 60))
    (Binary64.ofNat 0, 1)).1

/-- The floating-point number that a scalar writes. -/
def readFloat (text : List Char) : Except Error Binary64 := do
  let (negative, digits) ← splitSign ((text.filter (· != '_')).map Char.toLower)
  match String.ofList digits with
  | ".inf" => return .infinity negative
  | ".nan" => return .nan
  | _ =>
    let magnitude ←
      if digits.contains ':' then do
        pure (sexagesimal (← (Kind.colonParts digits).mapM floating))
      else floating digits
    return if negative then magnitude.neg else magnitude

end CommandLine.Yaml
