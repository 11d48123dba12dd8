import CommandLine.Json.Basic

/-!
Limits of readers and writers. An integer may have only so many digits, and arrays and objects may
be nested only so deep; how deep depends on what else is going on, and need not be the same for a
reader and a writer.
-/

set_option autoImplicit false

namespace CommandLine.Json

/-- How many digits an integer may have, and how deep a reader and a writer follow arrays and
objects inside each other. One digit, and an object inside an object, are always allowed. -/
structure Limits where
  digits : Nat
  readingDepth : Nat
  writingDepth : Nat
  digits_pos : 0 < digits
  one_lt_readingDepth : 1 < readingDepth
  one_lt_writingDepth : 1 < writingDepth

/-- What keeps a value from being read or written. -/
inductive Obstacle
  | tooManyDigits (count limit : Nat)
  | tooDeep (kind : Kind)
  /-- A string has half of a surrogate pair, and is no text. -/
  | unpaired
  deriving DecidableEq, Repr

namespace Obstacle

/-- What a reader says of an obstacle. -/
def readingMessage : Obstacle → String
  | tooManyDigits count limit =>
    "Exceeds the limit (" ++ toString limit ++
      " digits) for integer string conversion: value has " ++ toString count ++
      " digits; use sys.set_int_max_str_digits() to increase the limit"
  | tooDeep kind =>
    "maximum recursion depth exceeded while decoding a JSON " ++
      (if kind = .array then "array" else "object") ++ " from a unicode string"
  | unpaired => "a string has half of a surrogate pair"

/-- What a writer says of an obstacle. -/
def writingMessage : Obstacle → String
  | tooManyDigits _ limit =>
    "Exceeds the limit (" ++ toString limit ++
      " digits) for integer string conversion; " ++
      "use sys.set_int_max_str_digits() to increase the limit"
  | tooDeep _ => "maximum recursion depth exceeded"
  | unpaired => readingMessage .unpaired

end Obstacle

/-- The number of digits of an integer. No numeral of JSON has zeros in front. -/
def digitCount (value : Int) : Nat := (Nat.toDigits 10 value.natAbs).length

mutual

/-- The first obstacle in a value, from left to right, where `depth` arrays and objects may be
nested. -/
def obstacle? (digits depth : Nat) : Json → Option Obstacle
  | int value =>
    if digitCount value ≤ digits then none else some (.tooManyDigits (digitCount value) digits)
  | array items => if depth = 0 then some (.tooDeep .array) else items.obstacle? digits (depth - 1)
  | object members =>
    if depth = 0 then some (.tooDeep .object) else members.obstacle? digits (depth - 1)
  | _ => none

def Items.obstacle? (digits depth : Nat) : Items → Option Obstacle
  | .nil => none
  | .cons head tail => (head.obstacle? digits depth).or (tail.obstacle? digits depth)

def Members.obstacle? (digits depth : Nat) : Members → Option Obstacle
  | .nil => none
  | .cons _ value rest => (value.obstacle? digits depth).or (rest.obstacle? digits depth)

end

end CommandLine.Json
