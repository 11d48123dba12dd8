import CommandLine.Text.Quoted

/-!
Why a YAML text has no value. Either it is malformed, or one of its scalars does not write a value of
the kind that it claims to be of.
-/

set_option autoImplicit false

namespace CommandLine.Yaml

/-- The parts of a moment that have a range. -/
inductive MomentPart
  | year (value : Nat)
  | month
  | day
  | hour
  | minute
  | second
  /-- An offset of the given number of days and seconds. -/
  | offset (days : Int) (seconds : Nat)
  deriving DecidableEq, Repr

inductive Error
  | malformed
  /-- An escape of a code beyond the last character. -/
  | noCharacter
  /-- An escape of a code of more than 31 bits. -/
  | noCode
  | noInteger (base : Nat) (text : List Char)
  | noFloat (text : List Char)
  /-- A number without a character. -/
  | emptyNumber
  | noBool (text : List Char)
  | noMoment
  | outOfRange (part : MomentPart)
  deriving DecidableEq, Repr

/-- A duration of days and seconds; days that are none are left out, and seconds that are none. -/
def durationText (days : Int) (seconds : Nat) : String :=
  let parts := (if days = 0 then [] else ["days=" ++ toString days]) ++
    (if seconds = 0 then [] else ["seconds=" ++ toString seconds])
  "datetime.timedelta(" ++ (if parts.isEmpty then "0" else String.intercalate ", " parts) ++ ")"

def MomentPart.message : MomentPart → String
  | year value => "year " ++ toString value ++ " is out of range"
  | month => "month must be in 1..12"
  | day => "day is out of range for month"
  | hour => "hour must be in 0..23"
  | minute => "minute must be in 0..59"
  | second => "second must be in 0..59"
  | offset days seconds =>
    "offset must be a timedelta strictly between -timedelta(hours=24) and timedelta(hours=24), not " ++
      durationText days seconds ++ "."

def Error.message : Error → String
  | malformed => "malformed"
  | noCharacter => "chr() arg not in range(0x110000)"
  | noCode => "Python int too large to convert to C int"
  | noInteger base text =>
    "invalid literal for int() with base " ++ toString base ++ ": " ++
      String.ofList (Text.quoted text)
  | noFloat text => "could not convert string to float: " ++ String.ofList (Text.quoted text)
  | emptyNumber => "string index out of range"
  | noBool text => String.ofList (Text.quoted text)
  | noMoment => "'NoneType' object has no attribute 'groupdict'"
  | outOfRange part => part.message

end CommandLine.Yaml
