import CommandLine.Text.Hex

/-!
UTF-8. Decoding walks the octets with the range allowed for the next one; where an octet falls
outside it, or the octets end early, the fault names the octets of the unfinished character.
-/

set_option autoImplicit false

namespace CommandLine.Text

/-- Why octets are not UTF-8. -/
inductive Utf8Fault
  | invalidStart
  | invalidContinuation
  | unexpectedEnd
  deriving DecidableEq, Repr

/-- The octets at positions `start` to `last`, the first of them `octet`, are at fault. -/
structure Utf8Error where
  fault : Utf8Fault
  octet : UInt8
  start : Nat
  last : Nat
  deriving DecidableEq, Repr

def Utf8Fault.message : Utf8Fault → String
  | .invalidStart => "invalid start byte"
  | .invalidContinuation => "invalid continuation byte"
  | .unexpectedEnd => "unexpected end of data"

def Utf8Error.message (error : Utf8Error) : String :=
  let place :=
    if error.start = error.last then
      "byte 0x" ++ String.ofList (hex 2 error.octet.toNat) ++ " in position " ++ toString error.start
    else "bytes in position " ++ toString error.start ++ "-" ++ toString error.last
  "'utf-8' codec can't decode " ++ place ++ ": " ++ error.fault.message

/-- An unfinished character: `owed` octets are to come, the next of them from `low` to `high`. -/
structure Utf8Partial where
  owed : Nat
  low : Nat
  high : Nat
  code : Nat
  octet : UInt8
  start : Nat

/-- What the first octet of a character of more than one octet announces. -/
def Utf8Partial.ofLead? (octet : UInt8) (position : Nat) : Option Utf8Partial :=
  let b := octet.toNat
  if b < 0xC2 then none
  else if b < 0xE0 then some ⟨1, 0x80, 0xBF, b - 0xC0, octet, position⟩
  else if b = 0xE0 then some ⟨2, 0xA0, 0xBF, 0, octet, position⟩
  else if b = 0xED then some ⟨2, 0x80, 0x9F, 0xD, octet, position⟩
  else if b < 0xF0 then some ⟨2, 0x80, 0xBF, b - 0xE0, octet, position⟩
  else if b = 0xF0 then some ⟨3, 0x90, 0xBF, 0, octet, position⟩
  else if b < 0xF4 then some ⟨3, 0x80, 0xBF, b - 0xF0, octet, position⟩
  else if b = 0xF4 then some ⟨3, 0x80, 0x8F, 4, octet, position⟩
  else none

/-- Decodes octets, the first of them at `position`, behind what is left of an unfinished
character. -/
def decodeFrom (unfinished : Option Utf8Partial) (position : Nat) :
    List UInt8 → Except Utf8Error (List Char)
  | [] =>
    match unfinished with
    | none => .ok []
    | some char => .error ⟨.unexpectedEnd, char.octet, char.start, position - 1⟩
  | octet :: rest =>
    match unfinished with
    | none =>
      if octet.toNat < 0x80 then
        (decodeFrom none (position + 1) rest).map (Char.ofNat octet.toNat :: ·)
      else
        match Utf8Partial.ofLead? octet position with
        | some char => decodeFrom (some char) (position + 1) rest
        | none => .error ⟨.invalidStart, octet, position, position⟩
    | some char =>
      if char.low ≤ octet.toNat ∧ octet.toNat ≤ char.high then
        let code := char.code * 0x40 + (octet.toNat - 0x80)
        if char.owed ≤ 1 then
          (decodeFrom none (position + 1) rest).map (Char.ofNat code :: ·)
        else
          decodeFrom (some { char with owed := char.owed - 1, low := 0x80, high := 0xBF, code })
            (position + 1) rest
      else .error ⟨.invalidContinuation, char.octet, char.start, position - 1⟩

/-- The text that octets encode. -/
def decode (octets : List UInt8) : Except Utf8Error (List Char) := decodeFrom none 0 octets

/-- The octets of a text. -/
def encode (text : List Char) : List UInt8 := text.flatMap String.utf8EncodeChar

end CommandLine.Text
