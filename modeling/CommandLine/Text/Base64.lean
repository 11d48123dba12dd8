/-!
Base 64: each character of its alphabet stands for six bits. Characters outside of the alphabet do
not count, and padding ends the text.
-/

set_option autoImplicit false

namespace CommandLine.Text.Base64

/-- The bits that a character stands for. -/
def bits? (c : Char) : Option Nat :=
  if 'A' ≤ c ∧ c ≤ 'Z' then some (c.toNat - 0x41)
  else if 'a' ≤ c ∧ c ≤ 'z' then some (c.toNat - 0x47)
  else if '0' ≤ c ∧ c ≤ '9' then some (c.toNat + 4)
  else if c = '+' then some 62
  else if c = '/' then some 63
  else none

/-- Decodes on, behind the given count of characters of a group of four, of which `left` holds the
bits that are not yet in an octet, and behind the given count of padding. -/
def decodeFrom (count left padding : Nat) : List Char → Option (List UInt8)
  | [] => if count = 0 then some [] else none
  | c :: rest =>
    if c = '=' then
      if 2 ≤ count ∧ 4 ≤ count + padding + 1 then some []
      else decodeFrom count left (if 2 ≤ count then padding + 1 else padding) rest
    else
      match bits? c with
      | none => decodeFrom count left padding rest
      | some bits =>
        let value := left * 64 + bits
        match count with
        | 0 => decodeFrom 1 bits 0 rest
        | 1 => (decodeFrom 2 (value % 16) 0 rest).map (UInt8.ofNat (value / 16) :: ·)
        | 2 => (decodeFrom 3 (value % 4) 0 rest).map (UInt8.ofNat (value / 4) :: ·)
        | _ => (decodeFrom 0 0 0 rest).map (UInt8.ofNat value :: ·)

/-- The octets that an ASCII text encodes. -/
def decode (text : List Char) : Option (List UInt8) :=
  if text.all (·.toNat < 0x80) then decodeFrom 0 0 0 text else none

end CommandLine.Text.Base64
