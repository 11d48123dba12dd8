/-!
Numbers in hexadecimal, as they stand in escapes.
-/

set_option autoImplicit false

namespace CommandLine.Text

/-- One hexadecimal digit in lower case; the argument is taken modulo 16. -/
def hexDigit (n : Nat) : Char :=
  let digit := n % 16
  if digit < 10 then Char.ofNat (digit + 0x30) else Char.ofNat (digit + 0x57)

theorem hexDigit_mod (n : Nat) : hexDigit (n % 16) = hexDigit n := by
  simp [hexDigit]

/-- The last `width` hexadecimal digits of a number. -/
def hex : (width : Nat) → Nat → List Char
  | 0, _ => []
  | width + 1, n => hex width (n / 16) ++ [hexDigit n]

@[simp] theorem length_hex (width n : Nat) : (hex width n).length = width := by
  induction width generalizing n with
  | zero => rfl
  | succ width ih => simp [hex, ih]

/-- The value of a hexadecimal digit of either case. -/
def hexValue? (c : Char) : Option Nat :=
  if '0' ≤ c ∧ c ≤ '9' then some (c.toNat - 0x30)
  else if 'a' ≤ c ∧ c ≤ 'f' then some (c.toNat - 0x57)
  else if 'A' ≤ c ∧ c ≤ 'F' then some (c.toNat - 0x37)
  else none

/-- The value of a row of hexadecimal digits, most significant first. -/
def ofHex? (digits : List Char) : Option Nat :=
  digits.foldl (fun value c ↦ do return (← value) * 16 + (← hexValue? c)) (some 0)

end CommandLine.Text
