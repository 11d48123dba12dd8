import CommandLine.Json.Text
import CommandLine.Proofs.Decimal.Shortest
import CommandLine.Proofs.Json.Numeral
import Mathlib.Data.List.TakeWhile

/-!
The text of a floating-point number reads back as that number. Whether it is written positionally or
with an exponent, the text is a proper numeral with the value of the shortest decimal, and reading
leaves nothing of a notation but its value. What is not finite is written as words, of which there
is one for all that is no number.
-/

set_option autoImplicit false

namespace CommandLine.Decimal

open Json.Token

/-! ### Digits without the zeros at their end -/

/-- A row of digits is one that does not end in zero with zeros behind it. -/
theorem exists_zeros (digits : List Char) : ∃ count,
    digits = (digits.reverse.dropWhile (· == '0')).reverse ++ List.replicate count '0' := by
  refine ⟨(digits.reverse.takeWhile (· == '0')).length, ?_⟩
  have hzeros : ∀ c ∈ digits.reverse.takeWhile (· == '0'), c = '0' := fun c hc ↦ by
    simpa using List.mem_takeWhile_imp hc
  have hsplit := congrArg List.reverse (List.takeWhile_append_dropWhile (p := (· == '0'))
    (l := digits.reverse))
  rw [List.reverse_append, List.reverse_reverse, List.eq_replicate_of_mem hzeros,
    List.reverse_replicate] at hsplit
  exact hsplit.symm

/-- The zeros that are left out stand at the end. -/
theorem trimmed_append {digits : List Char} (h : natOf digits ≠ 0) :
    trimmed digits ≠ [] ∧ ∃ count, digits = trimmed digits ++ List.replicate count '0' := by
  obtain ⟨count, hsplit⟩ := exists_zeros digits
  unfold trimmed
  split
  · rename_i hnil
    rw [hnil] at hsplit
    rw [hsplit, natOf_append_zeros] at h
    exact absurd (Nat.zero_mul _) h
  · rename_i hne
    exact ⟨hne, count, hsplit⟩

/-- The digits of a positive number without the zeros at their end. -/
theorem trimmed_toDigits {n : Nat} (hn : 0 < n) :
    isDigits (trimmed (Nat.toDigits 10 n)) = true ∧
      (trimmed (Nat.toDigits 10 n)).head? ≠ some '0' ∧
        ((natOf (trimmed (Nat.toDigits 10 n)) : ℚ) *
          10 ^ ((Nat.toDigits 10 n).length - (trimmed (Nat.toDigits 10 n)).length : Int) = n) := by
  have hvalue : natOf (Nat.toDigits 10 n) ≠ 0 := by rw [natOf_toDigits]; omega
  obtain ⟨hne, count, hsplit⟩ := trimmed_append hvalue
  have hdigits := ((isDigits_iff _).mp (isDigits_toDigits n)).2
  have hhead := head?_toDigits hn
  have hnumber := natOf_toDigits n
  generalize trimmed (Nat.toDigits 10 n) = kept at hne hsplit ⊢
  rw [hsplit] at hdigits hhead hnumber ⊢
  refine ⟨(isDigits_iff _).mpr ⟨hne, fun c hc ↦ hdigits c (List.mem_append_left _ hc)⟩, ?_, ?_⟩
  · rwa [List.head?_append_of_ne_nil _ hne] at hhead
  · rw [natOf_append_zeros] at hnumber
    have hlength : ((kept ++ List.replicate count '0').length - kept.length : Int) = count := by
      simp
    rw [hlength, zpow_natCast, ← hnumber]
    push_cast
    ring

/-! ### Spellings -/

/-- A numeral without a sign, written as a text, of a value that is not read as an integer. -/
structure Spelling (numeral : Numeral) (text : List Char) (value : ℚ) : Prop where
  proper : numeral.Proper
  inexact : (numeral.fraction.isNone && numeral.exponent.isNone) = false
  unsigned : numeral.base ++ numeral.power = text
  value_eq : (numeral.mantissa * 10 ^ numeral.scale : ℚ) = value

variable {digits : List Char}

/-- A point in front of the digits stands behind a zero. -/
theorem spelling_front (hdigits : isDigits digits = true) (negative : Bool) (zeros : Nat) :
    Spelling ⟨negative, ['0'], some (List.replicate zeros '0' ++ digits), none⟩
      (['0', '.'] ++ List.replicate zeros '0' ++ digits)
      (natOf digits * 10 ^ (-(zeros : Int) - digits.length)) := by
  refine ⟨⟨rfl, ?_, ?_⟩, rfl, ?_, ?_⟩
  · rintro _ ⟨⟩
    exact isDigits_zeros_append _ hdigits
  · rintro _ ⟨⟩
  · simp [Numeral.base, Numeral.power]
  · have hrow : natOf (['0'] ++ (List.replicate zeros '0' ++ digits)) = natOf digits :=
      natOf_zeros_append (zeros + 1) digits
    have hscale : Numeral.scale ⟨negative, ['0'], some (List.replicate zeros '0' ++ digits), none⟩ =
        -(zeros : Int) - digits.length := by
      simp only [Numeral.scale, Option.getD_some, List.length_append, List.length_replicate]
      omega
    simp only [Numeral.mantissa, Option.getD_some, hrow, hscale]

/-- A point among the digits has some of them on each side. -/
theorem spelling_within (negative : Bool) {front behind : List Char}
    (hfront : isWhole front = true) (hbehind : isDigits behind = true) :
    Spelling ⟨negative, front, some behind, none⟩ (front ++ '.' :: behind)
      (natOf (front ++ behind) * 10 ^ (-behind.length : Int)) := by
  refine ⟨⟨hfront, ?_, ?_⟩, rfl, ?_, ?_⟩
  · rintro _ ⟨⟩
    exact hbehind
  · rintro _ ⟨⟩
  · simp [Numeral.base, Numeral.power]
  · simp [Numeral.mantissa, Numeral.scale]

/-- A point is put among the digits of a row, some of which stand in front of it. -/
theorem spelling_split (hdigits : isDigits digits = true) (hhead : digits.head? ≠ some '0')
    (negative : Bool) {count : Nat} (hpositive : 0 < count) (hwithin : count < digits.length) :
    Spelling ⟨negative, digits.take count, some (digits.drop count), none⟩
      (digits.take count ++ '.' :: digits.drop count)
      (natOf digits * 10 ^ ((count : Int) - digits.length)) := by
  obtain ⟨hne, hall⟩ := (isDigits_iff _).mp hdigits
  have hsplit := List.take_append_drop count digits
  have hfront : digits.take count ≠ [] := by
    simp only [ne_eq, List.take_eq_nil_iff, not_or]
    exact ⟨by omega, hne⟩
  have hbehind : digits.drop count ≠ [] := by
    simp only [ne_eq, List.drop_eq_nil_iff]
    omega
  have hwhole : isWhole (digits.take count) = true := by
    refine isWhole_of_head? ((isDigits_iff _).mpr ⟨hfront, fun c hc ↦
      hall c (List.mem_of_mem_take hc)⟩) ?_
    rwa [← hsplit, List.head?_append_of_ne_nil _ hfront] at hhead
  have hrest : isDigits (digits.drop count) = true :=
    (isDigits_iff _).mpr ⟨hbehind, fun c hc ↦ hall c (List.mem_of_mem_drop hc)⟩
  have hscale : (-(digits.drop count).length : Int) = count - digits.length := by
    rw [List.length_drop]
    omega
  have hspelling := spelling_within negative hwhole hrest
  rwa [hsplit, hscale] at hspelling

/-- A point behind the digits and zeros has one more zero behind it. -/
theorem spelling_beyond (hdigits : isDigits digits = true) (hhead : digits.head? ≠ some '0')
    (negative : Bool) (zeros : Nat) :
    Spelling ⟨negative, digits ++ List.replicate zeros '0', some ['0'], none⟩
      (digits ++ List.replicate zeros '0' ++ ['.', '0']) (natOf digits * 10 ^ (zeros : Int)) := by
  obtain ⟨hne, hall⟩ := (isDigits_iff _).mp hdigits
  have hwhole : isWhole (digits ++ List.replicate zeros '0') = true := by
    refine isWhole_of_head? ((isDigits_iff _).mpr ⟨by simp [hne], fun c hc ↦ ?_⟩) ?_
    · rcases List.mem_append.mp hc with hdigit | hzero
      · exact hall c hdigit
      · rw [List.eq_of_mem_replicate hzero]
        rfl
    · rwa [List.head?_append_of_ne_nil _ hne]
  have hrow : natOf (digits ++ List.replicate zeros '0' ++ ['0']) =
      natOf digits * 10 ^ (zeros + 1) := by
    rw [List.append_assoc, ← List.replicate_succ', natOf_append_zeros]
  have hvalue : ((natOf digits * 10 ^ (zeros + 1) : Nat) : ℚ) * 10 ^ (-(['0'].length : Int)) =
      natOf digits * 10 ^ (zeros : Int) := by
    have hten : (10 : ℚ) ≠ 0 := by norm_num
    push_cast
    rw [mul_assoc, ← zpow_natCast, ← zpow_add₀ hten]
    congr 2
    simp
  have hspelling := spelling_within negative hwhole (rfl : isDigits ['0'] = true)
  rwa [hrow, hvalue] at hspelling

/-- The exponent part is read as the exponent. -/
theorem spelling_power (layout : Layout) (negative : Bool) {front : List Char}
    (behind : Option (List Char)) (hfront : isWhole front = true)
    (hbehind : ∀ row, behind = some row → isDigits row = true) (exponent : Int) :
    ∃ part, Spelling ⟨negative, front, behind, some part⟩
      (front ++ behind.elim [] ('.' :: ·) ++ exponentText layout exponent)
      (natOf (front ++ behind.getD []) * 10 ^ (exponent - (behind.getD []).length)) := by
  let row :=
    List.replicate (layout.exponentDigits - (Nat.toDigits 10 exponent.natAbs).length) '0' ++
      Nat.toDigits 10 exponent.natAbs
  have hrow : natOf row = exponent.natAbs := by
    rw [natOf_zeros_append, natOf_toDigits]
  refine ⟨(exponent < 0, row), ⟨hfront, hbehind, ?_⟩, ?_, ?_, ?_⟩
  · rintro _ ⟨⟩
    exact isDigits_zeros_append _ (isDigits_toDigits _)
  · exact Bool.and_false _
  · simp [Numeral.base, Numeral.power, exponentText, row]
  · have hscale : Numeral.scale ⟨negative, front, behind, some (decide (exponent < 0), row)⟩ =
        exponent - (behind.getD []).length := by
      simp only [Numeral.scale, hrow, decide_eq_true_eq]
      split <;> omega
    simp only [Numeral.mantissa, hscale]

/-- A row of digits with a point, whose place tells what the digits count. -/
theorem exists_pointed (hdigits : isDigits digits = true) (hhead : digits.head? ≠ some '0')
    (whole : Int) (negative : Bool) : ∃ numeral : Numeral, numeral.negative = negative ∧
      Spelling numeral (pointed digits whole) (natOf digits * 10 ^ (whole - digits.length)) := by
  unfold pointed
  split
  · rename_i hle
    have hzeros : -((-whole).toNat : Int) = whole := by omega
    have hspelling := spelling_front hdigits negative (-whole).toNat
    rw [hzeros] at hspelling
    exact ⟨_, rfl, hspelling⟩
  split
  · rename_i hpositive hwithin
    have hcount : (whole.toNat : Int) = whole := by omega
    have hspelling := spelling_split hdigits hhead negative (by omega : 0 < whole.toNat) (by omega)
    rw [hcount] at hspelling
    exact ⟨_, rfl, hspelling⟩
  · rename_i hpositive hbeyond
    have hzeros : ((whole.toNat - digits.length : Nat) : Int) = whole - digits.length := by omega
    have hspelling := spelling_beyond hdigits hhead negative (whole.toNat - digits.length)
    rw [hzeros] at hspelling
    exact ⟨_, rfl, hspelling⟩

/-- A digit in front of an exponent, perhaps with more of them behind a point. -/
theorem exists_powered (layout : Layout) {digit : Char} {rest : List Char}
    (hdigits : isDigits (digit :: rest) = true) (exponent : Int) (negative : Bool) :
    ∃ numeral : Numeral, numeral.negative = negative ∧
      Spelling numeral
        (match digit :: rest with
          | [] => []
          | [digit] => digit :: exponentText layout exponent
          | digit :: rest => digit :: '.' :: rest ++ exponentText layout exponent)
        (natOf (digit :: rest) * 10 ^ (exponent + 1 - (digit :: rest).length)) := by
  obtain ⟨-, hall⟩ := (isDigits_iff _).mp hdigits
  have hwhole : isWhole [digit] = true := by
    simp [isWhole, isDigits, hall digit List.mem_cons_self]
  have hscale : exponent + 1 - ((digit :: rest).length : Int) = exponent - rest.length := by
    rw [List.length_cons]
    omega
  rw [hscale]
  cases rest with
  | nil =>
    obtain ⟨part, hspelling⟩ := spelling_power layout negative none hwhole (by simp) exponent
    exact ⟨_, rfl, hspelling⟩
  | cons second others =>
    have hrest : isDigits (second :: others) = true :=
      (isDigits_iff _).mpr ⟨by simp, fun c hc ↦ hall c (List.mem_cons_of_mem _ hc)⟩
    obtain ⟨part, hspelling⟩ := spelling_power layout negative (some (second :: others)) hwhole
      (by rintro _ ⟨⟩; exact hrest) exponent
    exact ⟨_, rfl, hspelling⟩

/-- The text of a positive decimal is a numeral with its value. -/
theorem exists_decimalText (layout : Layout) {decimal : Scaled} (hpositive : 0 < decimal.digits)
    (negative : Bool) : ∃ numeral : Numeral, numeral.negative = negative ∧
      Spelling numeral (decimalText layout decimal) (decimal.digits * 10 ^ decimal.exponent) := by
  obtain ⟨hkept, hhead, hnumber⟩ := trimmed_toDigits hpositive
  have hvalue : (decimal.digits * 10 ^ decimal.exponent : ℚ) =
      natOf (trimmed (Nat.toDigits 10 decimal.digits)) *
        10 ^ (decimal.exponent + (Nat.toDigits 10 decimal.digits).length - 1 + 1 -
          (trimmed (Nat.toDigits 10 decimal.digits)).length) := by
    have hten : (10 : ℚ) ≠ 0 := by norm_num
    nth_rewrite 1 [← hnumber]
    rw [mul_assoc, ← zpow_add₀ hten]
    congr 2
    omega
  rw [hvalue]
  unfold decimalText
  dsimp only
  rw [if_neg (by omega)]
  split
  · exact exists_pointed hkept hhead _ negative
  · generalize trimmed (Nat.toDigits 10 decimal.digits) = kept at hkept
    cases kept with
    | nil => exact absurd rfl ((isDigits_iff _).mp hkept).1
    | cons digit rest => exact exists_powered layout hkept _ negative

/-! ### Reading -/

theorem Spelling.text_eq {numeral : Numeral} {text : List Char} {value : ℚ}
    (h : Spelling numeral text value) :
    numeral.text = (if numeral.negative then ['-'] else []) ++ text := by
  rw [Numeral.text, h.unsigned]

/-- The text of a finite number is a numeral that is read as the number. -/
theorem exists_text {x : Binary64} (layout : Layout) (hnan : x.isNaN = false)
    (hinfinite : x.isInfinite = false) : ∃ numeral : Numeral, numeral.Proper ∧
      (text layout x).toList = numeral.text ∧ numeral.value? = some (.float x) := by
  have hsigned : (text layout x).toList =
      (if x.isNegative then ['-'] else []) ++ decimalText layout (shortest x) := by
    cases hnegative : x.isNegative <;> simp [text, hnan, hinfinite, hnegative]
  rw [hsigned]
  cases hzero : x.isZero with
  | true =>
    have hshortest : decimalText layout (shortest x) = ['0', '.', '0'] := by
      simp [shortest, hzero, decimalText]
    have hspelling := spelling_within x.isNegative (rfl : isWhole ['0'] = true)
      (rfl : isDigits ['0'] = true)
    refine ⟨_, hspelling.proper, ?_, ?_⟩
    · rw [hspelling.text_eq, hshortest]
      rfl
    · rw [Numeral.value?_float hspelling.proper hspelling.inexact]
      exact congrArg (fun number ↦ some (Json.float number)) (Binary64.eq_zero hzero).symm
  | false =>
    obtain ⟨numeral, hsign, hspelling⟩ := exists_decimalText layout
      (digits_shortest_pos hzero) x.isNegative
    refine ⟨numeral, hspelling.proper, ?_, ?_⟩
    · rw [hspelling.text_eq, hsign]
    · rw [Numeral.value?_float hspelling.proper hspelling.inexact, hsign,
        ofDecimal_of_shortest hnan hinfinite hzero hspelling.value_eq]

end CommandLine.Decimal
