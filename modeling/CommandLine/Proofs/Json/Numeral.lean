import CommandLine.Json.Token
import Mathlib.Algebra.Field.Rat
import Mathlib.Tactic.Ring

/-!
Numerals: the texts of numbers by their parts. The reader splits a text at its marks and finds the
parts again, so that a numeral of proper parts is read as the number that the parts say, and never
as one of the words.
-/

set_option autoImplicit false

namespace CommandLine.Json.Token

/-! ### Rows of digits -/

theorem natOf_eq (digits : List Char) : natOf digits = Nat.ofDigitChars 10 digits 0 := by
  simp [natOf, Nat.ofDigitChars_eq_foldl, Nat.mul_comm]

@[simp] theorem natOf_toDigits (n : Nat) : natOf (Nat.toDigits 10 n) = n := by
  rw [natOf_eq, Nat.ofDigitChars_ten_toDigits]

theorem natOf_append_zeros (digits : List Char) (count : Nat) :
    natOf (digits ++ List.replicate count '0') = natOf digits * 10 ^ count := by
  rw [natOf_eq, Nat.ofDigitChars_append, Nat.ofDigitChars_replicate_zero, natOf_eq, Nat.mul_comm]

theorem natOf_zeros_append (count : Nat) (digits : List Char) :
    natOf (List.replicate count '0' ++ digits) = natOf digits := by
  rw [natOf_eq, Nat.ofDigitChars_append, Nat.ofDigitChars_replicate_zero, natOf_eq, Nat.mul_zero]

theorem isDigits_iff (text : List Char) :
    isDigits text = true ↔ text ≠ [] ∧ ∀ c ∈ text, c.isDigit = true := by
  simp [isDigits]

theorem isDigits_toDigits (n : Nat) : isDigits (Nat.toDigits 10 n) = true :=
  (isDigits_iff _).mpr ⟨Nat.toDigits_ne_nil, fun _ h ↦
    Nat.isDigit_of_mem_toDigits (by decide) (by decide) h⟩

/-- Zeros in front and behind keep a row of digits what it is. -/
theorem isDigits_zeros_append {digits : List Char} (count : Nat) (h : isDigits digits = true) :
    isDigits (List.replicate count '0' ++ digits) = true := by
  rw [isDigits_iff] at h ⊢
  refine ⟨by simp [h.1], fun c hc ↦ ?_⟩
  rcases List.mem_append.mp hc with hzero | hdigit
  · rw [List.eq_of_mem_replicate hzero]
    rfl
  · exact h.2 c hdigit

/-- The digits of a positive number do not start with zero. -/
theorem head?_toDigits {n : Nat} (hn : 0 < n) : (Nat.toDigits 10 n).head? ≠ some '0' := by
  induction n using Nat.strong_induction_on with
  | _ n ih =>
    by_cases hsmall : n < 10
    · rw [Nat.toDigits_of_lt_base hsmall]
      simp only [List.head?_cons, ne_eq, Option.some.injEq, Nat.digitChar_eq_zero]
      omega
    · have hfirst := ih (n / 10) (by omega) (by omega)
      rw [Nat.toDigits_of_base_le (by decide) (by omega)]
      obtain ⟨digit, rest, hdigits⟩ := List.exists_cons_of_ne_nil
        (Nat.toDigits_ne_nil : Nat.toDigits 10 (n / 10) ≠ [])
      rw [hdigits] at hfirst ⊢
      exact hfirst

theorem isWhole_of_head? {text : List Char} (hdigits : isDigits text = true)
    (hhead : text.head? ≠ some '0') : isWhole text = true := by
  simp [isWhole, hdigits, hhead]

theorem isWhole_toDigits (n : Nat) : isWhole (Nat.toDigits 10 n) = true := by
  obtain rfl | hn := Nat.eq_zero_or_pos n
  · decide
  · exact isWhole_of_head? (isDigits_toDigits n) (head?_toDigits hn)

namespace Numeral

/-! ### Numerals -/

/-- A numeral whose parts are rows of digits, the whole part without a leading zero. -/
structure Proper (numeral : Numeral) : Prop where
  whole : isWhole numeral.whole = true
  fraction : ∀ digits, numeral.fraction = some digits → isDigits digits = true
  exponent : ∀ part, numeral.exponent = some part → isDigits part.2 = true

/-- The whole part, and the fraction behind a point. -/
def base (numeral : Numeral) : List Char :=
  numeral.whole ++ numeral.fraction.elim [] ('.' :: ·)

/-- The exponent behind its mark and its sign. -/
def power (numeral : Numeral) : List Char :=
  numeral.exponent.elim [] fun part ↦ 'e' :: (if part.1 then '-' else '+') :: part.2

/-- The text of a numeral. -/
def text (numeral : Numeral) : List Char :=
  (if numeral.negative then ['-'] else []) ++ (numeral.base ++ numeral.power)

/-- The digits of a numeral as one number. -/
def mantissa (numeral : Numeral) : Nat := natOf (numeral.whole ++ numeral.fraction.getD [])

/-- The exponent of ten with which the digits of a numeral count. -/
def scale (numeral : Numeral) : Int :=
  (match numeral.exponent with
    | some (negative, digits) => if negative then -(natOf digits : Int) else natOf digits
    | none => 0) - (numeral.fraction.getD []).length

variable {numeral : Numeral}

theorem Proper.whole_digits (h : numeral.Proper) :
    numeral.whole ≠ [] ∧ ∀ c ∈ numeral.whole, c.isDigit = true := by
  have hwhole := h.whole
  rw [isWhole, Bool.and_eq_true] at hwhole
  exact (isDigits_iff _).mp hwhole.1

theorem Proper.fraction_digits (h : numeral.Proper) {digits : List Char}
    (hdigits : numeral.fraction = some digits) : ∀ c ∈ digits, c.isDigit = true :=
  ((isDigits_iff _).mp (h.fraction digits hdigits)).2

/-- What stands in front of the exponent has no exponent mark. -/
theorem Proper.base_not_mark (h : numeral.Proper) :
    ∀ c ∈ numeral.base, (!(c == 'e' || c == 'E')) = true := by
  have hdigit : ∀ {c : Char}, c.isDigit = true → (!(c == 'e' || c == 'E')) = true := by
    intro c hc
    have hlower : c ≠ 'e' := by rintro rfl; exact absurd hc (by decide)
    have hupper : c ≠ 'E' := by rintro rfl; exact absurd hc (by decide)
    simp [hlower, hupper]
  intro c hc
  rcases List.mem_append.mp hc with hwhole | hfraction
  · exact hdigit (h.whole_digits.2 c hwhole)
  · cases hparts : numeral.fraction with
    | none => simp [hparts] at hfraction
    | some digits =>
      simp only [hparts, Option.elim_some, List.mem_cons] at hfraction
      rcases hfraction with rfl | hdigits
      · decide
      · exact hdigit (h.fraction_digits hparts c hdigits)

/-- The first characters of a numeral: a digit, perhaps behind a sign. -/
theorem Proper.text_eq_cons (h : numeral.Proper) : ∃ digit rest, digit.isDigit = true ∧
    numeral.text = (if numeral.negative then ['-'] else []) ++ digit :: rest := by
  obtain ⟨hne, hdigits⟩ := h.whole_digits
  obtain ⟨digit, rest, hwhole⟩ := List.exists_cons_of_ne_nil hne
  refine ⟨digit, rest ++ numeral.fraction.elim [] ('.' :: ·) ++ numeral.power,
    hdigits digit (hwhole ▸ List.mem_cons_self), ?_⟩
  rw [text, base, hwhole, List.cons_append, List.cons_append]

/-- The parts of a proper numeral are found again in its text. -/
theorem ofText_text (h : numeral.Proper) : ofText numeral.text = numeral := by
  obtain ⟨digit, rest, hdigit, hfirst⟩ := h.text_eq_cons
  have hnot : digit ≠ '-' := by rintro rfl; exact absurd hdigit (by decide)
  have hsign : (numeral.text.head? == some '-') = numeral.negative := by
    rw [hfirst]
    cases numeral.negative <;> simp [hnot]
  have hunsigned : (if numeral.negative then numeral.text.drop 1 else numeral.text) =
      numeral.base ++ numeral.power := by
    rw [text]
    cases numeral.negative <;> rfl
  have hbase : (numeral.base ++ numeral.power).takeWhile (fun c ↦ !(c == 'e' || c == 'E')) =
      numeral.base := by
    rw [List.takeWhile_append_of_pos h.base_not_mark, power]
    cases numeral.exponent <;> simp
  have hwhole : numeral.base.takeWhile (· != '.') = numeral.whole := by
    have hpoint : ∀ c ∈ numeral.whole, (c != '.') = true := by
      intro c hc
      have hdigits := h.whole_digits.2 c hc
      rw [bne_iff_ne]
      rintro rfl
      exact absurd hdigits (by decide)
    rw [base, List.takeWhile_append_of_pos hpoint]
    cases numeral.fraction <;> simp
  have hfraction : numeral.base.drop numeral.whole.length =
      numeral.fraction.elim [] ('.' :: ·) := List.drop_left
  unfold ofText
  simp only [hsign, hunsigned, hbase, hwhole, hfraction, List.drop_left]
  obtain ⟨negative, whole, fraction, exponent⟩ := numeral
  cases fraction <;> rcases exponent with _ | ⟨_ | _, _⟩ <;> rfl

/-! ### The number of a numeral -/

theorem Proper.not_refused (h : numeral.Proper) :
    (!isWhole numeral.whole || numeral.fraction.any (!isDigits ·) ||
      numeral.exponent.any (!isDigits ·.2)) = false := by
  have hfraction := h.fraction
  have hexponent := h.exponent
  obtain ⟨negative, whole, fraction, exponent⟩ := numeral
  have hwhole : isWhole whole = true := h.whole
  cases fraction <;> cases exponent <;> simp_all

/-- A numeral of a whole part alone is an integer. -/
theorem value?_int (negative : Bool) (n : Nat) :
    value? ⟨negative, Nat.toDigits 10 n, none, none⟩ =
      some (.int (if negative then -(n : Int) else n)) := by
  simp [value?, isWhole_toDigits]

/-- Any other is the floating-point number nearest to what it writes. -/
theorem value?_float (h : numeral.Proper)
    (hparts : (numeral.fraction.isNone && numeral.exponent.isNone) = false) :
    numeral.value? =
      some (.float (.ofDecimal numeral.negative numeral.mantissa numeral.scale)) := by
  rw [value?, h.not_refused, hparts]
  rfl

/-! ### Runs -/

theorem isRunChar_of_isDigit {c : Char} (h : c.isDigit = true) : isRunChar c = true := by
  simp [isRunChar, Char.isAlphanum, h]

/-- A numeral is one run. -/
theorem Proper.isRunChar_text (h : numeral.Proper) : ∀ c ∈ numeral.text, isRunChar c = true := by
  intro c hc
  rcases List.mem_append.mp hc with hsign | hrest
  · cases hnegative : numeral.negative <;> simp only [hnegative] at hsign
    · simp at hsign
    · obtain rfl := List.mem_singleton.mp hsign
      decide
  rcases List.mem_append.mp hrest with hbase | hexponent
  · rcases List.mem_append.mp hbase with hwhole | hfraction
    · exact isRunChar_of_isDigit (h.whole_digits.2 c hwhole)
    · cases hdigits : numeral.fraction with
      | none => simp [hdigits] at hfraction
      | some digits =>
        simp only [hdigits, Option.elim_some, List.mem_cons] at hfraction
        rcases hfraction with rfl | hmem
        · decide
        · exact isRunChar_of_isDigit (h.fraction_digits hdigits c hmem)
  · cases hpart : numeral.exponent with
    | none => simp [power, hpart] at hexponent
    | some part =>
      simp only [power, hpart, Option.elim_some, List.mem_cons] at hexponent
      rcases hexponent with rfl | rfl | hmem
      · decide
      · cases part.1 <;> decide
      · exact isRunChar_of_isDigit (((isDigits_iff _).mp (h.exponent part hpart)).2 c hmem)

/-- A numeral is none of the words. -/
theorem scalar?_text (h : numeral.Proper) : scalar? numeral.text = numeral.value? := by
  obtain ⟨digit, rest, hdigit, hfirst⟩ := h.text_eq_cons
  have hword : ∀ word : String, word.toList.head? = some '-' ∧ word.toList[1]? = some 'I' ∨
      (∃ c, word.toList.head? = some c ∧ c ≠ '-' ∧ c.isDigit = false) →
      String.ofList numeral.text ≠ word := by
    rintro word hshape rfl
    rw [String.toList_ofList, hfirst] at hshape
    cases hnegative : numeral.negative <;> simp only [hnegative] at hshape
    · rcases hshape with hshape | ⟨c, hc, -, hnone⟩
      · obtain rfl : digit = '-' := by simpa using hshape.1
        exact absurd hdigit (by decide)
      · obtain rfl : digit = c := by simpa using hc
        rw [hdigit] at hnone
        exact absurd hnone (by decide)
    · rcases hshape with hshape | ⟨c, hc, hne, -⟩
      · obtain rfl : digit = 'I' := by simpa using hshape.2
        exact absurd hdigit (by decide)
      · exact hne (by simpa using hc.symm)
  have hnull := hword "null" (.inr ⟨'n', by decide⟩)
  have htrue := hword "true" (.inr ⟨'t', by decide⟩)
  have hfalse := hword "false" (.inr ⟨'f', by decide⟩)
  have hnan := hword "NaN" (.inr ⟨'N', by decide⟩)
  have hinfinity := hword "Infinity" (.inr ⟨'I', by decide⟩)
  have hminus := hword "-Infinity" (.inl (by decide))
  unfold scalar?
  split <;> first | contradiction | rw [ofText_text h]

end Numeral

end CommandLine.Json.Token
