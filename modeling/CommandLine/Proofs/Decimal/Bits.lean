import CommandLine.Proofs.Decimal.Rounding

/-!
The bits of floating-point numbers. A number is its sign and the rest of its bits, read as a natural
number; of a finite number this is its significand together with its exponent, counted from the
least one. Rounding a decimal never leads to what is no number.
-/

set_option autoImplicit false

namespace CommandLine.Decimal.Binary64

theorem toNat_ofMagnitude (negative : Bool) {magnitude : Nat} (h : magnitude < 2 ^ 63) :
    (ofMagnitude negative magnitude).bits.toNat = magnitude + if negative then 2 ^ 63 else 0 := by
  cases negative with
  | true =>
    have hlt : magnitude + 2 ^ 63 < 2 ^ 64 := by omega
    simpa [ofMagnitude, Nat.pow_eq] using Nat.mod_eq_of_lt hlt
  | false =>
    have hlt : magnitude < 2 ^ 64 := by omega
    simpa [ofMagnitude] using Nat.mod_eq_of_lt hlt

/-- A number is its sign and the rest of its bits. -/
theorem ofMagnitude_eq (x : Binary64) :
    ofMagnitude x.isNegative (x.bits.toNat % 2 ^ 63) = x := by
  obtain ⟨bits⟩ := x
  have hlt := bits.toNat_lt
  have hsum : bits.toNat % 2 ^ 63 + (if 2 ^ 63 ≤ bits.toNat then 2 ^ 63 else 0) = bits.toNat := by
    split <;> omega
  simp only [ofMagnitude, isNegative, Nat.pow_eq, decide_eq_true_eq]
  rw [hsum, UInt64.ofNat_toNat]

/-- Nothing up to infinity is no number. -/
theorem isNaN_ofMagnitude (negative : Bool) {magnitude : Nat} (h : magnitude ≤ 0x7FF * 2 ^ 52) :
    (ofMagnitude negative magnitude).isNaN = false := by
  have hbits := toNat_ofMagnitude negative (by omega : magnitude < 2 ^ 63)
  simp only [isNaN, exponentField, fraction, hbits, Nat.pow_eq, decide_eq_false_iff_not, not_and,
    not_not]
  cases negative with
  | true => simp only [if_true]; omega
  | false => simp only [Bool.false_eq_true, if_false]; omega

@[simp] theorem isNaN_infinity (negative : Bool) : (infinity negative).isNaN = false :=
  isNaN_ofMagnitude negative (Nat.le_refl _)

theorem isNaN_ofRatio (negative : Bool) (numerator denominator : Nat) :
    (ofRatio negative numerator denominator).isNaN = false := by
  unfold ofRatio
  dsimp only
  split
  · rename_i h
    exact isNaN_ofMagnitude negative (Nat.le_of_lt h)
  · exact isNaN_infinity negative

theorem isNaN_ofDecimal (negative : Bool) (mantissa : Nat) (exponent : Int) :
    (ofDecimal negative mantissa exponent).isNaN = false := by
  unfold ofDecimal
  dsimp only
  split
  · exact isNaN_ofMagnitude negative (Nat.zero_le _)
  · split
    · exact isNaN_infinity negative
    · exact isNaN_ofRatio ..

variable {x : Binary64}

/-- The two numbers that are infinite. -/
theorem eq_infinity (h : x.isInfinite = true) : x = infinity x.isNegative := by
  have hlt := x.bits.toNat_lt
  have hparts := of_decide_eq_true h
  simp only [exponentField, fraction, Nat.pow_eq] at hparts
  have hmagnitude : x.bits.toNat % 2 ^ 63 = 0x7FF * 2 ^ 52 := by omega
  rw [infinity, Nat.pow_eq, ← hmagnitude, ofMagnitude_eq]

/-- The two numbers that are zero. -/
theorem eq_zero (h : x.isZero = true) : x = ofMagnitude x.isNegative 0 := by
  have hzero : x.bits.toNat % 2 ^ 63 = 0 := by
    simpa [isZero, Nat.pow_eq] using h
  rw [← hzero, ofMagnitude_eq]

/-- The parts of a number are those of a finite one. -/
theorem regular_parts (x : Binary64) : x.parts.Regular := by
  have hfraction : x.fraction = x.bits.toNat % 2 ^ 52 := rfl
  unfold parts
  simp only [Nat.pow_eq]
  split
  · exact ⟨by dsimp only; omega, le_rfl, .inl rfl⟩
  · exact ⟨by dsimp only; omega, by dsimp only; omega, .inr (by dsimp only; omega)⟩

theorem magnitude_parts (x : Binary64) : x.parts.magnitude = x.bits.toNat % 2 ^ 63 := by
  have hlt := x.bits.toNat_lt
  have hfield : x.exponentField = x.bits.toNat / 2 ^ 52 % 2 ^ 11 := rfl
  have hfraction : x.fraction = x.bits.toNat % 2 ^ 52 := rfl
  unfold parts
  by_cases h : x.exponentField = 0
  · rw [if_pos h]
    simp only [Parts.magnitude, sub_self, Int.toNat_zero]
    omega
  · have htoNat : (leastExponent + x.exponentField - 1 - leastExponent).toNat =
        x.exponentField - 1 := by
      omega
    rw [if_neg h]
    simp only [Parts.magnitude, htoNat, Nat.pow_eq]
    omega

theorem magnitude_lt (hnan : x.isNaN = false) (hinfinite : x.isInfinite = false) :
    x.parts.magnitude < 0x7FF * 2 ^ 52 := by
  have hlt := x.bits.toNat_lt
  have hfield : x.exponentField = x.bits.toNat / 2 ^ 52 % 2 ^ 11 := rfl
  have hnumber := of_decide_eq_false hnan
  have hbounded := of_decide_eq_false hinfinite
  rw [magnitude_parts]
  omega

theorem significand_pos (hzero : x.isZero = false) : 0 < x.parts.significand := by
  have hmagnitude := magnitude_parts x
  have hne : x.bits.toNat % 2 ^ 63 ≠ 0 := by
    simpa [isZero, Nat.pow_eq] using hzero
  have hregular := x.regular_parts
  unfold Parts.magnitude at hmagnitude
  rcases hregular.full with hleast | hfull
  · rw [hleast] at hmagnitude
    simp only [sub_self, Int.toNat_zero] at hmagnitude
    omega
  · omega

end CommandLine.Decimal.Binary64
