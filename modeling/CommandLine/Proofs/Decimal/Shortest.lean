import CommandLine.Decimal.Shortest
import CommandLine.Proofs.Decimal.Bits

/-!
The shortest decimal of a floating-point number reads back as that number. What the search for it
tests is whether a decimal lies in the interval of the number, so whatever it finds does; and it
finds something, since with seventeen digits the decimals are closer together than the interval is
wide. Reading a decimal rounds it, and leaves nothing of its notation but its value.
-/

set_option autoImplicit false

namespace CommandLine.Decimal

open Binary64 (Parts leastExponent ofDecimal ofMagnitude)

/-! ### The interval that is searched -/

namespace Neighbourhood

variable {parts : Parts}

theorem denominator_pos (parts : Parts) : 0 < (ofParts parts).denominator :=
  ratioPow_snd_pos (by decide) _

theorem fst_div_denominator (parts : Parts) :
    ((ratioPow 2 (parts.exponent - 2)).1 : ℚ) / (ofParts parts).denominator =
      2 ^ parts.exponent / 4 := by
  rw [ofParts, ← ofNat_zpow, zpow_sub₀ (by norm_num)]
  norm_num

theorem value_div (parts : Parts) :
    ((ofParts parts).value : ℚ) / (ofParts parts).denominator =
      parts.significand * 2 ^ parts.exponent := by
  have hvalue : (ofParts parts).value =
      4 * parts.significand * (ratioPow 2 (parts.exponent - 2)).1 := rfl
  rw [hvalue]
  push_cast
  rw [mul_div_assoc, fst_div_denominator]
  ring

theorem high_div (parts : Parts) :
    ((ofParts parts).high : ℚ) / (ofParts parts).denominator =
      (parts.significand + 1 / 2) * 2 ^ parts.exponent := by
  have hhigh : (ofParts parts).high =
      (4 * parts.significand + 2) * (ratioPow 2 (parts.exponent - 2)).1 := rfl
  rw [hhigh]
  push_cast
  rw [mul_div_assoc, fst_div_denominator]
  ring

theorem low_div (hpositive : 0 < parts.significand) :
    ((ofParts parts).low : ℚ) / (ofParts parts).denominator =
      (parts.significand - parts.below) * 2 ^ parts.exponent := by
  have hlow : (ofParts parts).low =
      (4 * parts.significand -
        if parts.significand = 2 ^ 52 ∧ leastExponent < parts.exponent then 1 else 2) *
          (ratioPow 2 (parts.exponent - 2)).1 := by
    simp [ofParts, Nat.pow_eq]
  rw [hlow, Parts.below]
  split
  · rw [Nat.cast_mul, Nat.cast_sub (by omega), mul_div_assoc, fst_div_denominator]
    push_cast
    ring
  · rw [Nat.cast_mul, Nat.cast_sub (by omega), mul_div_assoc, fst_div_denominator]
    push_cast
    ring

/-- A comparison of a decimal with an end of the interval, over one denominator. -/
theorem le_point_iff (bound digits : Nat) {denominator : Nat} (hdenominator : 0 < denominator)
    (exponent : Int) :
    bound * (ratioPow 10 exponent).2 ≤ digits * (ratioPow 10 exponent).1 * denominator ↔
      (bound : ℚ) / denominator ≤ digits * 10 ^ exponent := by
  have hpos : (0 : ℚ) < denominator := by exact_mod_cast hdenominator
  have hsnd : (0 : ℚ) < (ratioPow 10 exponent).2 := by
    exact_mod_cast ratioPow_snd_pos (by decide) exponent
  rw [ofNat_zpow, ← mul_div_assoc, div_le_div_iff₀ hpos hsnd]
  exact_mod_cast Iff.rfl

theorem point_le_iff (bound digits : Nat) {denominator : Nat} (hdenominator : 0 < denominator)
    (exponent : Int) :
    digits * (ratioPow 10 exponent).1 * denominator ≤ bound * (ratioPow 10 exponent).2 ↔
      (digits * 10 ^ exponent : ℚ) ≤ bound / denominator := by
  have hpos : (0 : ℚ) < denominator := by exact_mod_cast hdenominator
  have hsnd : (0 : ℚ) < (ratioPow 10 exponent).2 := by
    exact_mod_cast ratioPow_snd_pos (by decide) exponent
  rw [ofNat_zpow, ← mul_div_assoc, div_le_div_iff₀ hsnd hpos]
  exact_mod_cast Iff.rfl

/-- What the search tests is that the decimal lies in the interval of the number. -/
theorem contains_iff (hpositive : 0 < parts.significand) (exponent : Int) (digits : Nat) :
    (ofParts parts).contains exponent digits = true ↔ parts.Covers (digits * 10 ^ exponent) := by
  have hden := denominator_pos parts
  have hpower : (0 : ℚ) < 2 ^ parts.exponent := by positivity
  have hlow : (ofParts parts).low * (ratioPow 10 exponent).2 ≤
        digits * (ratioPow 10 exponent).1 * (ofParts parts).denominator ↔
      parts.significand - parts.below ≤ digits * 10 ^ exponent / (2 : ℚ) ^ parts.exponent := by
    rw [le_point_iff _ _ hden, low_div hpositive, le_div_iff₀ hpower]
  have hhigh : digits * (ratioPow 10 exponent).1 * (ofParts parts).denominator ≤
        (ofParts parts).high * (ratioPow 10 exponent).2 ↔
      digits * 10 ^ exponent / (2 : ℚ) ^ parts.exponent ≤ parts.significand + 1 / 2 := by
    rw [point_le_iff _ _ hden, high_div, div_le_iff₀ hpower]
  have hlow' : (ofParts parts).low * (ratioPow 10 exponent).2 <
        digits * (ratioPow 10 exponent).1 * (ofParts parts).denominator ↔
      parts.significand - parts.below < digits * 10 ^ exponent / (2 : ℚ) ^ parts.exponent := by
    rw [← not_le, point_le_iff _ _ hden, low_div hpositive, not_le, lt_div_iff₀ hpower]
  have hhigh' : digits * (ratioPow 10 exponent).1 * (ofParts parts).denominator <
        (ofParts parts).high * (ratioPow 10 exponent).2 ↔
      digits * 10 ^ exponent / (2 : ℚ) ^ parts.exponent < parts.significand + 1 / 2 := by
    rw [← not_le, le_point_iff _ _ hden, high_div, not_le, div_lt_iff₀ hpower]
  have hclosed : (ofParts parts).closed = decide (parts.significand % 2 = 0) := rfl
  unfold contains
  dsimp only
  by_cases heven : parts.significand % 2 = 0
  · rw [if_pos (by rw [hclosed]; exact decide_eq_true heven), decide_eq_true_eq, hlow, hhigh]
    exact ⟨fun ⟨hleft, hright⟩ ↦ ⟨hleft, hright, fun hodd ↦ by omega⟩, fun h ↦ ⟨h.low, h.high⟩⟩
  · rw [if_neg (by rw [hclosed]; simpa using heven), decide_eq_true_eq, hlow', hhigh']
    exact ⟨fun ⟨hleft, hright⟩ ↦ ⟨hleft.le, hright.le, fun _ ↦ ⟨hleft, hright⟩⟩,
      fun h ↦ h.strict (by omega)⟩

/-! ### The search -/

/-- The power of ten of the decimal exponent is not above the number. -/
theorem decimalExponent_le (hregular : parts.Regular) (hpositive : 0 < parts.significand) :
    (10 : ℚ) ^ (ofParts parts).decimalExponent ≤ parts.significand * 2 ^ parts.exponent := by
  have htest (exponent : Int) :
      (ratioPow 10 exponent).1 * (ofParts parts).denominator ≤
          (ofParts parts).value * (ratioPow 10 exponent).2 ↔
        (10 : ℚ) ^ exponent ≤ parts.significand * 2 ^ parts.exponent := by
    have h := point_le_iff (ofParts parts).value 1 (denominator_pos parts) exponent
    rw [one_mul, Nat.cast_one, one_mul, value_div] at h
    exact h
  unfold decimalExponent
  dsimp only
  cases hfind : ((List.range 640).map fun (n : Nat) ↦ (310 : Int) - n).find? (fun exponent ↦
      decide ((ratioPow 10 exponent).1 * (ofParts parts).denominator ≤
        (ofParts parts).value * (ratioPow 10 exponent).2)) with
  | some exponent =>
    have hfound := List.find?_some hfind
    rw [decide_eq_true_eq] at hfound
    exact (htest exponent).mp hfound
  | none =>
    -- the last exponent that is tried is below that of the least number
    have hlast := List.find?_eq_none.mp hfind (-329)
      (List.mem_map.mpr ⟨639, by simp, by norm_num⟩)
    rw [decide_eq_true_eq, htest] at hlast
    refine absurd ?_ hlast
    have hone : (1 : ℚ) ≤ parts.significand := by exact_mod_cast hpositive
    have hleast : (2 : ℚ) ^ (-1074 : Int) ≤ 2 ^ parts.exponent :=
      zpow_le_zpow_right₀ (by norm_num) hregular.least_le
    calc (10 : ℚ) ^ (-329 : Int)
      _ ≤ 2 ^ (-1074 : Int) := by
        have hpowers : (2 : ℕ) ^ 1074 ≤ 10 ^ 329 := by decide +kernel
        rw [zpow_neg, zpow_neg]
        exact inv_anti₀ (by positivity) (by exact_mod_cast hpowers)
      _ ≤ 2 ^ parts.exponent := hleast
      _ ≤ parts.significand * 2 ^ parts.exponent := le_mul_of_one_le_left (by positivity) hone

theorem contains_of_nearest? {around : Neighbourhood} {exponent : Int} {digits : Nat}
    (h : around.nearest? exponent = some digits) : around.contains exponent digits = true := by
  have hfirst (rounded other : Nat)
      (hfound : (if around.contains exponent rounded then some rounded
        else if around.contains exponent other then some other else none) = some digits) :
      around.contains exponent digits = true := by
    split at hfound
    · rename_i hcontains
      cases hfound
      exact hcontains
    · split at hfound
      · rename_i hcontains
        cases hfound
        exact hcontains
      · cases hfound
  exact hfirst _ _ h

/-- Where a unit of the last digit is less than a tenth of a quadrillionth of the number, the
nearest decimal lies in the interval. -/
theorem covers_rounded (hregular : parts.Regular) {exponent : Int} {digits : Nat}
    (hunit : (10 : ℚ) ^ (exponent + 16) ≤ parts.significand * 2 ^ parts.exponent)
    (hlow : (digits : ℚ) - 1 / 2 ≤ parts.significand * 2 ^ parts.exponent / 10 ^ exponent)
    (hhigh : parts.significand * 2 ^ parts.exponent / 10 ^ exponent ≤ (digits : ℚ) + 1 / 2) :
    parts.Covers (digits * 10 ^ exponent) := by
  have hten : (0 : ℚ) < 10 ^ exponent := by positivity
  have htwo : (0 : ℚ) < 2 ^ parts.exponent := by positivity
  set unit : ℚ := 10 ^ exponent / 2 ^ parts.exponent with hdef
  have hsmall : unit * 10 ^ 16 ≤ parts.significand := by
    rw [hdef, div_mul_eq_mul_div, div_le_iff₀ htwo]
    calc (10 : ℚ) ^ exponent * 10 ^ 16
      _ = 10 ^ (exponent + 16) := by
        rw [zpow_add₀ (by norm_num)]
        norm_num
      _ ≤ parts.significand * 2 ^ parts.exponent := hunit
  have hpoint : digits * 10 ^ exponent / (2 : ℚ) ^ parts.exponent = digits * unit := by
    rw [hdef, mul_div_assoc]
  have hvalue : parts.significand * 2 ^ parts.exponent / (10 : ℚ) ^ exponent =
      parts.significand / unit := by
    rw [hdef, div_div_eq_mul_div]
  have hpos : 0 < unit := div_pos hten htwo
  rw [hvalue, le_div_iff₀ hpos] at hlow
  rw [hvalue, div_le_iff₀ hpos] at hhigh
  have hless : (parts.significand : ℚ) < 9007199254740992 := by
    exact_mod_cast hregular.significand_lt
  have hbelow : (parts.significand : ℚ) / 10 ^ 16 / 2 < parts.below := by
    unfold Parts.below
    split
    · rename_i hnarrow
      rw [hnarrow.1]
      norm_num
    · linarith
  have hleft : parts.significand - parts.below < digits * unit := by linarith
  have hright : digits * unit < parts.significand + 1 / 2 := by linarith
  rw [← hpoint] at hleft hright
  exact ⟨hleft.le, hright.le, fun _ ↦ ⟨hleft, hright⟩⟩

/-- With seventeen digits a decimal is found. -/
theorem isSome_nearest? (hregular : parts.Regular) (hpositive : 0 < parts.significand) :
    ((ofParts parts).nearest? ((ofParts parts).decimalExponent - 16)).isSome := by
  set exponent := (ofParts parts).decimalExponent - 16 with hexponent
  have hden := denominator_pos parts
  have hquotient : (((ofParts parts).value * (ratioPow 10 exponent).2 : Nat) : ℚ) /
      ((ratioPow 10 exponent).1 * (ofParts parts).denominator : Nat) =
        parts.significand * 2 ^ parts.exponent / 10 ^ exponent := by
    rw [← value_div, ofNat_zpow, div_div_div_eq]
    push_cast
    rw [mul_comm ((ratioPow 10 exponent).1 : ℚ)]
  obtain ⟨hlow, hhigh⟩ := roundDiv_bounds ((ofParts parts).value * (ratioPow 10 exponent).2)
    (Nat.mul_pos (ratioPow_fst_pos (by decide : 0 < 10) exponent) hden)
  rw [hquotient] at hlow hhigh
  have hunit : (10 : ℚ) ^ (exponent + 16) ≤ parts.significand * 2 ^ parts.exponent := by
    rw [hexponent, sub_add_cancel]
    exact decimalExponent_le hregular hpositive
  have hcontains := (contains_iff hpositive exponent _).mpr
    (covers_rounded hregular hunit hlow hhigh)
  unfold nearest?
  dsimp only
  rw [if_pos hcontains]
  rfl

/-- The shortest decimal lies in the interval of the number. -/
theorem covers_shortest (hregular : parts.Regular) (hpositive : 0 < parts.significand) :
    parts.Covers ((ofParts parts).shortest.digits * 10 ^ (ofParts parts).shortest.exponent) := by
  rw [← contains_iff hpositive]
  unfold shortest
  dsimp only
  cases hfind : (List.range 17).findSome? (fun (n : Nat) ↦
      ((ofParts parts).nearest? ((ofParts parts).decimalExponent - n)).map fun digits ↦
        (⟨digits, (ofParts parts).decimalExponent - n⟩ : Scaled)) with
  | some decimal =>
    obtain ⟨n, -, hn⟩ := List.exists_of_findSome?_eq_some hfind
    obtain ⟨digits, hdigits, rfl⟩ := Option.map_eq_some_iff.mp hn
    exact contains_of_nearest? hdigits
  | none =>
    have hlast := List.findSome?_eq_none_iff.mp hfind 16 (by simp)
    obtain ⟨digits, hdigits⟩ := Option.isSome_iff_exists.mp (isSome_nearest? hregular hpositive)
    have hsome : (ofParts parts).nearest? ((ofParts parts).decimalExponent - (16 : Nat)) =
        some digits := hdigits
    rw [hsome] at hlast
    cases hlast

end Neighbourhood

/-! ### Reading a decimal -/

namespace Binary64

variable {parts : Parts}

/-- The interval of a number does not reach down to the zero below the least number. -/
theorem Parts.Covers.least_lt {value : ℚ} (hregular : parts.Regular)
    (hpositive : 0 < parts.significand) (h : parts.Covers value) :
    (2 : ℚ) ^ (-1075 : Int) ≤ value := by
  have hleast := hregular.least_le
  have hone : (1 : ℚ) ≤ parts.significand := by exact_mod_cast hpositive
  have hhalf : 1 / 2 ≤ value / 2 ^ parts.exponent := by linarith [h.low, parts.below_le]
  calc (2 : ℚ) ^ (-1075 : Int)
    _ ≤ 2 ^ (parts.exponent - 1) :=
      zpow_le_zpow_right₀ (by norm_num) (by unfold leastExponent at hleast; omega)
    _ = 1 / 2 * 2 ^ parts.exponent := by
      rw [zpow_sub_one₀ (by norm_num)]
      ring
    _ ≤ value := (le_div_iff₀ (by positivity)).mp hhalf

/-- The interval of a finite number does not reach up to the power of two beyond all numbers. -/
theorem Parts.Covers.lt_infinity {value : ℚ} (hregular : parts.Regular)
    (hfinite : parts.magnitude < 0x7FF * 2 ^ 52) (h : parts.Covers value) :
    value < (2 : ℚ) ^ (1024 : Int) := by
  have hexponent : parts.exponent ≤ 971 := by
    unfold Parts.magnitude at hfinite
    rcases hregular.full with hleast | hfull
    · rw [hleast]
      decide
    · unfold leastExponent at hfinite
      omega
  exact (h.lt hregular).trans_le (zpow_le_zpow_right₀ (by norm_num) (by omega))

theorem digitCount_spec {n : Nat} (hn : 0 < n) :
    10 ^ (digitCount n - 1) ≤ n ∧ n < 10 ^ digitCount n := by
  have hcount : digitCount n = (Nat.toDigits 10 n).length := if_neg (by omega)
  have hpos : 0 < (Nat.toDigits 10 n).length := Nat.length_toDigits_pos
  rw [hcount]
  refine ⟨?_, (Nat.length_toDigits_le_iff (by decide) hpos).mp le_rfl⟩
  by_cases hone : (Nat.toDigits 10 n).length = 1
  · rw [hone]
    exact hn
  · have hfewer := (Nat.length_toDigits_le_iff (b := 10) (n := n)
      (k := (Nat.toDigits 10 n).length - 1) (by decide) (by omega)).not.mp (by omega)
    omega

/-- The power of ten of a decimal's size is above it, and the one below is not. -/
theorem size_spec {mantissa : Nat} (hmantissa : 0 < mantissa) (exponent : Int) :
    (10 : ℚ) ^ (exponent + digitCount mantissa - 1) ≤ mantissa * 10 ^ exponent ∧
      (mantissa * 10 ^ exponent : ℚ) < 10 ^ (exponent + digitCount mantissa) := by
  obtain ⟨hlow, hhigh⟩ := digitCount_spec hmantissa
  have hten : (0 : ℚ) < 10 ^ exponent := by positivity
  have hcount : 0 < digitCount mantissa := by
    rw [digitCount, if_neg (by omega)]
    exact Nat.length_toDigits_pos
  constructor
  · have hsplit : exponent + digitCount mantissa - 1 =
        ((digitCount mantissa - 1 : Nat) : Int) + exponent := by
      omega
    rw [hsplit, zpow_add₀ (by norm_num), zpow_natCast]
    gcongr
    exact_mod_cast hlow
  · rw [add_comm, zpow_add₀ (by norm_num), zpow_natCast]
    gcongr
    exact_mod_cast hhigh

/-- The size of a decimal in the interval of a finite number is among those that are read as neither
zero nor infinite at once. -/
theorem Parts.Covers.size_bounds (hregular : parts.Regular) (hpositive : 0 < parts.significand)
    (hfinite : parts.magnitude < 0x7FF * 2 ^ 52) {mantissa : Nat} {exponent : Int}
    (h : parts.Covers (mantissa * 10 ^ exponent)) (hmantissa : 0 < mantissa) :
    -330 ≤ exponent + digitCount mantissa ∧ exponent + digitCount mantissa ≤ 330 := by
  obtain ⟨hlow, hhigh⟩ := size_spec hmantissa exponent
  have hleast := h.least_lt hregular hpositive
  have hmost := h.lt_infinity hregular hfinite
  have hten : (1 : ℚ) < 10 := by norm_num
  constructor
  · by_contra hsize
    have hpowers : (2 : ℕ) ^ 1075 ≤ 10 ^ 330 := by decide +kernel
    have hbound : (10 : ℚ) ^ (-330 : Int) ≤ 2 ^ (-1075 : Int) := by
      rw [zpow_neg, zpow_neg]
      exact inv_anti₀ (by positivity) (by exact_mod_cast hpowers)
    have hless := (zpow_lt_zpow_right₀ hten (not_le.mp hsize)).trans_le hbound
    exact absurd (hleast.trans_lt (hhigh.trans hless)) (lt_irrefl _)
  · by_contra hsize
    have hpowers : (2 : ℕ) ^ 1024 ≤ 10 ^ 330 := by decide +kernel
    have hbound : (2 : ℚ) ^ (1024 : Int) ≤ 10 ^ (330 : Int) := by exact_mod_cast hpowers
    have hmore : (10 : ℚ) ^ (330 : Int) ≤ 10 ^ (exponent + digitCount mantissa - 1) :=
      zpow_le_zpow_right₀ hten.le (by omega)
    exact absurd (hbound.trans (hmore.trans hlow)) (not_le.mpr hmost)

/-- Every decimal in the interval of a number is read as that number. -/
theorem ofDecimal_eq (hregular : parts.Regular) (hpositive : 0 < parts.significand)
    (hfinite : parts.magnitude < 0x7FF * 2 ^ 52) {mantissa : Nat} {exponent : Int}
    (h : parts.Covers (mantissa * 10 ^ exponent)) (negative : Bool) :
    ofDecimal negative mantissa exponent = ofMagnitude negative parts.magnitude := by
  have hmantissa : 0 < mantissa := by
    by_contra hzero
    obtain rfl : mantissa = 0 := by omega
    simpa using h.pos hpositive
  obtain ⟨hsmall, hlarge⟩ := h.size_bounds hregular hpositive hfinite hmantissa
  have hratio : ((mantissa * (ratioPow 10 exponent).1 : Nat) : ℚ) / (ratioPow 10 exponent).2 =
      mantissa * 10 ^ exponent := by
    rw [ofNat_zpow, Nat.cast_mul, mul_div_assoc]
  unfold ofDecimal
  dsimp only
  rw [if_neg (by omega), if_neg (by omega)]
  refine ofRatio_eq hregular hpositive hfinite (ratioPow_snd_pos (by decide) exponent) ?_ negative
  rwa [hratio]

end Binary64

/-- A decimal with the value of the shortest one of a finite number is read as the number. -/
theorem ofDecimal_of_shortest {x : Binary64} (hnan : x.isNaN = false)
    (hinfinite : x.isInfinite = false) (hzero : x.isZero = false) {mantissa : Nat} {exponent : Int}
    (h : (mantissa * 10 ^ exponent : ℚ) = (shortest x).digits * 10 ^ (shortest x).exponent) :
    ofDecimal x.isNegative mantissa exponent = x := by
  have hregular := x.regular_parts
  have hpositive := Binary64.significand_pos hzero
  have hshortest : shortest x = (Neighbourhood.ofParts x.parts).shortest := by
    simp [shortest, hzero]
  have hcovers := Neighbourhood.covers_shortest hregular hpositive
  rw [← hshortest, ← h] at hcovers
  rw [Binary64.ofDecimal_eq hregular hpositive (Binary64.magnitude_lt hnan hinfinite) hcovers,
    Binary64.magnitude_parts, Binary64.ofMagnitude_eq]

/-- The shortest decimal of a number that is not zero has digits. -/
theorem digits_shortest_pos {x : Binary64} (hzero : x.isZero = false) :
    0 < (shortest x).digits := by
  have hpositive := Binary64.significand_pos hzero
  have hcovers := Neighbourhood.covers_shortest x.regular_parts hpositive
  have hshortest : shortest x = (Neighbourhood.ofParts x.parts).shortest := by
    simp [shortest, hzero]
  rw [← hshortest] at hcovers
  have hvalue := hcovers.pos hpositive
  by_contra hnone
  have hdigits : (shortest x).digits = 0 := by omega
  simp [hdigits] at hvalue

end CommandLine.Decimal
