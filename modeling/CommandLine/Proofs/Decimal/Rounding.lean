import CommandLine.Decimal.Binary64
import Mathlib.Algebra.Order.Field.Power
import Mathlib.Data.Rat.Cast.Order
import Mathlib.Tactic.FieldSimp
import Mathlib.Tactic.Linarith
import Mathlib.Tactic.NormNum
import Mathlib.Tactic.Positivity
import Mathlib.Tactic.Ring

/-!
Rounding to floating-point numbers, in terms of rationals. Around each positive number lies the
interval of the rationals that are nearer to it than to its neighbours: half of the step to the next
number above it, and below it half of the step to the previous one, which at a power of two is only
half as long. The ends belong to the number whose significand is even. Every ratio in the interval
of a number is rounded to that number.
-/

set_option autoImplicit false

namespace CommandLine.Decimal

/-! ### Powers and quotients -/

theorem ratioPow_snd_pos {base : Nat} (hbase : 0 < base) (exponent : Int) :
    0 < (ratioPow base exponent).2 := by
  unfold ratioPow
  split
  · exact Nat.one_pos
  · exact Nat.pow_pos hbase

theorem ratioPow_fst_pos {base : Nat} (hbase : 0 < base) (exponent : Int) :
    0 < (ratioPow base exponent).1 := by
  unfold ratioPow
  split
  · exact Nat.pow_pos hbase
  · exact Nat.one_pos

theorem ratioPow_div (base : Nat) (exponent : Int) :
    ((ratioPow base exponent).1 : ℚ) / (ratioPow base exponent).2 = (base : ℚ) ^ exponent := by
  unfold ratioPow
  split
  · rename_i h
    obtain ⟨n, rfl⟩ := Int.eq_ofNat_of_zero_le h
    simp [Nat.pow_eq]
  · rename_i h
    obtain ⟨n, hn⟩ := Int.eq_ofNat_of_zero_le (show 0 ≤ -exponent by omega)
    have hexponent : exponent = -(n : Int) := by omega
    simp [hexponent, Nat.pow_eq]

/-- A power of a literal base as a quotient. -/
theorem ofNat_zpow (base : Nat) [base.AtLeastTwo] (exponent : Int) :
    (ofNat(base) : ℚ) ^ exponent =
      (ratioPow ofNat(base) exponent).1 / (ratioPow ofNat(base) exponent).2 := by
  rw [ratioPow_div, Nat.cast_ofNat]

/-- A quotient of natural numbers is rounded to the number that is at most a half away from it, and
to an even one if it is exactly a half away. -/
theorem roundDiv_eq_of_le {numerator denominator k : Nat} (hdenominator : 0 < denominator)
    (hlow : 2 * k * denominator ≤ 2 * numerator + denominator)
    (hhigh : 2 * numerator ≤ (2 * k + 1) * denominator)
    (htie : k % 2 = 1 → 2 * k * denominator < 2 * numerator + denominator ∧
      2 * numerator < (2 * k + 1) * denominator) :
    roundDiv numerator denominator = k := by
  have hdiv := Nat.div_add_mod numerator denominator
  have hmod := Nat.mod_lt numerator hdenominator
  rw [roundDiv]
  set quotient := numerator / denominator with hquotient
  set remainder := numerator % denominator with hremainder
  -- the quotient is the number itself, or the one below it
  have hupper : quotient ≤ k := by
    by_contra h
    have hmul : denominator * (k + 1) ≤ denominator * quotient := Nat.mul_le_mul_left _ (by omega)
    nlinarith
  have hlower : k ≤ quotient + 1 := by
    by_contra h
    have hmul : denominator * (quotient + 2) ≤ denominator * k := Nat.mul_le_mul_left _ (by omega)
    nlinarith
  rcases Nat.lt_or_ge quotient k with hlt | hge
  · obtain rfl : k = quotient + 1 := by omega
    have hhalf : denominator ≤ 2 * remainder := by nlinarith
    rw [if_neg]
    rintro (h | ⟨h, heven⟩)
    · omega
    · have := (htie (by omega)).1
      nlinarith
  · obtain rfl : k = quotient := by omega
    have hhalf : 2 * remainder ≤ denominator := by nlinarith
    rw [if_pos]
    by_cases h : 2 * remainder = denominator
    · refine .inr ⟨h, ?_⟩
      by_contra heven
      have := (htie (by omega)).2
      nlinarith
    · exact .inl (by omega)

/-- A quotient is rounded to a number that it is at most a half away from, and less if the number is
odd. -/
theorem roundDiv_eq {numerator denominator k : Nat} (hdenominator : 0 < denominator)
    (hlow : (k : ℚ) - 1 / 2 ≤ numerator / denominator)
    (hhigh : (numerator : ℚ) / denominator ≤ k + 1 / 2)
    (htie : k % 2 = 1 → (k : ℚ) - 1 / 2 < numerator / denominator ∧
      (numerator : ℚ) / denominator < k + 1 / 2) :
    roundDiv numerator denominator = k := by
  have hpos : (0 : ℚ) < denominator := by exact_mod_cast hdenominator
  refine roundDiv_eq_of_le hdenominator ?_ ?_ fun hodd ↦ ?_
  · rw [le_div_iff₀ hpos] at hlow
    have h : (2 * k * denominator : ℚ) ≤ 2 * numerator + denominator := by linarith
    exact_mod_cast h
  · rw [div_le_iff₀ hpos] at hhigh
    have h : (2 * numerator : ℚ) ≤ (2 * k + 1) * denominator := by linarith
    exact_mod_cast h
  · obtain ⟨hlt, hgt⟩ := htie hodd
    rw [lt_div_iff₀ hpos] at hlt
    rw [div_lt_iff₀ hpos] at hgt
    constructor
    · have h : (2 * k * denominator : ℚ) < 2 * numerator + denominator := by linarith
      exact_mod_cast h
    · have h : (2 * numerator : ℚ) < (2 * k + 1) * denominator := by linarith
      exact_mod_cast h

/-- Rounding moves a quotient by a half at most. -/
theorem roundDiv_bounds (numerator : Nat) {denominator : Nat} (hdenominator : 0 < denominator) :
    (roundDiv numerator denominator : ℚ) - 1 / 2 ≤ numerator / denominator ∧
      (numerator : ℚ) / denominator ≤ roundDiv numerator denominator + 1 / 2 := by
  have hpos : (0 : ℚ) < denominator := by exact_mod_cast hdenominator
  have hdiv : (denominator : ℚ) * (numerator / denominator : Nat) +
      (numerator % denominator : Nat) = numerator := by
    exact_mod_cast Nat.div_add_mod numerator denominator
  have hmod : ((numerator % denominator : Nat) : ℚ) < denominator := by
    exact_mod_cast Nat.mod_lt numerator hdenominator
  rw [le_div_iff₀ hpos, div_le_iff₀ hpos, roundDiv]
  split
  · rename_i h
    have hhalf : 2 * ((numerator % denominator : Nat) : ℚ) ≤ denominator := by
      have : 2 * (numerator % denominator) ≤ denominator := by omega
      exact_mod_cast this
    have hnonneg : (0 : ℚ) ≤ (numerator % denominator : Nat) := by positivity
    constructor <;> nlinarith
  · rename_i h
    have hhalf : (denominator : ℚ) ≤ 2 * (numerator % denominator : Nat) := by
      have : denominator ≤ 2 * (numerator % denominator) := by omega
      exact_mod_cast this
    push_cast
    constructor <;> nlinarith

namespace Binary64

/-! ### The binary exponent of a ratio -/

theorem log2_spec {n : Nat} (hn : 0 < n) :
    (2 : ℚ) ^ (n.log2 : Int) ≤ n ∧ (n : ℚ) < (2 : ℚ) ^ ((n.log2 : Int) + 1) := by
  constructor
  · rw [zpow_natCast]
    exact_mod_cast Nat.log2_self_le (by omega)
  · have hlt : n < 2 ^ (n.log2 + 1) := Nat.lt_log2_self
    exact_mod_cast hlt

/-- The difference of the logarithms is the binary exponent of a ratio, or one more. -/
theorem log2_sub_log2_spec {numerator denominator : Nat} (hnumerator : 0 < numerator)
    (hdenominator : 0 < denominator) :
    (2 : ℚ) ^ ((numerator.log2 : Int) - denominator.log2 - 1) ≤ numerator / denominator ∧
      (numerator : ℚ) / denominator <
        (2 : ℚ) ^ ((numerator.log2 : Int) - denominator.log2 + 1) := by
  have hpos : (0 : ℚ) < denominator := by exact_mod_cast hdenominator
  obtain ⟨hnlow, hnhigh⟩ := log2_spec hnumerator
  obtain ⟨hdlow, hdhigh⟩ := log2_spec hdenominator
  generalize hestimate : (numerator.log2 : Int) - denominator.log2 = estimate
  constructor
  · rw [le_div_iff₀ hpos]
    calc (2 : ℚ) ^ (estimate - 1) * denominator
      _ ≤ (2 : ℚ) ^ (estimate - 1) * (2 : ℚ) ^ ((denominator.log2 : Int) + 1) := by gcongr
      _ = (2 : ℚ) ^ (numerator.log2 : Int) := by
        rw [← zpow_add₀ (by norm_num)]
        congr 1
        omega
      _ ≤ numerator := hnlow
  · rw [div_lt_iff₀ hpos]
    calc (numerator : ℚ)
      _ < (2 : ℚ) ^ ((numerator.log2 : Int) + 1) := hnhigh
      _ = (2 : ℚ) ^ (estimate + 1) * (2 : ℚ) ^ (denominator.log2 : Int) := by
        rw [← zpow_add₀ (by norm_num)]
        congr 1
        omega
      _ ≤ (2 : ℚ) ^ (estimate + 1) * denominator := by gcongr

theorem ratioExponent_spec {numerator denominator : Nat} (hnumerator : 0 < numerator)
    (hdenominator : 0 < denominator) :
    (2 : ℚ) ^ ratioExponent numerator denominator ≤ numerator / denominator ∧
      (numerator : ℚ) / denominator < (2 : ℚ) ^ (ratioExponent numerator denominator + 1) := by
  obtain ⟨hbelow, habove⟩ := log2_sub_log2_spec hnumerator hdenominator
  unfold ratioExponent
  dsimp only
  generalize (numerator.log2 : Int) - denominator.log2 = estimate at hbelow habove ⊢
  have hpos : (0 : ℚ) < denominator := by exact_mod_cast hdenominator
  have hsnd : (0 : ℚ) < (ratioPow 2 estimate).2 := by
    exact_mod_cast ratioPow_snd_pos (by decide) estimate
  have htest : numerator * (ratioPow 2 estimate).2 < denominator * (ratioPow 2 estimate).1 ↔
      (numerator : ℚ) / denominator < (2 : ℚ) ^ estimate := by
    rw [ofNat_zpow, div_lt_div_iff₀ hpos hsnd, mul_comm ((ratioPow 2 estimate).1 : ℚ)]
    exact_mod_cast Iff.rfl
  split
  · rename_i h
    exact ⟨hbelow, by rw [sub_add_cancel]; exact htest.mp h⟩
  · rename_i h
    exact ⟨not_lt.mp (mt htest.mpr h), habove⟩

/-- The binary exponent is the only one whose power and the next one enclose the ratio. -/
theorem ratioExponent_eq {numerator denominator : Nat} (hnumerator : 0 < numerator)
    (hdenominator : 0 < denominator) {exponent : Int}
    (hlow : (2 : ℚ) ^ exponent ≤ numerator / denominator)
    (hhigh : (numerator : ℚ) / denominator < (2 : ℚ) ^ (exponent + 1)) :
    ratioExponent numerator denominator = exponent := by
  obtain ⟨hfirst, hsecond⟩ := ratioExponent_spec hnumerator hdenominator
  have hless := (zpow_lt_zpow_iff_right₀ (by norm_num : (1 : ℚ) < 2)).mp (hfirst.trans_lt hhigh)
  have hmore := (zpow_lt_zpow_iff_right₀ (by norm_num : (1 : ℚ) < 2)).mp (hlow.trans_lt hsecond)
  omega

/-- Below a power of two the binary exponent is smaller. -/
theorem ratioExponent_lt {numerator denominator : Nat} (hnumerator : 0 < numerator)
    (hdenominator : 0 < denominator) {exponent : Int}
    (hhigh : (numerator : ℚ) / denominator < (2 : ℚ) ^ exponent) :
    ratioExponent numerator denominator < exponent :=
  (zpow_lt_zpow_iff_right₀ (by norm_num : (1 : ℚ) < 2)).mp
    ((ratioExponent_spec hnumerator hdenominator).1.trans_lt hhigh)

/-! ### The interval of a number -/

namespace Parts

/-- The parts that a finite number has: only the least exponent goes with a significand that is not
full. -/
structure Regular (parts : Parts) : Prop where
  significand_lt : parts.significand < 2 ^ 53
  least_le : leastExponent ≤ parts.exponent
  full : parts.exponent = leastExponent ∨ 2 ^ 52 ≤ parts.significand

/-- The bits of a number without its sign. -/
def magnitude (parts : Parts) : Nat :=
  parts.significand + (parts.exponent - leastExponent).toNat * 2 ^ 52

/-- Half of the step to the previous number, in steps to the next one. -/
def below (parts : Parts) : ℚ :=
  if parts.significand = 2 ^ 52 ∧ leastExponent < parts.exponent then 1 / 4 else 1 / 2

/-- The rational lies in the interval of the number. -/
structure Covers (parts : Parts) (value : ℚ) : Prop where
  low : parts.significand - parts.below ≤ value / 2 ^ parts.exponent
  high : value / 2 ^ parts.exponent ≤ parts.significand + 1 / 2
  strict : parts.significand % 2 = 1 →
    parts.significand - parts.below < value / 2 ^ parts.exponent ∧
    value / 2 ^ parts.exponent < parts.significand + 1 / 2

variable {parts : Parts} {value : ℚ}

theorem below_le (parts : Parts) : parts.below ≤ 1 / 2 := by
  unfold below
  split <;> norm_num

theorem Covers.pos (h : parts.Covers value) (hpositive : 0 < parts.significand) : 0 < value := by
  have hone : (1 : ℚ) ≤ parts.significand := by exact_mod_cast hpositive
  have hquotient : 0 < value / 2 ^ parts.exponent := by linarith [h.low, parts.below_le]
  exact (div_pos_iff_of_pos_right (by positivity)).mp hquotient

end Parts

/-- The significand of a ratio at its exponent, as a rational. -/
theorem scaled_ratio {numerator denominator : Nat} (exponent : Int) :
    ((numerator * (ratioPow 2 exponent).2 : Nat) : ℚ) /
        (denominator * (ratioPow 2 exponent).1 : Nat) =
      (numerator / denominator : ℚ) / 2 ^ exponent := by
  rw [ofNat_zpow, div_div_div_eq]
  push_cast
  rfl

section

variable {parts : Parts} {numerator denominator : Nat}

/-- At the exponent of a number the ratios in its interval are rounded to its significand. -/
theorem roundDiv_of_covers (hdenominator : 0 < denominator)
    (h : parts.Covers (numerator / denominator)) :
    roundDiv (numerator * (ratioPow 2 parts.exponent).2)
      (denominator * (ratioPow 2 parts.exponent).1) = parts.significand := by
  have hbelow := parts.below_le
  refine roundDiv_eq (Nat.mul_pos hdenominator (ratioPow_fst_pos (by decide) _)) ?_ ?_ ?_
  · rw [scaled_ratio]
    linarith [h.low]
  · rw [scaled_ratio]
    exact h.high
  · intro hodd
    obtain ⟨hleft, hright⟩ := h.strict hodd
    rw [scaled_ratio]
    exact ⟨by linarith, hright⟩

/-- The interval of a number ends below the power of two that follows. -/
theorem Parts.Covers.lt {value : ℚ} (hregular : parts.Regular) (h : parts.Covers value) :
    value < 2 ^ (parts.exponent + 53) := by
  have hless : (parts.significand : ℚ) + 1 ≤ 2 ^ 53 := by
    have : parts.significand + 1 ≤ 2 ^ 53 := hregular.significand_lt
    exact_mod_cast this
  have hpower : (2 : ℚ) ^ (parts.exponent + 53) = 2 ^ 53 * 2 ^ parts.exponent := by
    rw [add_comm, zpow_add₀ (by norm_num)]
    norm_num
  rw [hpower, ← div_lt_iff₀ (by positivity)]
  linarith [h.high]

/-- A ratio in the interval of a number and not below the number's power of two has the exponent of
the number. -/
theorem ratioExponent_of_binade (hregular : parts.Regular) (hnumerator : 0 < numerator)
    (hdenominator : 0 < denominator) (h : parts.Covers (numerator / denominator))
    (hbinade : (2 : ℚ) ^ (parts.exponent + 52) ≤ numerator / denominator ∨
      parts.exponent = leastExponent) :
    max (ratioExponent numerator denominator - 52) leastExponent = parts.exponent := by
  have hleast := hregular.least_le
  rcases hbinade with hbinade | hexponent
  · have hfound := ratioExponent_eq hnumerator hdenominator hbinade (by
      rw [add_assoc]
      exact h.lt hregular)
    omega
  · have hfound := ratioExponent_lt hnumerator hdenominator (h.lt hregular)
    omega

/-- A ratio in the interval of a number and below the number's power of two: the number is that
power, and the ratio lies in the upper quarter of a step below it. -/
theorem Parts.Covers.of_lt {value : ℚ} (hregular : parts.Regular) (h : parts.Covers value)
    (hexponent : parts.exponent ≠ leastExponent) (hbelow : value < 2 ^ (parts.exponent + 52)) :
    parts.significand = 2 ^ 52 ∧ (2 : ℚ) ^ 52 - 1 / 4 ≤ value / 2 ^ parts.exponent ∧
      value / 2 ^ parts.exponent < 2 ^ 52 := by
  have hquotient : value / 2 ^ parts.exponent < 2 ^ 52 := by
    have hpower : (2 : ℚ) ^ (parts.exponent + 52) = 2 ^ 52 * 2 ^ parts.exponent := by
      rw [add_comm, zpow_add₀ (by norm_num)]
      norm_num
    rwa [hpower, ← div_lt_iff₀ (by positivity)] at hbelow
  have hsignificand : parts.significand = 2 ^ 52 := by
    have hfull := hregular.full.resolve_left hexponent
    by_contra hne
    have hmore : (2 : ℚ) ^ 52 + 1 ≤ parts.significand := by
      have : 2 ^ 52 + 1 ≤ parts.significand := by omega
      exact_mod_cast this
    linarith [h.low, parts.below_le]
  have hquarter : parts.below = 1 / 4 :=
    if_pos ⟨hsignificand, lt_of_le_of_ne hregular.least_le (Ne.symm hexponent)⟩
  have hlow := h.low
  rw [hquarter, hsignificand] at hlow
  push_cast at hlow
  exact ⟨hsignificand, hlow, hquotient⟩

/-- Below a power of two the steps are half as long, and what is in the interval of the power is
rounded up to it. -/
theorem roundDiv_below (hnumerator : 0 < numerator) (hdenominator : 0 < denominator)
    {exponent : Int} (hlow : (2 : ℚ) ^ 52 - 1 / 4 ≤ (numerator / denominator : ℚ) / 2 ^ exponent)
    (hhigh : (numerator / denominator : ℚ) / 2 ^ exponent < 2 ^ 52) :
    ratioExponent numerator denominator = exponent + 51 ∧
      roundDiv (numerator * (ratioPow 2 (exponent - 1)).2)
        (denominator * (ratioPow 2 (exponent - 1)).1) = 2 ^ 53 := by
  have hpower : (0 : ℚ) < 2 ^ exponent := by positivity
  have hhalved : (numerator / denominator : ℚ) / 2 ^ (exponent - 1) =
      2 * ((numerator / denominator : ℚ) / 2 ^ exponent) := by
    rw [zpow_sub_one₀ (by norm_num)]
    field_simp
  constructor
  · refine ratioExponent_eq hnumerator hdenominator ?_ ?_
    · rw [add_comm, zpow_add₀ (by norm_num), ← le_div_iff₀ hpower]
      norm_num at hlow ⊢
      linarith
    · rw [add_assoc, add_comm, zpow_add₀ (by norm_num), ← div_lt_iff₀ hpower]
      norm_num at hhigh ⊢
      linarith
  · refine roundDiv_eq (Nat.mul_pos hdenominator (ratioPow_fst_pos (by decide) _)) ?_ ?_ ?_
    · rw [scaled_ratio, hhalved]
      push_cast
      linarith
    · rw [scaled_ratio, hhalved]
      push_cast
      linarith
    · intro hodd
      exact absurd hodd (by decide)

/-- Every ratio in the interval of a number is rounded to it. -/
theorem ofRatio_eq (hregular : parts.Regular) (hpositive : 0 < parts.significand)
    (hfinite : parts.magnitude < 0x7FF * 2 ^ 52) (hdenominator : 0 < denominator)
    (h : parts.Covers (numerator / denominator)) (negative : Bool) :
    ofRatio negative numerator denominator = ofMagnitude negative parts.magnitude := by
  have hnumerator : 0 < numerator := by
    by_contra hzero
    obtain rfl : numerator = 0 := by omega
    simpa using h.pos hpositive
  unfold ofRatio
  by_cases hbinade : (2 : ℚ) ^ (parts.exponent + 52) ≤ numerator / denominator ∨
      parts.exponent = leastExponent
  · rw [ratioExponent_of_binade hregular hnumerator hdenominator h hbinade]
    dsimp only
    rw [roundDiv_of_covers hdenominator h]
    exact if_pos hfinite
  · -- the number is a power of two, and the ratio lies below it
    obtain ⟨hbelow, hexponent⟩ := not_or.mp hbinade
    have hleast := hregular.least_le
    obtain ⟨hsignificand, hlow, hhigh⟩ := h.of_lt hregular hexponent (not_le.mp hbelow)
    obtain ⟨hfound, hrounded⟩ := roundDiv_below hnumerator hdenominator hlow hhigh
    have hmax : max (ratioExponent numerator denominator - 52) leastExponent =
        parts.exponent - 1 := by
      omega
    have hsame : 2 ^ 53 + (parts.exponent - 1 - leastExponent).toNat * 2 ^ 52 =
        parts.magnitude := by
      have : (parts.exponent - leastExponent).toNat =
          (parts.exponent - 1 - leastExponent).toNat + 1 := by
        omega
      rw [Parts.magnitude, this, hsignificand]
      ring
    rw [hmax]
    dsimp only
    rw [hrounded, Nat.pow_eq, hsame]
    exact if_pos hfinite

end

end Binary64

end CommandLine.Decimal
