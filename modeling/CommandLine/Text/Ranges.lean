/-!
Sets of characters given by inclusive ranges of code points, the form in which the character
properties of the neighbouring modules are tabulated.
-/

set_option autoImplicit false

namespace CommandLine.Text

/-- Membership of a character in a set of inclusive code point ranges. -/
def inRanges (ranges : List (Nat × Nat)) (c : Char) : Bool :=
  ranges.any fun range ↦ range.1 ≤ c.toNat && c.toNat ≤ range.2

theorem inRanges_iff (ranges : List (Nat × Nat)) (c : Char) :
    inRanges ranges c = true ↔ ∃ range ∈ ranges, range.1 ≤ c.toNat ∧ c.toNat ≤ range.2 := by
  simp [inRanges]

end CommandLine.Text
