/-!
The weight of a scan that keeps places and may go back to them. What is left of the text, and what
was left of it at each place, is weighed exponentially, so that the characters that lead to a place
pay for scanning what follows it again.
-/

set_option autoImplicit false

namespace CommandLine.Rescan

/-- The weight of so many characters that are left, and of those that were left at the places that
are kept. -/
def weight (left : Nat) (saves : List Nat) : Nat :=
  Nat.pow 2 left + (saves.map (Nat.pow 2)).foldr (· + ·) 0

variable {left next save : Nat} {saves : List Nat}

theorem pow_lt (h : next < left) : Nat.pow 2 next < Nat.pow 2 left :=
  Nat.pow_lt_pow_right (by decide) h

theorem weight_pos (left : Nat) (saves : List Nat) : 0 < weight left saves :=
  Nat.lt_of_lt_of_le (Nat.two_pow_pos left) (Nat.le_add_right ..)

/-- Reading on makes a scan lighter. -/
theorem weight_lt (h : next < left) : weight next saves < weight left saves :=
  Nat.add_lt_add_right (pow_lt h) _

/-- So does reading on over two characters and keeping the place. -/
theorem weight_lt_of_keep (h : next + 1 < left) :
    weight next (next :: saves) < weight left saves := by
  have hdouble : Nat.pow 2 (next + 1) = Nat.pow 2 next * 2 := rfl
  have := pow_lt h
  simp only [weight, List.map_cons, List.foldr_cons]
  omega

/-- So does giving up a place. -/
theorem weight_lt_of_drop (h : next < left) : weight next saves < weight left (save :: saves) := by
  have := pow_lt h
  simp only [weight, List.map_cons, List.foldr_cons]
  omega

/-- So does going back to the last place. -/
theorem weight_lt_of_back : weight save saves < weight left (save :: saves) := by
  have hpos : 0 < Nat.pow 2 left := Nat.two_pow_pos left
  simp only [weight, List.map_cons, List.foldr_cons]
  omega

end CommandLine.Rescan
