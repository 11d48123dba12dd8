import CommandLine.Text.Ranges

/-!
Blank characters: the separators of the Unicode standard together with the control characters that
end lines, paragraphs and records. Word boundaries of a command line are drawn at these.
-/

set_option autoImplicit false

namespace CommandLine.Text

/-- The code points of blank characters. -/
def blankRanges : List (Nat × Nat) :=
  [(0x9, 0xD), (0x1C, 0x20), (0x85, 0x85), (0xA0, 0xA0), (0x1680, 0x1680), (0x2000, 0x200A),
    (0x2028, 0x2029), (0x202F, 0x202F), (0x205F, 0x205F), (0x3000, 0x3000)]

/-- A character that separates words. -/
def isBlank (c : Char) : Bool := inRanges blankRanges c

theorem isBlank_of_isWhitespace (c : Char) (h : c.isWhitespace = true) : isBlank c = true := by
  simp only [Char.isWhitespace, Bool.or_eq_true, decide_eq_true_eq] at h
  rcases h with ((rfl | rfl) | rfl) | rfl <;> decide

end CommandLine.Text
