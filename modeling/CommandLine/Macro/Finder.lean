import CommandLine.Macro.Pattern
import CommandLine.Table

/-!
Finding macros in a line. A macro is a match of the pattern whose name has a value; the first one
from the left is found, and matches without a value or without a character are passed over.
-/

set_option autoImplicit false

namespace CommandLine.Macro

/-- A macro that lies `gap` characters ahead. -/
structure Occurrence where
  gap : Int
  length : Nat
  value : List Char
  length_pos : 0 < length
  deriving DecidableEq, Repr

namespace Occurrence

/-- The macro as seen from `count` characters further on. -/
def nearer (macroAhead : Occurrence) (count : Nat) : Occurrence :=
  { macroAhead with gap := macroAhead.gap - count }

@[simp] theorem nearer_length (macroAhead : Occurrence) (count : Nat) :
    (macroAhead.nearer count).length = macroAhead.length := rfl

@[simp] theorem nearer_gap (macroAhead : Occurrence) (count : Nat) :
    (macroAhead.nearer count).gap = macroAhead.gap - count := rfl

end Occurrence

/-- Finds the next macro at or behind a place in a text, given by what is in front of the place and
what follows it. -/
abbrev Finder := (front rest : List Char) → Option Occurrence

/-- The macros of a pattern and their values. -/
structure Macros where
  values : Table (List Char) (List Char)
  pattern : Pattern

namespace Macros

/-- The first macro of a text. The first `skip` characters belong to a match that was passed over;
`gap` characters lie in front. -/
def findFrom (macros : Macros) (skip gap : Nat) : List Char → Option Occurrence
  | [] => none
  | c :: rest =>
    match skip with
    | skip + 1 => findFrom macros skip (gap + 1) rest
    | 0 =>
      match macros.pattern.match? (c :: rest) with
      | some (name, length + 1) =>
        match macros.values.get? name with
        | some value => some ⟨gap, length + 1, value, Nat.succ_pos length⟩
        | none => findFrom macros length (gap + 1) rest
      | _ => findFrom macros 0 (gap + 1) rest

/-- The first macro of a text. -/
def find (macros : Macros) (text : List Char) : Option Occurrence := macros.findFrom 0 0 text

/-- The finder of these macros, to which the text in front does not matter. -/
def finder (macros : Macros) : Finder := fun _ rest ↦ macros.find rest

theorem gap_le_of_findFrom {macros : Macros} {skip gap : Nat} {text : List Char}
    {found : Occurrence} (h : macros.findFrom skip gap text = some found) :
    (gap : Int) ≤ found.gap := by
  induction text generalizing skip gap with
  | nil => simp [findFrom] at h
  | cons c rest ih =>
    unfold findFrom at h
    split at h
    · have := ih h
      omega
    · split at h
      · split at h
        · cases h
          exact Int.le_refl _
        · have := ih h
          omega
      · have := ih h
        omega

end Macros

end CommandLine.Macro
