import CommandLine.Macro.Unix
import CommandLine.Macro.Windows
import CommandLine.Notice

/-!
Putting macros into a line of either dialect. The values become literal parts of words; where that
cannot be ensured the line is left as it was and must not be run.
-/

set_option autoImplicit false

namespace CommandLine.Macro

/-- A line with its macros put in, or the unchanged line and why that failed. -/
structure Expansion where
  text : List Char
  failure : Option Failure
  /-- The contexts that are open at the end of a line with macros. -/
  openContexts : Nat
  deriving DecidableEq, Repr

namespace Expansion

def ok (expansion : Expansion) : Bool := expansion.failure.isNone

/-- The reason for a failure, empty if there is none. -/
def reason (expansion : Expansion) : String := (expansion.failure.map Failure.message).getD ""

/-- What there is to report. -/
def notices (expansion : Expansion) : List Notice :=
  match expansion.failure with
  | some failure => [.expansionFailed failure expansion.text]
  | none => if expansion.openContexts = 0 then [] else [.openContexts expansion.openContexts]

end Expansion

/-- Puts the macros that are found into a line. -/
def expand (dialect : Dialect) (find : Finder) (line : List Char) : Expansion :=
  let expanded :=
    match dialect with
    | .unix => Unix.expand find line
    | .windows => (Windows.expand find line).map (·, 0)
  match expanded with
  | .ok (text, openContexts) => ⟨text, none, openContexts⟩
  | .error failure => ⟨line, some failure, 0⟩

theorem expand_of_failure (dialect : Dialect) (find : Finder) (line : List Char)
    (h : (expand dialect find line).ok = false) : (expand dialect find line).text = line := by
  revert h
  unfold expand
  dsimp only
  split <;> simp [Expansion.ok]

end CommandLine.Macro
