import CommandLine.Macro.Failure
import CommandLine.Macro.Finder
import CommandLine.Windows.Command
import CommandLine.Windows.Quote

/-!
Putting macros into a line for Windows. A scan follows both readers of the line at once, the command
processor and the C runtime, and writes each value so that both pass it on as it is. Some things are
owed until what follows is known: the closing quote of a value that was quoted, the doubling of
backslashes that a quote may follow, and the quotes of an empty word.
-/

set_option autoImplicit false

namespace CommandLine.Macro.Windows

open CommandLine.Windows (ShellMode isSeparator backslashes quoteInside)

/-- Where the C runtime is in the line, judged from what it has read. -/
inductive ArgvState
  | between
  /-- Behind an empty value between words: an empty word, if the word ends here. -/
  | needsWord
  | inWord
  /-- Behind a quote that closed a quotation. -/
  | closed
  /-- Behind the quote that closed a value's quotation. -/
  | hadQuote
  | quoted
  /-- In a value's quotation, which closes here unless another value follows. -/
  | needsQuote
  deriving DecidableEq, Repr

namespace ArgvState

def isQuoted : ArgvState → Bool
  | quoted | needsQuote => true
  | _ => false

def afterSeparator (state : ArgvState) : ArgvState := if state.isQuoted then state else between

def afterCharacter (state : ArgvState) : ArgvState := if state.isQuoted then state else inWord

/-- The state behind a double quote that opens or closes. The second of two quotes inside a
quotation is literal, and the quotation stays closed. -/
def afterQuote : ArgvState → Except Failure ArgvState
  | quoted => .ok closed
  | closed => .ok inWord
  | hadQuote => .error .openingAfterQuoted
  | _ => .ok quoted

/-- The state behind a character that follows a run of backslashes, and the run behind it. -/
def read (state : ArgvState) (slashes : Nat) (c : Char) : Except Failure (ArgvState × Nat) :=
  if isSeparator c then .ok (state.afterSeparator, 0)
  else if c = '\\' then .ok (state.afterCharacter, slashes + 1)
  else if c = '"' ∧ slashes % 2 = 0 then state.afterQuote.map (·, 0)
  else .ok (state.afterCharacter, 0)

end ArgvState

/-- A scan: what is finished, in reverse order, what is left, the macro ahead, the states of the two
readers, the backslashes just read, and those of a value that have to be doubled before a quote. -/
structure Scan where
  finished : List Char
  rest : List Char
  next : Option Occurrence
  shell : ShellMode
  argv : ArgvState
  slashes : Nat
  owed : Nat

/-- What one step of a scan leads to. -/
inductive Progress
  | more (scan : Scan)
  | done (text : List Char)
  | failed (failure : Failure)

namespace Scan

/-- A value as it is written at the scan's place, the state behind it, and the backslashes at its
end that have to be doubled before a quote. -/
def written (scan : Scan) (value : List Char) :
    Except Failure (List Char × ArgvState × Nat) :=
  let owed := scan.owed + scan.slashes
  if scan.argv.isQuoted then
    let inside := quoteInside owed value
    .ok (inside.1, scan.argv, inside.2)
  else if value.isEmpty then
    .ok ([], if scan.argv = .between then .needsWord else scan.argv, owed)
  else if Dialect.windows.needsQuotes value then
    if scan.argv = .closed then .error .quotedAfterClosing
    else
      let inside := quoteInside 0 value
      .ok (backslashes owed ++ '"' :: inside.1, .needsQuote, inside.2)
  else
    let inside := quoteInside owed value
    .ok (inside.1, .inWord, inside.2)

/-- Writes the value of the macro that starts here, and looks for the next one. -/
def substitute (find : Finder) (scan : Scan) (found : Occurrence) : Progress :=
  if scan.shell = .escaped then .failed .afterCircumflex
  else if (scan.shell = .quoted) ≠ (scan.argv = .quoted) then .failed .outOfStep
  else if scan.argv = .needsQuote ∧ Dialect.windows.needsQuotes found.value then
    .failed .quotedAfterQuoted
  else
    match scan.written found.value with
    | .error failure => .failed failure
    | .ok (text, argv, owed) =>
      let finished := text.reverse ++ scan.finished
      let rest := scan.rest.drop found.length
      .more { scan with finished, rest, next := find finished.reverse rest, argv, slashes := 0, owed }

/-- Closes the quotation of a value behind which none follows. -/
def settle (scan : Scan) : Scan :=
  if scan.argv = .needsQuote then
    { scan with
      finished := '"' :: backslashes scan.owed ++ scan.finished
      argv := .hadQuote
      owed := 0 }
  else scan

/-- Puts characters in front of the last one. -/
def insertBeforeLast (extra : List Char) : List Char → List Char
  | [] => extra.reverse
  | last :: reversed => last :: extra.reverse ++ reversed

/-- What is finished once it is known which character follows. -/
def amended (scan : Scan) (c : Char) : List Char :=
  if isSeparator c ∧ scan.argv = .needsWord then '"' :: '"' :: scan.finished
  else if c = '"' then insertBeforeLast (backslashes scan.owed) scan.finished
  else scan.finished

/-- Reads the character at the scan's place. When no macro is ahead and nothing is owed, the rest of
the line stays as it is. -/
def read (scan : Scan) (c : Char) (rest : List Char) : Progress :=
  let next := scan.next.map (·.nearer 1)
  if scan.shell = .plain ∧ c = '^' then
    .more { scan with finished := c :: scan.finished, rest, next, shell := .escaped }
  else
    match scan.argv.read scan.slashes c with
    | .error failure => .failed failure
    | .ok (argv, slashes) =>
      let finished := scan.amended c
      let owed := if c = '\\' then scan.owed else 0
      if scan.next.isNone ∧ owed = 0 then .done (finished.reverse ++ c :: rest)
      else
        .more
          { finished := c :: finished, rest, next
            shell := scan.shell.after c, argv, slashes, owed }

/-- The text at the end of the line. -/
def ending (scan : Scan) : List Char :=
  (if scan.argv = .needsWord then '"' :: '"' :: scan.finished else scan.finished).reverse

/-- One step of a scan. -/
def step (find : Finder) (scan : Scan) : Progress :=
  match scan.rest with
  | [] => .done scan.settle.ending
  | c :: rest =>
    match scan.next with
    | some found =>
      if found.gap = 0 then scan.substitute find found else scan.settle.read c rest
    | none => scan.settle.read c rest

theorem length_substitute {find : Finder} {scan next : Scan} {found : Occurrence}
    (hrest : scan.rest ≠ []) (h : scan.substitute find found = .more next) :
    next.rest.length < scan.rest.length := by
  have := List.length_pos_iff.mpr hrest
  have := found.length_pos
  unfold substitute at h
  repeat' split at h
  all_goals cases h
  simp only [List.length_drop]
  omega

theorem length_read {scan next : Scan} {c : Char} {rest : List Char}
    (h : scan.read c rest = .more next) : next.rest = rest := by
  unfold read at h
  dsimp only at h
  repeat' split at h
  all_goals cases h
  all_goals rfl

/-- Every step leaves less of the line. -/
theorem length_step {find : Finder} {scan next : Scan} (h : scan.step find = .more next) :
    next.rest.length < scan.rest.length := by
  unfold step at h
  split at h
  · cases h
  · rename_i c rest hscan
    repeat' split at h
    · exact length_substitute (by simp [hscan]) h
    · simp [length_read h, hscan]
    · simp [length_read h, hscan]

/-- Scans to the end. -/
def run (find : Finder) (scan : Scan) : Except Failure (List Char) :=
  match _h : scan.step find with
  | .more next => run find next
  | .done text => .ok text
  | .failed failure => .error failure
termination_by scan.rest.length
decreasing_by exact length_step _h

/-- The scan of a whole text with a macro ahead. -/
def start (text : List Char) (found : Occurrence) : Scan :=
  ⟨[], text, some found, .plain, .between, 0, 0⟩

end Scan

/-- The text with its macros put in. A text without a macro stays as it is. -/
def expand (find : Finder) (text : List Char) : Except Failure (List Char) :=
  match find [] text with
  | none => .ok text
  | some found => (Scan.start text found).run find

end CommandLine.Macro.Windows
