import CommandLine.Cursor.Found
import CommandLine.Text.Alphanumeric
import CommandLine.Windows.Arguments
import CommandLine.Windows.Command

/-!
The next argument of a line for Windows. Both readers of the line are followed in one pass. An
argument with a name between percent signs is not simple; characters that the command processor
interprets end the arguments.
-/

set_option autoImplicit false

namespace CommandLine.Cursor.Windows

open CommandLine.Windows (ShellMode isSeparator backslashes)

/-- Where the C runtime is in the line. -/
inductive WordState
  | between
  | inWord
  /-- Behind a quote that closed a quotation. -/
  | closed
  | quoted
  deriving DecidableEq, Repr

/-- How much of a reference to a variable has been seen: nothing, the opening percent sign, or some
of the name. -/
inductive Reference
  | none
  | opened
  | named
  deriving DecidableEq, Repr

structure Scan where
  shell : ShellMode
  word : WordState
  reference : Reference
  slashes : Nat
  /-- The value so far, in reverse order. -/
  value : List Char
  simple : Bool

namespace Scan

def start : Scan := ⟨.plain, .between, .none, 0, [], true⟩

/-- What one character in a reference does to it: the reference behind it, and whether it closes. -/
def reference? (reference : Reference) (c : Char) : Reference × Bool :=
  if c = '%' then if reference = .named then (.none, true) else (.opened, false)
  else if reference = .none then (.none, false)
  else if Text.isNameChar c || c == '-' || c == '.' then (.named, false)
  else (.none, false)

/-- The state of a word behind a character that neither opens nor closes a quotation. -/
def inside (word : WordState) : WordState := if word = .quoted then .quoted else .inWord

/-- Takes a character into the value, behind the backslashes that are pending. -/
def take (scan : Scan) (c : Char) : Scan :=
  { scan with value := c :: backslashes scan.slashes ++ scan.value, slashes := 0 }

/-- Reads a double quote. The second of two quotes inside a quotation is literal, and the quotation
stays closed. -/
def readQuote (scan : Scan) : Scan :=
  let halved := { scan with slashes := scan.slashes / 2, reference := .none }
  if scan.slashes % 2 = 1 then { halved with word := inside scan.word }.take '"'
  else
    match scan.word with
    | .quoted => { halved with word := .closed }
    | .closed => { halved with word := .inWord }.take '"'
    | .between | .inWord => { halved with word := .quoted }

/-- Reads a character of a word. -/
def readWord (scan : Scan) (c : Char) : Scan :=
  let after := { scan with shell := scan.shell.after c }
  if c = '\\' then
    { after with slashes := scan.slashes + 1, word := inside scan.word, reference := .none }
  else if c = '"' then after.readQuote
  else
    let (reference, closes) := reference? scan.reference c
    { after with reference, word := inside scan.word, simple := scan.simple && !closes }.take c

/-- What is found where the scan stops. -/
def finish (scan : Scan) (rest : List Char) : Found :=
  if scan.word = .quoted ∧ rest.isEmpty then ⟨false, rest, [], scan.simple⟩
  else
    ⟨scan.word != .between, rest,
      if scan.simple then (backslashes scan.slashes ++ scan.value).reverse else [], scan.simple⟩

/-- Scans a text. -/
def run (scan : Scan) : List Char → Found
  | [] => scan.finish []
  | c :: rest =>
    if scan.shell = .plain ∧ c = '^' then
      run { scan with shell := .escaped, reference := .none } rest
    else if scan.shell = .plain ∧ Dialect.windows.isMeta c then scan.finish (c :: rest)
    else if scan.word ≠ .quoted ∧ isSeparator c then
      if scan.word = .between then run { scan with shell := scan.shell.after c } rest
      else scan.finish (c :: rest)
    else run (scan.readWord c) rest

theorem rest_finish (scan : Scan) (rest : List Char) : (scan.finish rest).rest = rest := by
  unfold finish
  split <;> rfl

theorem length_run (scan : Scan) (text : List Char) :
    (scan.run text).rest.length ≤ text.length ∧
      (scan.word = .between → (scan.run text).success = true →
        (scan.run text).rest.length < text.length) := by
  induction text generalizing scan with
  | nil =>
    refine ⟨by simp [run, rest_finish], fun hword hsuccess ↦ ?_⟩
    simp [run, finish, hword] at hsuccess
  | cons c rest ih =>
    unfold run
    have hfinish : scan.word = .between → (scan.finish (c :: rest)).success = true →
        (scan.finish (c :: rest)).rest.length < (c :: rest).length := by
      intro hword hsuccess
      simp [finish, hword] at hsuccess
    repeat' split
    · exact ⟨Nat.le_succ_of_le (ih _).1, fun _ _ ↦ Nat.lt_succ_of_le (ih _).1⟩
    · exact ⟨Nat.le_of_eq (by rw [rest_finish]), hfinish⟩
    · exact ⟨Nat.le_succ_of_le (ih _).1, fun _ _ ↦ Nat.lt_succ_of_le (ih _).1⟩
    · exact ⟨Nat.le_of_eq (by rw [rest_finish]), hfinish⟩
    · exact ⟨Nat.le_succ_of_le (ih _).1, fun _ _ ↦ Nat.lt_succ_of_le (ih _).1⟩

end Scan

/-- Finds the next argument of a text. -/
def next (text : List Char) : Found := Scan.start.run text

/-- An argument takes up characters of the text. -/
theorem length_next {text : List Char} (h : (next text).success = true) :
    (next text).rest.length < text.length :=
  (Scan.length_run Scan.start text).2 rfl h

end CommandLine.Cursor.Windows
