import CommandLine.Proofs.Windows.Reading

/-!
The C runtime on a line as it stands and on what the command processor leaves of it. The command
processor takes away circumflexes, and a circumflex keeps what stands in front of it from what
stands behind it: backslashes from the quote that they escape, and a quote that closes a quotation
from the quote that doubles it. Where no circumflex does, the C runtime ends up inside a quotation
on the one exactly if it does on the other.
-/

set_option autoImplicit false

namespace CommandLine.Windows

open Transducer (advance exists_of_advance_cons)

/-- The characters that count for each other where they stand next to each other. -/
def isMark (c : Char) : Bool := c == '\\' || c == '"'

/-- A circumflex with a mark behind it. -/
def partsMark : List Char → Bool
  | '^' :: c :: _ => isMark c
  | _ => false

/-- Somewhere in a text a circumflex that the command processor takes away stands directly between
two marks. -/
def partsMarks (mode : ShellMode) : List Char → Bool
  | [] => false
  | c :: rest =>
    match mode.step c with
    | .ok (_, next) => next == .plain && isMark c && partsMark rest || partsMarks next rest
    | .error _ => false

/-- Where the C runtime is behind a character that is neither a separator nor a mark. -/
def Runtime.unmarked (runtime : Runtime) : Runtime := ⟨runtime.quoting.afterCharacter, 0⟩

theorem Runtime.step_of_not_isMark (runtime : Runtime) {c : Char} (hc : isMark c = false) :
    (runtime.step c).2 = runtime.unmarked := by
  simp only [isMark, Bool.or_eq_false_iff, beq_eq_false_iff_ne] at hc
  rw [step_character _ hc.1 hc.2]
  rfl

@[simp] theorem Runtime.unmarked_unmarked (runtime : Runtime) :
    runtime.unmarked.unmarked = runtime.unmarked := by
  simp [unmarked]

theorem Runtime.quoting_unmarked_eq_inside {runtime : Runtime} :
    runtime.unmarked.quoting = .inside ↔ runtime.quoting = .inside := by
  obtain ⟨quoting, slashes⟩ := runtime
  cases quoting <;> simp [unmarked, Quoting.afterCharacter]

theorem ShellMode.after_ne_escaped (mode : ShellMode) (c : Char) : mode.after c ≠ .escaped := by
  cases mode <;> simp only [after]
  · split <;> simp
  · simp
  · split <;> simp

/-- Where the C runtime is in the line as it stands, if it is here in what is left of it: a
circumflex that is taken away stands there as a character of its own. -/
def Runtime.raw (runtime : Runtime) (mode : ShellMode) : Runtime :=
  if mode = .escaped then runtime.unmarked else runtime

/-- A character that is passed on leads to the same place in both lines, unless it is a mark that a
circumflex parts from another. -/
theorem Runtime.step_raw {runtime : Runtime} {mode : ShellMode} {c : Char}
    (h : mode = .escaped → isMark c = true → runtime = runtime.unmarked) :
    ((runtime.raw mode).step c).2 = (runtime.step c).2 := by
  by_cases hescaped : mode = .escaped
  · rw [raw, if_pos hescaped]
    by_cases hmark : isMark c = true
    · rw [← h hescaped hmark]
    · rw [Bool.not_eq_true] at hmark
      rw [step_of_not_isMark _ hmark, step_of_not_isMark _ hmark, unmarked_unmarked]
  · rw [raw, if_neg hescaped]

/-- The C runtime ends up inside a quotation on the line as it stands exactly if it does on what is
left of it. The place behind a mark matters until a further mark can no longer follow. -/
theorem quoting_advance_raw {mode last : ShellMode} {runtime : Runtime} {text passed : List Char}
    (hparts : partsMarks mode text = false)
    (hplain : mode = .plain → partsMark text = true → runtime = runtime.unmarked)
    (hescaped : mode = .escaped → text.head?.any isMark = true → runtime = runtime.unmarked)
    (h : advance ShellMode.step mode text = .ok (passed, last)) :
    ((runtime.raw mode).advance text).2.quoting = .inside ↔
      (runtime.advance passed).2.quoting = .inside := by
  induction text generalizing mode runtime passed with
  | nil =>
    cases h
    by_cases hmode : last = .escaped
    · rw [Runtime.raw, if_pos hmode]
      exact Runtime.quoting_unmarked_eq_inside
    · rw [Runtime.raw, if_neg hmode]
  | cons c rest ih =>
    obtain ⟨here, next, more, hstep, hmore, rfl⟩ := exists_of_advance_cons h
    simp only [partsMarks, hstep, Bool.or_eq_false_iff] at hparts
    rcases ShellMode.step_cases hstep with ⟨⟨rfl, rfl⟩, rfl, rfl⟩ | ⟨hcircumflex, -, rfl, rfl⟩
    · refine ih hparts.2 (fun hmode ↦ by cases hmode) (fun _ hmark ↦ hplain rfl ?_) hmore
      cases rest with
      | nil => cases hmark
      | cons d tail => simpa [partsMark] using hmark
    · have hnext : (mode.after c = .plain → partsMark rest = true →
          (runtime.step c).2 = (runtime.step c).2.unmarked) := by
        intro hmode hrest
        have hmark : isMark c = false := by simpa [hmode, hrest] using hparts.1
        rw [Runtime.step_of_not_isMark _ hmark, Runtime.unmarked_unmarked]
      have hsame := ih hparts.2 hnext (fun hmode ↦ absurd hmode (mode.after_ne_escaped c)) hmore
      rw [Runtime.raw, if_neg (mode.after_ne_escaped c)] at hsame
      rw [Runtime.advance_cons, Runtime.step_raw (fun hmode hmark ↦ hescaped hmode hmark)]
      exact hsame

/-- Nothing but an open quotation makes the C runtime refuse a line. -/
theorem arguments_eq_badQuoting_iff (line : List Char) :
    arguments line = .error .badQuoting ↔ (Runtime.start.advance line).2.quoting = .inside := by
  rw [arguments_eq, Runtime.pieces, Runtime.finish]
  split <;> simp_all [Except.map]

/-- An at sign at the beginning of a line is the same to the C runtime as no character at all. -/
theorem quoting_advance_dropEcho (line : List Char) :
    (Runtime.start.advance (dropEcho line)).2 = (Runtime.start.advance line).2 := by
  unfold dropEcho
  split <;> rfl

theorem partsMarks_dropEcho {line : List Char} (h : partsMarks .plain line = false) :
    partsMarks .plain (dropEcho line) = false := by
  unfold dropEcho
  split
  · exact h
  · exact h

/-- The quoting of a line is bad to the C runtime as it stands exactly if it is in what the program
receives, unless a circumflex parts two marks. -/
theorem arguments_received_eq_badQuoting_iff {line passed : List Char}
    (hparts : partsMarks .plain line = false) (h : received line = .ok passed) :
    arguments passed = .error .badQuoting ↔ arguments line = .error .badQuoting := by
  rw [received, ShellMode.receivedFrom_eq] at h
  obtain ⟨⟨found, last⟩, hadvance, rfl⟩ := Transducer.exists_of_map_eq_ok h
  have hstart : Runtime.start = Runtime.start.unmarked := rfl
  have hsame : (Runtime.start.advance (dropEcho line)).2.quoting = .inside ↔
      (Runtime.start.advance found).2.quoting = .inside :=
    quoting_advance_raw (partsMarks_dropEcho hparts) (fun _ _ ↦ hstart) (fun _ _ ↦ hstart) hadvance
  rw [arguments_eq_badQuoting_iff, arguments_eq_badQuoting_iff, ← quoting_advance_dropEcho line,
    hsame]

end CommandLine.Windows
