import CommandLine.Proofs.Cursor.Stopping
import CommandLine.Proofs.Loop
import Mathlib.Logic.Function.Iterate

/-!
How a cursor gets on in a line that is not edited. Each search comes to an end, also where a scan
for a POSIX shell goes back to where it guessed wrong. A search that finds an argument leaves the
cursor further on in the line, so that there are no more of them than characters. One that finds
none leaves the cursor where every later search finds none either.
-/

set_option autoImplicit false

namespace CommandLine.Cursor

open CommandLine.Windows (isSeparator)

/-! ### The loops of a search -/

namespace Unix

/-- A turn of the loop that looks for the end of a backquoted command. -/
def backquoteTurn : List Char → List Char ⊕ Option (List Char)
  | [] => .inr none
  | '`' :: rest => .inr (some rest)
  | '\\' :: _ :: rest => .inl rest
  | _ :: rest => .inl rest

theorem ends_backquoteTurn (command : List Char) : ∃ count ≤ command.length,
    Loop.Ends backquoteTurn count command (afterBackquote command) := by
  refine Loop.exists_ends List.length afterBackquote (fun text next hturn ↦ ?_) (fun text ↦ ?_) _
  · unfold backquoteTurn at hturn
    split at hturn <;> cases hturn <;> simp only [List.length_cons] <;> omega
  · unfold backquoteTurn
    split <;> simp [afterBackquote]

namespace Scan

/-- A turn of the loop of a search. There is no result if something is taken from an empty stack. -/
def turn (scan : Scan) : Scan ⊕ Option Found :=
  match scan.step with
  | .more next => .inl next
  | .ended final complete => .inr (some (final.found complete))
  | .underflow => .inr none

/-- What is found in the end, if nothing is taken from an empty stack. -/
def outcome (scan : Scan) : Option Found := scan.run.map fun final ↦ final.1.found final.2

theorem outcome_eq (scan : Scan) : scan.outcome = scan.turn.elim outcome id := by
  unfold outcome turn
  rw [run_eq]
  cases scan.step <;> rfl

theorem ends_turn (text : List Char) : ∃ count ≤ Nat.pow 2 text.length,
    Loop.Ends turn count (start text) (some (next text)) := by
  have hless (scan next : Scan) (hturn : scan.turn = .inl next) : next.weight < scan.weight := by
    unfold turn at hturn
    split at hturn <;> cases hturn
    rename_i hstep
    exact (follows_step hstep).weight
  obtain ⟨count, hcount, hends⟩ := Loop.exists_ends weight outcome hless outcome_eq (start text)
  obtain ⟨final, complete, hrun, hnext, -⟩ := exists_run_start text
  rw [outcome, hrun, Option.map_some, ← hnext] at hends
  exact ⟨count, hcount, hends⟩

end Scan

end Unix

namespace Windows.Scan

/-- A turn of the loop of a search. -/
def turn : Scan × List Char → Scan × List Char ⊕ Found
  | (scan, []) => .inr (scan.finish [])
  | (scan, c :: rest) =>
    if scan.shell = .plain ∧ c = '^' then
      .inl ({ scan with shell := .escaped, reference := .none }, rest)
    else if scan.shell = .plain ∧ Dialect.windows.isMeta c then .inr (scan.finish (c :: rest))
    else if scan.word ≠ .quoted ∧ isSeparator c then
      if scan.word = .between then .inl ({ scan with shell := scan.shell.after c }, rest)
      else .inr (scan.finish (c :: rest))
    else .inl (scan.readWord c, rest)

/-- What is found in the end. -/
def outcome (state : Scan × List Char) : Found := state.1.run state.2

theorem outcome_eq (state : Scan × List Char) :
    outcome state = (turn state).elim outcome id := by
  obtain ⟨scan, text⟩ := state
  cases text with
  | nil => rfl
  | cons c rest =>
    dsimp only [outcome, run, turn]
    split_ifs <;> rfl

theorem length_turn {state next : Scan × List Char} (hturn : turn state = .inl next) :
    next.2.length < state.2.length := by
  obtain ⟨scan, text⟩ := state
  cases text with
  | nil => cases hturn
  | cons c rest =>
    dsimp only [turn] at hturn
    split_ifs at hturn <;> cases hturn <;> exact Nat.lt_succ_self _

theorem ends_turn (text : List Char) : ∃ count ≤ text.length,
    Loop.Ends turn count (start, text) (next text) :=
  Loop.exists_ends (fun state ↦ state.2.length) outcome (fun _ _ ↦ length_turn) outcome_eq
    (start, text)

end Windows.Scan

/-- The loops of a search of a text come to their ends, with what it finds. A scan for a POSIX shell
may go back to each place that it keeps, and has backquoted commands to pass over. -/
def SearchEnds : Dialect → List Char → Prop
  | .unix, text =>
    (∃ count ≤ Nat.pow 2 text.length,
      Loop.Ends Unix.Scan.turn count (.start text) (some (find .unix text))) ∧
    ∀ command, ∃ count ≤ command.length,
      Loop.Ends Unix.backquoteTurn count command (Unix.afterBackquote command)
  | .windows, text =>
    ∃ count ≤ text.length,
      Loop.Ends Windows.Scan.turn count (.start, text) (find .windows text)

theorem searchEnds (dialect : Dialect) (text : List Char) : SearchEnds dialect text := by
  cases dialect with
  | unix => exact ⟨Unix.Scan.ends_turn text, Unix.ends_backquoteTurn⟩
  | windows => exact Windows.Scan.ends_turn text

/-! ### One move after the other -/

/-- A cursor after so many moves, whether they find an argument or not. -/
def advances (count : Nat) (cursor : Cursor) : Cursor :=
  (fun cursor : Cursor ↦ cursor.advance.2)^[count] cursor

/-- How many of so many moves find an argument. -/
def successes (count : Nat) (cursor : Cursor) : Nat :=
  (List.range count).countP fun before ↦ (cursor.advances before).advance.1

/-- The number of characters in front of a cursor. -/
def position (cursor : Cursor) : Nat := (cursor.passed ++ cursor.current).length

variable (cursor : Cursor)

theorem advances_succ (count : Nat) :
    cursor.advances (count + 1) = (cursor.advances count).advance.2 :=
  Function.iterate_succ_apply' _ count cursor

@[simp] theorem line_advances (count : Nat) : (cursor.advances count).line = cursor.line := by
  induction count with
  | zero => rfl
  | succ count ih => rw [advances_succ, line_advance, ih]

theorem position_add_length_rest :
    cursor.position + cursor.rest.length = cursor.line.length :=
  List.length_append.symm

theorem position_le_advance : cursor.position ≤ cursor.advance.2.position := by
  have hbefore := position_add_length_rest cursor
  have hafter := position_add_length_rest cursor.advance.2
  have hrest := (suffix_find cursor.dialect cursor.rest).length_le
  rw [line_advance, rest_advance] at hafter
  omega

variable {cursor}

/-- A move that finds an argument leaves the cursor further on. -/
theorem position_lt_advance (h : cursor.advance.1 = true) :
    cursor.position < cursor.advance.2.position := by
  have hbefore := position_add_length_rest cursor
  have hafter := position_add_length_rest cursor.advance.2
  have hrest : (find cursor.dialect cursor.rest).rest.length < cursor.rest.length := length_find h
  rw [line_advance, rest_advance] at hafter
  omega

/-- A move that finds no argument leaves none ahead. -/
theorem atEnd_advance (h : cursor.advance.1 = false) :
    atEnd cursor.dialect cursor.advance.2.rest = true := by
  rw [rest_advance]
  exact atEnd_find h

theorem advance_of_atEnd (h : atEnd cursor.dialect cursor.rest = true) :
    cursor.advance.1 = false := congrArg Found.success (find_of_atEnd h)

/-- Behind a move that finds no argument no move finds any. -/
theorem advance_advances (h : cursor.advance.1 = false) (more : Nat) :
    (cursor.advance.2.advances more).advance.1 = false := by
  induction more with
  | zero =>
    refine advance_of_atEnd ?_
    rw [advances, Function.iterate_zero, id, dialect_advance]
    exact atEnd_advance h
  | succ more ih =>
    have hend := atEnd_advance ih
    rw [advances_succ]
    refine advance_of_atEnd ?_
    rw [dialect_advance]
    exact hend

/-- The moves that find arguments take the cursor at least as far as there are of them. -/
theorem position_add_successes_le (cursor : Cursor) (count : Nat) :
    cursor.position + cursor.successes count ≤ (cursor.advances count).position := by
  induction count with
  | zero => exact Nat.le_refl _
  | succ count ih =>
    rw [successes, List.range_succ, List.countP_append, List.countP_singleton, ← successes,
      advances_succ]
    split
    · rename_i hfound
      have hlt := position_lt_advance hfound
      omega
    · have hle := position_le_advance (cursor.advances count)
      omega

/-- A cursor gets on in a line that is not edited, and stays at the end. However often it was moved,
the search for the next argument comes to an end, and a move that finds one leaves the cursor
further on in the line; no more moves find an argument than the line has characters; and behind one
that finds none no move finds any. -/
theorem advance_progresses (dialect : Dialect) (line : List Char) (count : Nat) :
    let start := ofLine dialect line
    let cursor := start.advances count
    cursor.line = line ∧ SearchEnds cursor.dialect cursor.rest ∧
      (cursor.advance.1 = true → cursor.position < cursor.advance.2.position) ∧
      start.successes count ≤ line.length ∧
      (cursor.advance.1 = false → ∀ more, (cursor.advance.2.advances more).advance.1 = false) := by
  intro start cursor
  have hline : cursor.line = line := line_advances start count
  refine ⟨hline, searchEnds _ _, position_lt_advance, ?_, advance_advances⟩
  have hsuccesses := position_add_successes_le start count
  have hposition : (start.advances count).position + cursor.rest.length = line.length :=
    (position_add_length_rest cursor).trans (congrArg List.length hline)
  omega

/-- An arithmetic that was none is gone back to, and the argument is found; then the cursor stays in
front of a redirection. -/
theorem advance_progresses_reopened :
    let start := ofLine .unix "a $((b) c) >d".toList
    let cursor := start.advances 1
    let last := start.advances 2
    SearchEnds .unix " $((b) c) >d".toList ∧
      (cursor.advance.1 = true ∧ cursor.position < cursor.advance.2.position) ∧
      (last.advance.1 = false ∧ ∀ more, (last.advance.2.advances more).advance.1 = false) := by
  intro start cursor last
  have hcursor : cursor.dialect = .unix ∧ cursor.rest = " $((b) c) >d".toList ∧
      cursor.advance.1 = true := by
    decide +kernel
  have hlast : last.advance.1 = false := by decide +kernel
  obtain ⟨-, hends, hfurther, -⟩ := advance_progresses .unix "a $((b) c) >d".toList 1
  obtain ⟨-, -, -, -, hstays⟩ := advance_progresses .unix "a $((b) c) >d".toList 2
  obtain ⟨hdialect, hrest, hfound⟩ := hcursor
  rw [hdialect, hrest] at hends
  exact ⟨hends, ⟨hfound, hfurther hfound⟩, hlast, hstays hlast⟩

end CommandLine.Cursor
