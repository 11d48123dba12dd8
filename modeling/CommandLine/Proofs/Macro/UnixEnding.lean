import CommandLine.Proofs.Loop
import CommandLine.Proofs.Macro.UnixBalance

/-!
Every scan for a POSIX shell ends, with a text or with a failure. A step makes the scan lighter: it
leaves less of the text, or it gives up arithmetic and with it the place to go back to, whose weight
was that of all steps from there to the end. So a text of `n` characters is scanned in fewer than
`2 ^ n` steps, whatever is looked for in it. The loop inside of a step, over a backquoted command,
takes no more turns than the command has characters.
-/

set_option autoImplicit false

namespace CommandLine.Macro.Unix

/-! ### The steps of a scan -/

namespace Scan

/-- The scan ends after fewer than `bound` steps, and its expansion is the text that it has come to
or the failure of its last step. -/
def EndsWithin (find : Finder) (bound : Nat) (scan : Scan)
    (expansion : Except Failure (List Char × Nat)) : Prop :=
  ∃ count < bound, ∃ last, after find count scan = some last ∧
    (last.step find = .done last ∧ expansion = .ok (last.text, last.stack.length) ∨
      ∃ failure, last.step find = .failed failure ∧ expansion = .error failure)

variable {find : Finder}

theorem weight_pos (scan : Scan) : 0 < scan.weight := Rescan.weight_pos ..

theorem weight_start (text : List Char) (found : Occurrence) :
    (start text found).weight = Nat.pow 2 text.length := rfl

/-- A scan goes on for fewer steps than it weighs. -/
theorem exists_last (find : Finder) (scan : Scan) : ∃ count < scan.weight, ∃ last,
    after find count scan = some last ∧ ∀ next, last.step find ≠ .more next := by
  fun_induction Scan.run find scan with
  | case1 scan next hstep ih =>
    obtain ⟨count, hcount, last, hlast, hend⟩ := ih
    have := weight_step hstep
    exact ⟨count + 1, by omega, last, (after_of_step hstep count).trans hlast, hend⟩
  | case2 scan _ hstep | case3 scan _ hstep | case4 scan hstep =>
    exact ⟨0, scan.weight_pos, scan, rfl, by simp [hstep]⟩

/-- What is expanded is where the scan ends, and it never ends by an underflow. -/
theorem endsWithin_start {text : List Char} {found : Occurrence}
    (hfind : find [] text = some found) :
    EndsWithin find (Nat.pow 2 text.length) (start text found) (expand find text) := by
  obtain ⟨count, hcount, last, hlast, hend⟩ := exists_last find (start text found)
  rw [weight_start] at hcount
  refine ⟨count, hcount, last, hlast, ?_⟩
  rw [expand, hfind]
  dsimp only
  rw [run_of_after hlast, run_eq]
  cases hstep : last.step find with
  | more next => exact absurd hstep (hend next)
  | done final =>
    obtain rfl := eq_of_step_eq_done hstep
    exact .inl ⟨rfl, rfl⟩
  | failed failure => exact .inr ⟨failure, rfl, rfl⟩
  | underflow =>
    have hbalanced : Balanced last := (balanced_start text found).after hlast
    exact absurd hstep (hbalanced.step_ne_underflow find)

end Scan

/-! ### The turns of the loop over a backquoted command -/

/-- A backquoted command without its escapes, what follows it, and where backslashes were taken
away. -/
abbrev Unescaped : Type := List Char × List Char × List Nat

/-- What the loop over a backquoted command has come to: the command so far and where backslashes
were taken away, both in reverse order, and what is left. -/
structure Unquoting where
  body : List Char
  rest : List Char
  index : Nat
  removed : List Nat

namespace Unquoting

/-- One turn of the loop goes on, or ends with the command unless there is no closing mark. -/
def turn (quoted : Bool) (loop : Unquoting) : Unquoting ⊕ Option Unescaped :=
  match loop.rest with
  | [] => .inr none
  | '`' :: after => .inr (some (loop.body.reverse, after, loop.removed.reverse))
  | '\\' :: c :: rest =>
    if Scan.isUnescaped quoted c then
      .inl ⟨c :: loop.body, rest, loop.index + 2, loop.index :: loop.removed⟩
    else .inl ⟨c :: '\\' :: loop.body, rest, loop.index + 2, loop.removed⟩
  | c :: rest => .inl ⟨c :: loop.body, rest, loop.index + 1, loop.removed⟩

/-- What the loop comes to in the end: behind what it has stands what is read from the rest. -/
def result (quoted : Bool) (loop : Unquoting) : Option Unescaped :=
  (Scan.unescaped quoted loop.index loop.rest).map fun (body, after, removed) ↦
    (loop.body.reverse ++ body, after, loop.removed.reverse ++ removed)

theorem result_start (quoted : Bool) (command : List Char) :
    result quoted ⟨[], command, 0, []⟩ = Scan.unescaped quoted 0 command := by
  simp [result]

variable {quoted : Bool} {loop next : Unquoting}

theorem length_turn (h : loop.turn quoted = .inl next) : next.rest.length < loop.rest.length := by
  obtain ⟨body, rest, index, removed⟩ := loop
  unfold turn at h
  dsimp only at h
  split at h
  · cases h
  · cases h
  · split at h <;> cases h <;> simp only [List.length_cons] <;> omega
  · cases h
    simp only [List.length_cons]
    omega

/-- A turn keeps what the loop comes to, and the last one gives it. -/
theorem result_eq (quoted : Bool) (loop : Unquoting) :
    loop.result quoted = (loop.turn quoted).elim (result quoted) id := by
  obtain ⟨body, rest, index, removed⟩ := loop
  unfold turn
  dsimp only
  split
  · rfl
  · simp [result, Scan.unescaped]
  · split <;> rename_i hc <;>
      simp [result, Scan.unescaped, hc, Option.map_map, Function.comp_def]
  · simp [result, Scan.unescaped, Option.map_map, Function.comp_def]

end Unquoting

/-- Whatever is looked for, a text without a macro stays as it is, every other text is scanned in
fewer than `2 ^ n` steps that end with the expanded text or with a failure, and the loop over a
backquoted command ends after no more turns than the command has characters. -/
theorem expand_unix_ends (find : Finder) (text : List Char) :
    (match find [] text with
      | none => expand find text = .ok (text, 0)
      | some found =>
        Scan.EndsWithin find (Nat.pow 2 text.length) (Scan.start text found) (expand find text)) ∧
    ∀ (quoted : Bool) (command : List Char), ∃ count ≤ command.length,
      Loop.Ends (Unquoting.turn quoted) count ⟨[], command, 0, []⟩
        (Scan.unescaped quoted 0 command) := by
  constructor
  · cases hfind : find [] text with
    | none => simp only [expand, hfind]
    | some found => exact Scan.endsWithin_start hfind
  · intro quoted command
    rw [← Unquoting.result_start]
    exact Loop.exists_ends (fun loop ↦ loop.rest.length) (Unquoting.result quoted)
      (fun _ _ ↦ Unquoting.length_turn) (Unquoting.result_eq quoted) ⟨[], command, 0, []⟩

end CommandLine.Macro.Unix
