import CommandLine.Macro.Expansion
import CommandLine.Proofs.Windows.Readers

/-!
A scan that puts macros into a line for Windows, and two readers: one of the line with a mark at the
place of each value, and one of the text that the scan has finished. Where they are is told by the
scan's state alone: they differ while a value's quotation is open, and by the backslashes of values,
which the scan counts as owed.
-/

set_option autoImplicit false

namespace CommandLine.Macro.Windows

open CommandLine.Windows (ShellMode Quoting Runtime Reader isSeparator backslashes quoteInside
  backslashes_zero backslashes_add)
open Piece (Gathered)
open Transducer

/-- A value that is not empty and that the command processor leaves as it is. -/
structure IsSafe (value : List Char) : Prop where
  ne_nil : value ≠ []
  percent : '%' ∉ value
  at_sign : value.head? ≠ some '@'

instance (value : List Char) : Decidable (IsSafe value) :=
  decidable_of_iff (value ≠ [] ∧ '%' ∉ value ∧ value.head? ≠ some '@')
    ⟨fun ⟨ne_nil, percent, at_sign⟩ ↦ ⟨ne_nil, percent, at_sign⟩,
      fun ⟨ne_nil, percent, at_sign⟩ ↦ ⟨ne_nil, percent, at_sign⟩⟩

/-! ### Where the readers are -/

namespace ArgvState

/-- Where the C runtime is in the line with marks. -/
def marked : ArgvState → Quoting
  | closed => .closed
  | quoted => .inside
  | between | needsWord | inWord | hadQuote | needsQuote => .outside

/-- Where the C runtime is in the finished text. -/
def written : ArgvState → Quoting
  | closed | hadQuote => .closed
  | quoted | needsQuote => .inside
  | between | needsWord | inWord => .outside

/-- Outside of values' quotations the two places are the same. -/
theorem written_eq_marked {state : ArgvState} (hneeds : state ≠ needsQuote)
    (hhad : state ≠ hadQuote) : state.written = state.marked := by
  cases state <;> simp_all [written, marked]

theorem marked_afterCharacter (state : ArgvState) :
    state.afterCharacter.marked = state.marked.afterCharacter := by
  cases state <;> rfl

theorem written_afterCharacter (state : ArgvState) :
    state.afterCharacter.written = state.written.afterCharacter := by
  cases state <;> rfl

theorem marked_afterSeparator (state : ArgvState) :
    state.afterSeparator.marked = state.marked.afterCharacter := by
  cases state <;> rfl

theorem written_afterSeparator (state : ArgvState) :
    state.afterSeparator.written = state.written.afterCharacter := by
  cases state <;> rfl

/-- A quote that opens or closes is the same for both, and changes the state as it changes the
place. -/
theorem afterQuote_ok {state next : ArgvState} (hneeds : state ≠ needsQuote)
    (h : state.afterQuote = .ok next) :
    state.written = state.marked ∧ next.written = state.marked.afterQuote ∧
      next.marked = state.marked.afterQuote := by
  cases state <;> cases h <;> simp_all [written, marked, Quoting.afterQuote]

/-- What a character can lead to. -/
theorem read_ok {state next : ArgvState} {slashes count : Nat} {c : Char}
    (hneeds : state ≠ needsQuote) (h : state.read slashes c = .ok (next, count)) :
    next ≠ needsQuote ∧ next ≠ hadQuote ∧ next ≠ needsWord ∧
      (next = closed → count = 0 ∧ c ≠ '\\') := by
  unfold read at h
  split at h
  · cases h
    cases state <;> simp_all [afterSeparator, isQuoted]
  · split at h
    · cases h
      cases state <;> simp_all [afterCharacter, isQuoted]
    · split at h
      · rename_i hquote
        obtain ⟨rfl, -⟩ := hquote
        obtain ⟨other, hafter, heq⟩ := exists_of_map_eq_ok h
        cases heq
        cases state <;> cases hafter <;> simp_all
      · cases h
        cases state <;> simp_all [afterCharacter, isQuoted]

end ArgvState

namespace Scan

/-- Where the reader of the line with marks is. -/
def markedReader (scan : Scan) : Reader :=
  ⟨scan.finished.isEmpty, scan.shell, ⟨scan.argv.marked, scan.slashes⟩⟩

/-- Where the reader of the finished text is, behind a number of further backslashes. -/
def writtenReader (scan : Scan) (extra : Nat) : Reader :=
  ⟨scan.finished.isEmpty, if scan.argv = .needsQuote then .quoted else scan.shell,
    ⟨scan.argv.written, scan.owed + scan.slashes + extra⟩⟩

/-- What a scan never loses: no empty word is owed, a value's quotation is open only for the C
runtime, there are no backslashes behind a closing quote, and nothing has happened before the first
character. -/
structure Sound (scan : Scan) : Prop where
  needsWord : scan.argv ≠ .needsWord
  needsQuote : scan.argv = .needsQuote → scan.shell = .plain ∧ scan.slashes = 0
  behindQuote : scan.argv = .closed ∨ scan.argv = .hadQuote → scan.slashes = 0 ∧ scan.owed = 0
  start : scan.finished = [] →
    scan.shell = .plain ∧ scan.argv = .between ∧ scan.slashes = 0 ∧ scan.owed = 0

/-- The scan behind a character, whatever is ahead of it. -/
def taken (scan : Scan) (c : Char) (rest : List Char) : Except Failure Scan :=
  if scan.shell = .plain ∧ c = '^' then
    .ok { scan with
      finished := c :: scan.finished, rest, next := scan.next.map (·.nearer 1), shell := .escaped }
  else
    (scan.argv.read scan.slashes c).map fun (argv, slashes) ↦
      { finished := c :: scan.amended c, rest, next := scan.next.map (·.nearer 1)
        shell := scan.shell.after c, argv, slashes
        owed := if c = '\\' then scan.owed else 0 }

variable {scan later : Scan} {c : Char} {rest : List Char}

/-- A scan goes on behind a character, or ends there with the rest of the line as it stands. -/
theorem read_cases (hneeds : scan.argv ≠ .needsQuote) (c : Char) (rest : List Char) :
    (∃ failure, scan.read c rest = .failed failure) ∨
      ∃ later, scan.taken c rest = .ok later ∧
        (scan.read c rest = .more later ∨
          scan.read c rest = .done (later.finished.reverse ++ rest) ∧ scan.next = none ∧
            later.owed = 0 ∧ later.argv ≠ .needsQuote ∧ later.argv ≠ .hadQuote) := by
  unfold read taken
  dsimp only
  split
  · exact .inr ⟨_, rfl, .inl rfl⟩
  · cases hread : scan.argv.read scan.slashes c with
    | error failure => exact .inl ⟨failure, rfl⟩
    | ok result =>
      obtain ⟨argv, slashes⟩ := result
      obtain ⟨hquote, hhad, -, -⟩ := ArgvState.read_ok hneeds hread
      refine .inr ⟨_, rfl, ?_⟩
      dsimp only
      by_cases hend : scan.next.isNone = true ∧ (if c = '\\' then scan.owed else 0) = 0
      · rw [if_pos hend]
        exact .inr ⟨by simp, Option.isNone_iff_eq_none.mp hend.1, hend.2, hquote, hhad⟩
      · rw [if_neg hend]
        exact .inl rfl

/-- What a character leads to is told by the two readers' states. -/
theorem taken_cases (h : scan.taken c rest = .ok later) :
    ((scan.shell = .plain ∧ c = '^') ∧
        later =
          { scan with
            finished := c :: scan.finished, rest, next := scan.next.map (·.nearer 1)
            shell := .escaped }) ∨
      (¬(scan.shell = .plain ∧ c = '^') ∧
        ∃ argv slashes, scan.argv.read scan.slashes c = .ok (argv, slashes) ∧
          later =
            { finished := c :: scan.amended c, rest, next := scan.next.map (·.nearer 1)
              shell := scan.shell.after c, argv, slashes
              owed := if c = '\\' then scan.owed else 0 }) := by
  unfold taken at h
  split at h
  · rename_i hcircumflex
    exact .inl ⟨hcircumflex, (Except.ok.inj h).symm⟩
  · rename_i hpassed
    obtain ⟨⟨argv, slashes⟩, hread, heq⟩ := exists_of_map_eq_ok h
    exact .inr ⟨hpassed, argv, slashes, hread, heq.symm⟩

theorem Sound.taken (hsound : scan.Sound) (hneeds : scan.argv ≠ .needsQuote)
    (h : scan.taken c rest = .ok later) :
    later.Sound ∧ later.argv ≠ .needsQuote ∧ (later.argv = .hadQuote → later.shell = .escaped) ∧
      later.rest = rest ∧ later.next = scan.next.map (·.nearer 1) := by
  rcases taken_cases h with ⟨-, rfl⟩ | ⟨-, argv, slashes, hread, rfl⟩
  · exact ⟨⟨hsound.needsWord, fun hquote ↦ absurd hquote hneeds, hsound.behindQuote, by simp⟩,
      hneeds, fun _ ↦ rfl, rfl, rfl⟩
  · obtain ⟨hquote, hhad, hword, hclosed⟩ := ArgvState.read_ok hneeds hread
    refine ⟨⟨hword, fun h ↦ absurd h hquote, fun h ↦ ?_, by simp⟩, hquote,
      fun h ↦ absurd h hhad, rfl, rfl⟩
    rcases h with h | h
    · obtain ⟨hslashes, hbackslash⟩ := hclosed h
      exact ⟨hslashes, by simp [hbackslash]⟩
    · exact absurd h hhad

/-- A character that the command processor passes on: the C runtime does with it in the finished
text what it does in the line with marks, but that owed backslashes stand there as well. In front of
a quote there are twice as many of them. -/
theorem runtimeStep_read (owed : Nat) {state next : ArgvState} {slashes count : Nat} {c : Char}
    (hneeds : state ≠ .needsQuote) (h : state.read slashes c = .ok (next, count)) :
    (Runtime.step ⟨state.marked, slashes⟩ c).2 = ⟨next.marked, count⟩ ∧
      (Runtime.step ⟨state.written, owed + slashes + (if c = '"' then owed else 0)⟩ c).2 =
        ⟨next.written, (if c = '\\' then owed else 0) + count⟩ ∧
      (Runtime.step ⟨state.written, owed + slashes + (if c = '"' then owed else 0)⟩ c).1 ++
          Piece.chars (backslashes (if c = '\\' then owed else 0)) =
        Piece.chars (backslashes owed) ++ (Runtime.step ⟨state.marked, slashes⟩ c).1 := by
  have hrun (first second : Nat) : Piece.chars (backslashes (first + second)) =
      Piece.chars (backslashes first) ++ Piece.chars (backslashes second) := by
    rw [backslashes_add, Piece.chars_append]
  have hpiece (d : Char) : state.written.piece d = state.marked.piece d := by
    cases state <;> simp_all [ArgvState.written, ArgvState.marked, Quoting.piece]
  by_cases hbackslash : c = '\\'
  · subst hbackslash
    have hseparator : isSeparator '\\' = false := by decide
    simp only [ArgvState.read, hseparator, Bool.false_eq_true, if_false, if_true, Except.ok.injEq,
      Prod.mk.injEq] at h
    obtain ⟨rfl, rfl⟩ := h
    simp [Runtime.step_backslash, ArgvState.marked_afterCharacter,
      ArgvState.written_afterCharacter, Nat.add_assoc]
  · rw [if_neg hbackslash]
    by_cases hquote : c = '"'
    · subst hquote
      have hseparator : isSeparator '"' = false := by decide
      simp only [ArgvState.read, hseparator, Bool.false_eq_true, if_false, hbackslash, true_and,
        if_true] at h ⊢
      have hhalf : (owed + slashes + owed) / 2 = owed + slashes / 2 := by omega
      rcases Nat.mod_two_eq_zero_or_one slashes with heven | hodd
      · rw [if_pos heven] at h
        obtain ⟨other, hafter, heq⟩ := exists_of_map_eq_ok h
        cases heq
        obtain ⟨hsame, hwritten, hmarked⟩ := ArgvState.afterQuote_ok hneeds hafter
        have hmarkedStep : Runtime.step ⟨state.marked, slashes⟩ '"' =
            (Piece.chars (backslashes (slashes / 2)) ++ [state.marked.mark],
              ⟨state.marked.afterQuote, 0⟩) :=
          Runtime.step_quote_of_even heven
        have hwrittenStep : Runtime.step ⟨state.marked, owed + slashes + owed⟩ '"' =
            (Piece.chars (backslashes (owed + slashes / 2)) ++ [state.marked.mark],
              ⟨state.marked.afterQuote, 0⟩) := by
          rw [Runtime.step_quote_of_even (by dsimp only; omega), hhalf]
        rw [hsame, hmarkedStep, hwrittenStep, hwritten, hmarked, hrun]
        simp [Piece.chars]
      · have hnot : ¬slashes % 2 = 0 := by omega
        rw [if_neg hnot] at h
        cases h
        have hmarkedStep : Runtime.step ⟨state.marked, slashes⟩ '"' =
            (Piece.chars (backslashes (slashes / 2)) ++ [.char '"'],
              ⟨state.marked.afterCharacter, 0⟩) :=
          Runtime.step_quote_of_odd hodd
        have hwrittenStep : Runtime.step ⟨state.written, owed + slashes + owed⟩ '"' =
            (Piece.chars (backslashes (owed + slashes / 2)) ++ [.char '"'],
              ⟨state.written.afterCharacter, 0⟩) := by
          rw [Runtime.step_quote_of_odd (by dsimp only; omega), hhalf]
        rw [hmarkedStep, hwrittenStep, hrun, ArgvState.marked_afterCharacter,
          ArgvState.written_afterCharacter]
        simp [Piece.chars]
    · have hplace : next.marked = state.marked.afterCharacter ∧
          next.written = state.written.afterCharacter ∧ count = 0 := by
        simp only [ArgvState.read, hbackslash, hquote, false_and, if_false] at h
        split at h
        · cases h
          exact ⟨state.marked_afterSeparator, state.written_afterSeparator, rfl⟩
        · cases h
          exact ⟨state.marked_afterCharacter, state.written_afterCharacter, rfl⟩
      obtain ⟨hmarked, hwritten, rfl⟩ := hplace
      rw [if_neg hquote, Runtime.step_character _ hbackslash hquote,
        Runtime.step_character _ hbackslash hquote, hmarked, hwritten]
      simp [hpiece, hrun]

/-- Both readers read a character of the line, and are where the scan is behind it. -/
theorem Sound.step_taken (hsound : scan.Sound) (hneeds : scan.argv ≠ .needsQuote)
    (htaken : scan.taken c rest = .ok later) {here : List Piece} {last : Reader}
    (hstep : scan.markedReader.step c = .ok (here, last)) :
    last = later.markedReader ∧
      ∃ found,
        (scan.writtenReader (if c = '"' then scan.owed else 0)).step c =
            .ok (found, later.writtenReader 0) ∧
          found ++ Piece.chars (backslashes later.owed) =
            Piece.chars (backslashes scan.owed) ++ here := by
  by_cases hat : scan.finished.isEmpty = true ∧ c = '@'
  · obtain ⟨hfinished, rfl⟩ := hat
    obtain ⟨hshell, hargv, hslashes, howed⟩ := hsound.start (List.isEmpty_iff.mp hfinished)
    obtain ⟨finished, ahead, next, shell, argv, slashes, owed⟩ := scan
    dsimp only at hfinished hshell hargv hslashes howed
    subst hshell hargv hslashes howed
    rw [List.isEmpty_iff] at hfinished
    subst hfinished
    cases htaken
    cases hstep
    exact ⟨rfl, [], rfl, rfl⟩
  · have hread (shell : ShellMode) (runtime : Runtime) :
        Reader.step ⟨scan.finished.isEmpty, shell, runtime⟩ c =
          (shell.step c).map fun found ↦
            ((runtime.advance found.1).1, ⟨false, found.2, (runtime.advance found.1).2⟩) := by
      rw [Reader.step, if_neg hat]
    have hwrittenReader (extra : Nat) : scan.writtenReader extra =
        ⟨scan.finished.isEmpty, scan.shell,
          ⟨scan.argv.written, scan.owed + scan.slashes + extra⟩⟩ := by
      rw [writtenReader, if_neg hneeds]
    rw [markedReader, hread] at hstep
    obtain ⟨⟨passed, shell⟩, hshell, heq⟩ := exists_of_map_eq_ok hstep
    cases heq
    rw [hwrittenReader, hread, hshell]
    simp only [Except.map, Except.ok.injEq, Prod.mk.injEq]
    rcases ShellMode.step_cases hshell with ⟨hcircumflex, rfl, rfl⟩ | ⟨hpassed, -, rfl, rfl⟩ <;>
      rcases taken_cases htaken with ⟨hother, rfl⟩ | ⟨hother, argv, slashes, hargv, rfl⟩
    · obtain ⟨-, rfl⟩ := hcircumflex
      refine ⟨rfl, [], ⟨rfl, ?_⟩, by simp⟩
      simp [writtenReader, hneeds]
    · exact absurd hcircumflex hother
    · exact absurd hother hpassed
    · obtain ⟨hquote, -⟩ := ArgvState.read_ok hneeds hargv
      obtain ⟨hmarked, hwritten, hfound⟩ := runtimeStep_read scan.owed hneeds hargv
      refine ⟨?_, _, ⟨rfl, ?_⟩, ?_⟩
      · simp [markedReader, hmarked]
      · simp [writtenReader, hquote, hwritten]
      · simpa using hfound

/-! ### The finished text -/

theorem insertBeforeLast_nil (reversed : List Char) : insertBeforeLast [] reversed = reversed := by
  cases reversed <;> rfl

theorem reverse_insertBeforeLast_cons (count : Nat) (c : Char) (reversed : List Char) :
    (insertBeforeLast (backslashes count) (c :: reversed)).reverse =
      reversed.reverse ++ backslashes count ++ [c] := by
  simp [insertBeforeLast, backslashes]

/-- The finished text yields pieces, and does so too with the backslashes that a quote calls for. -/
def Reads (scan : Scan) (found : List Piece) : Prop :=
  ∀ extra, extra = 0 ∨ extra = scan.owed →
    advance Reader.step .start (insertBeforeLast (backslashes extra) scan.finished).reverse =
      .ok (found, scan.writtenReader extra)

theorem Reads.finished {found : List Piece} (h : scan.Reads found) :
    advance Reader.step .start scan.finished.reverse = .ok (found, scan.writtenReader 0) := by
  have hzero := h 0 (.inl rfl)
  rwa [backslashes_zero, insertBeforeLast_nil] at hzero

/-- Where no backslashes are owed the finished text stays as it is. -/
theorem Reads.of_owed_eq_zero {found : List Piece} (howed : scan.owed = 0)
    (h : advance Reader.step .start scan.finished.reverse = .ok (found, scan.writtenReader 0)) :
    scan.Reads found := by
  intro extra hextra
  obtain rfl : extra = 0 := by
    rcases hextra with hzero | hsame
    · exact hzero
    · rw [hsame, howed]
  rwa [backslashes_zero, insertBeforeLast_nil]

/-- Backslashes go in front of a backslash as well as behind it. -/
theorem Reads.of_backslash {found : List Piece} {before : List Char}
    (hfinished : scan.finished = '\\' :: before) (hshell : scan.shell ≠ .escaped)
    (hargv : scan.argv.written ≠ .closed)
    (h : advance Reader.step .start scan.finished.reverse = .ok (found, scan.writtenReader 0)) :
    scan.Reads found := by
  intro extra _
  have hrun : backslashes extra ++ ['\\'] = ['\\'] ++ backslashes extra := by
    rw [backslashes, ← List.replicate_succ']
    rfl
  have hreader : (if scan.argv = .needsQuote then ShellMode.quoted else scan.shell) ≠ .escaped := by
    split
    · simp
    · exact hshell
  have hslashes := Reader.advance_backslashes hreader hargv (scan.owed + scan.slashes) extra
  have hfresh : scan.finished.isEmpty = false := by rw [hfinished]; rfl
  rw [hfinished, List.reverse_cons] at h
  rw [hfinished, reverse_insertBeforeLast_cons, List.append_assoc, hrun, ← List.append_assoc]
  simp only [writtenReader, hfresh, Nat.add_zero] at h ⊢
  simpa using advance_append_of_ok h hslashes

theorem Sound.amended_eq (hsound : scan.Sound) :
    scan.amended c =
      insertBeforeLast (backslashes (if c = '"' then scan.owed else 0)) scan.finished := by
  rw [amended, if_neg fun h ↦ hsound.needsWord h.2]
  split
  · rfl
  · rw [backslashes_zero, insertBeforeLast_nil]

/-- The finished text behind a character of the line. -/
theorem Reads.taken {found : List Piece} (h : scan.Reads found) (hsound : scan.Sound)
    (hneeds : scan.argv ≠ .needsQuote) (htaken : scan.taken c rest = .ok later)
    {here : List Piece}
    (hstep : (scan.writtenReader (if c = '"' then scan.owed else 0)).step c =
      .ok (here, later.writtenReader 0)) : later.Reads (found ++ here) := by
  have hfinished : advance Reader.step .start later.finished.reverse =
      .ok (found ++ here, later.writtenReader 0) := by
    have hbefore : later.finished =
        c :: insertBeforeLast (backslashes (if c = '"' then scan.owed else 0)) scan.finished := by
      rcases taken_cases htaken with ⟨⟨-, rfl⟩, rfl⟩ | ⟨-, argv, slashes, -, rfl⟩
      · simp [insertBeforeLast_nil]
      · rw [← hsound.amended_eq]
    have hextra : (if c = '"' then scan.owed else 0) = 0 ∨
        (if c = '"' then scan.owed else 0) = scan.owed := by
      split
      · exact .inr rfl
      · exact .inl rfl
    rw [hbefore, List.reverse_cons]
    exact advance_append_of_ok (h _ hextra) (advance_singleton hstep)
  by_cases howed : later.owed = 0
  · exact .of_owed_eq_zero howed hfinished
  · rcases taken_cases htaken with ⟨⟨hshell, rfl⟩, rfl⟩ | ⟨-, argv, slashes, hread, rfl⟩
    · intro extra hextra
      -- the backslashes go in front of the circumflex, where the command processor counts them
      have hclosed : scan.argv.written ≠ .closed := by
        intro hclosed
        refine howed (hsound.behindQuote ?_).2
        cases hargv : scan.argv <;> simp_all [ArgvState.written]
      have hnonempty : scan.finished.isEmpty = false := by
        cases hempty : scan.finished with
        | nil => exact absurd (hsound.start hempty).2.2.2 howed
        | cons => rfl
      have hplain : (ShellMode.plain : ShellMode) ≠ .escaped := by simp
      have hslashes := Reader.advance_backslashes hplain hclosed (scan.owed + scan.slashes) extra
      have hread := h.finished
      simp only [writtenReader, hnonempty, if_neg hneeds, hshell, Nat.add_zero] at hread hstep ⊢
      have hcircumflex (runtime : Runtime) :
          Reader.step ⟨false, .plain, runtime⟩ '^' = .ok ([], ⟨false, .escaped, runtime⟩) := rfl
      have hnone : here = [] := by
        have hsame := hstep.symm.trans (hcircumflex _)
        rw [Except.ok.injEq, Prod.mk.injEq] at hsame
        exact hsame.1
      rw [reverse_insertBeforeLast_cons, hnone]
      simpa using advance_append_of_ok (advance_append_of_ok hread hslashes)
        (advance_singleton (hcircumflex _))
    · by_cases hbackslash : c = '\\'
      · subst hbackslash
        refine .of_backslash rfl ?_ ?_ hfinished
        · cases scan.shell <;> simp [ShellMode.after]
        · have hseparator : isSeparator '\\' = false := by decide
          simp only [ArgvState.read, hseparator, Bool.false_eq_true, if_false, if_true,
            Except.ok.injEq, Prod.mk.injEq] at hread
          rw [← hread.1, ArgvState.written_afterCharacter]
          cases scan.argv.written <;> simp [Quoting.afterCharacter]
      · exact absurd (if_neg hbackslash) howed

/-! ### Values -/

/-- The three ways of writing a value: inside of an open quotation, in a quotation of its own, and
without quotes. -/
theorem written_cases {value text : List Char} (hvalue : value ≠ []) {argv : ArgvState} {owed : Nat}
    (h : scan.written value = .ok (text, argv, owed)) :
    (scan.argv.isQuoted = true ∧ argv = scan.argv ∧
        (text, owed) = quoteInside (scan.owed + scan.slashes) value) ∨
      (scan.argv.isQuoted = false ∧ scan.argv ≠ .closed ∧ argv = .needsQuote ∧
        text = backslashes (scan.owed + scan.slashes) ++ '"' :: (quoteInside 0 value).1 ∧
        owed = (quoteInside 0 value).2) ∨
      (scan.argv.isQuoted = false ∧ Dialect.windows.needsQuotes value = false ∧ argv = .inWord ∧
        (text, owed) = quoteInside (scan.owed + scan.slashes) value) := by
  have hempty : value.isEmpty = false := by simpa using hvalue
  unfold written at h
  dsimp only at h
  split at h
  · rename_i hquoted
    cases h
    exact .inl ⟨hquoted, rfl, rfl⟩
  · rename_i hquoted
    rw [Bool.not_eq_true] at hquoted
    rw [hempty, if_neg Bool.false_ne_true] at h
    split at h
    · split at h
      · cases h
      · rename_i hclosed
        cases h
        exact .inr (.inl ⟨hquoted, hclosed, rfl, rfl, rfl⟩)
    · rename_i hplain
      rw [Bool.not_eq_true] at hplain
      cases h
      exact .inr (.inr ⟨hquoted, hplain, rfl, rfl⟩)

/-- Backslashes are owed for those at the end of what is written. -/
theorem exists_of_written {value text : List Char} (hvalue : value ≠ []) {argv : ArgvState}
    {owed : Nat} (h : scan.written value = .ok (text, argv, owed)) :
    text ≠ [] ∧ (owed ≠ 0 → ∃ before, text = before ++ ['\\']) := by
  rcases written_cases hvalue h with
    ⟨-, -, hinside⟩ | ⟨-, -, -, rfl, rfl⟩ | ⟨-, -, -, hinside⟩
  · obtain ⟨rfl, rfl⟩ := Prod.mk.inj hinside
    exact ⟨Reader.quoteInside_ne_nil hvalue _, Reader.exists_of_quoteInside_ne_zero hvalue _⟩
  · refine ⟨by simp, fun howed ↦ ?_⟩
    obtain ⟨before, hbefore⟩ := Reader.exists_of_quoteInside_ne_zero hvalue _ howed
    exact ⟨backslashes (scan.owed + scan.slashes) ++ '"' :: before, by simp [hbefore]⟩
  · obtain ⟨rfl, rfl⟩ := Prod.mk.inj hinside
    exact ⟨Reader.quoteInside_ne_nil hvalue _, Reader.exists_of_quoteInside_ne_zero hvalue _⟩

/-- What a value leads to: the reader of the line with marks reads one character more, and no
quotation was closed. -/
theorem Sound.argv_of_written (hsound : scan.Sound) (hhad : scan.argv ≠ .hadQuote)
    {value text : List Char} (hvalue : value ≠ []) {argv : ArgvState} {owed : Nat}
    (h : scan.written value = .ok (text, argv, owed)) :
    argv.marked = scan.argv.marked.afterCharacter ∧ argv.written ≠ .closed ∧
      argv ≠ .needsWord ∧ (argv = .needsQuote → scan.argv = .needsQuote ∨
        scan.argv.isQuoted = false) := by
  have hword := hsound.needsWord
  rcases written_cases hvalue h with
    ⟨hquoted, rfl, -⟩ | ⟨hquoted, hclosed, rfl, -⟩ | ⟨hquoted, -, rfl, -⟩
  · refine ⟨?_, ?_, hword, fun h ↦ .inl h⟩ <;>
      cases hargv : scan.argv <;> simp_all [ArgvState.isQuoted, ArgvState.marked,
        ArgvState.written, Quoting.afterCharacter]
  · refine ⟨?_, by simp [ArgvState.written], by simp, fun _ ↦ .inr hquoted⟩
    cases hargv : scan.argv <;>
      simp_all [ArgvState.isQuoted, ArgvState.marked, Quoting.afterCharacter]
  · refine ⟨?_, by simp [ArgvState.written], by simp, by simp⟩
    cases hargv : scan.argv <;>
      simp_all [ArgvState.isQuoted, ArgvState.marked, Quoting.afterCharacter]

/-- A value that is put in reads as its characters, but for the backslashes that are owed then. -/
theorem Sound.advance_written (hsound : scan.Sound) (hplain : scan.argv.isQuoted = false →
      scan.shell = .plain) (hquoted : scan.argv = .quoted → scan.shell = .quoted)
    (hhad : scan.argv ≠ .hadQuote) {value text : List Char} (hvalue : IsSafe value)
    {argv : ArgvState} {owed : Nat} (h : scan.written value = .ok (text, argv, owed)) :
    ∃ found,
      advance Reader.step (scan.writtenReader 0) text =
          .ok (found, ⟨false, if argv = .needsQuote then .quoted else scan.shell,
            ⟨argv.written, owed⟩⟩) ∧
        Reader.Spells found owed (backslashes (scan.owed + scan.slashes) ++ value) := by
  have hword := hsound.needsWord
  rcases written_cases hvalue.ne_nil h with
    ⟨hinside, rfl, heq⟩ | ⟨hinside, hclosed, rfl, rfl, rfl⟩ | ⟨hinside, hneedless, rfl, heq⟩
  · obtain ⟨rfl, rfl⟩ := Prod.mk.inj heq
    have hreader : (if scan.argv = .needsQuote then ShellMode.quoted else scan.shell) = .quoted ∧
        scan.argv.written = .inside := by
      cases hargv : scan.argv <;> simp_all [ArgvState.isQuoted, ArgvState.written]
    rw [writtenReader, hreader.1, hreader.2]
    exact Reader.advance_inQuotation hvalue.ne_nil hvalue.at_sign _ _
  · have hreader : scan.argv ≠ .needsQuote ∧ scan.argv.written = .outside := by
      cases hargv : scan.argv <;> simp_all [ArgvState.isQuoted, ArgvState.written]
    rw [writtenReader, if_neg hreader.1, hreader.2, hplain hinside]
    exact Reader.advance_ownQuotation value _ _
  · obtain ⟨rfl, rfl⟩ := Prod.mk.inj heq
    have hreader : scan.argv ≠ .needsQuote ∧ scan.argv.written ≠ .inside := by
      cases hargv : scan.argv <;> simp_all [ArgvState.isQuoted, ArgvState.written]
    rw [writtenReader, if_neg hreader.1, hplain hinside]
    exact Reader.advance_unquoted hvalue.ne_nil hvalue.at_sign hneedless hreader.2 _ _

/-- Where a value can be put in, and what is finished then. -/
theorem substitute_more {find : Finder} {found : Occurrence}
    (h : scan.substitute find found = .more later) :
    scan.shell ≠ .escaped ∧ (scan.shell = .quoted ↔ scan.argv = .quoted) ∧
      ∃ text argv owed, scan.written found.value = .ok (text, argv, owed) ∧
        later =
          { scan with
            finished := text.reverse ++ scan.finished
            rest := scan.rest.drop found.length
            next := find (text.reverse ++ scan.finished).reverse (scan.rest.drop found.length)
            argv, slashes := 0, owed } := by
  unfold substitute at h
  split at h
  · cases h
  · rename_i hescaped
    split at h
    · cases h
    · rename_i hagree
      split at h
      · cases h
      · split at h
        · cases h
        · rename_i text argv owed hwritten
          refine ⟨hescaped, by simpa using hagree, text, argv, owed, hwritten, ?_⟩
          cases h
          rfl

/-- A value is put in, or nothing is. -/
theorem substitute_cases (find : Finder) (scan : Scan) (found : Occurrence) :
    (∃ later, scan.substitute find found = .more later) ∨
      ∃ failure, scan.substitute find found = .failed failure := by
  unfold substitute
  split
  · exact .inr ⟨_, rfl⟩
  · split
    · exact .inr ⟨_, rfl⟩
    · split
      · exact .inr ⟨_, rfl⟩
      · split
        · exact .inr ⟨_, rfl⟩
        · exact .inl ⟨_, rfl⟩

/-- A value that is put in leaves the scan sound. The reader of the line with marks reads one
character more, that of the finished text reads the value. -/
theorem Sound.substitute (hsound : scan.Sound)
    (hhad : scan.argv = .hadQuote → scan.shell = .escaped) {macros : Macros}
    {found : Occurrence} (hvalue : IsSafe found.value)
    (h : scan.substitute macros.finder found = .more later) {before : List Piece}
    (hreads : scan.Reads before) :
    later.Sound ∧ later.argv ≠ .hadQuote ∧ later.rest = scan.rest.drop found.length ∧
      later.next = macros.find (scan.rest.drop found.length) ∧ scan.shell ≠ .escaped ∧
      later.markedReader = ⟨false, scan.shell, ⟨scan.argv.marked.afterCharacter, 0⟩⟩ ∧
      ∃ spelled, later.Reads (before ++ spelled) ∧
        Reader.Spells spelled later.owed
          (backslashes (scan.owed + scan.slashes) ++ found.value) := by
  obtain ⟨hescaped, hagree, text, argv, owed, hwritten, rfl⟩ := substitute_more h
  have hnot : scan.argv ≠ .hadQuote := fun h ↦ hescaped (hhad h)
  have hplain (hquoted : scan.argv.isQuoted = false) : scan.shell = .plain := by
    cases hshell : scan.shell with
    | plain => rfl
    | escaped => exact absurd hshell hescaped
    | quoted =>
      rw [hagree.mp hshell] at hquoted
      cases hquoted
  obtain ⟨hnil, hbackslash⟩ := exists_of_written hvalue.ne_nil hwritten
  obtain ⟨hmarked, hclosed, hword, hneeds⟩ := hsound.argv_of_written hnot hvalue.ne_nil hwritten
  obtain ⟨spelled, hspelled, hspells⟩ :=
    hsound.advance_written hplain hagree.mpr hnot hvalue hwritten
  have hshell : argv = .needsQuote → scan.shell = .plain := by
    intro h
    rcases hneeds h with hsame | hquoted
    · exact (hsound.needsQuote hsame).1
    · exact hplain hquoted
  have hfresh : (text.reverse ++ scan.finished).isEmpty = false := by simp [hnil]
  refine ⟨⟨hword, fun h ↦ ⟨hshell h, rfl⟩, fun h ↦ ?_, fun h ↦ ?_⟩, ?_, rfl, rfl, hescaped, ?_,
    spelled, ?_, hspells⟩
  · exfalso
    rcases h with rfl | rfl <;> exact hclosed rfl
  · simp [hnil] at h
  · rintro rfl
    exact hclosed rfl
  · rw [markedReader, hfresh, hmarked]
  · have hread := advance_append_of_ok hreads.finished hspelled
    by_cases howed : owed = 0
    · refine .of_owed_eq_zero howed ?_
      simpa [writtenReader, hfresh] using hread
    · obtain ⟨front, rfl⟩ := hbackslash howed
      have hfinished : (front ++ ['\\']).reverse ++ scan.finished =
          '\\' :: (front.reverse ++ scan.finished) := by
        simp
      refine .of_backslash hfinished hescaped hclosed ?_
      simpa [writtenReader] using hread

end Scan

end CommandLine.Macro.Windows
