import CommandLine.Proofs.Windows.Reading
import CommandLine.Windows.Quote

/-!
The two readers of a line on Windows as one: the C runtime reads each character as soon as the
command processor passes it on. A value that is written for the inside of a quotation reads as it
stands, but for the backslashes at its end, which are still to come.
-/

set_option autoImplicit false

namespace CommandLine.Windows

open Transducer

/-- The command processor passes a character on or takes it away. -/
theorem ShellMode.passed_of_step {mode next : ShellMode} {c : Char} {passed : List Char}
    (h : mode.step c = .ok (passed, next)) : passed = [] ∨ passed = [c] := by
  rcases step_cases h with ⟨-, rfl, -⟩ | ⟨-, -, rfl, -⟩
  · exact .inl rfl
  · exact .inr rfl

/-- Where both readers are in a line. At its beginning an at sign does not count. -/
structure Reader where
  fresh : Bool
  shell : ShellMode
  runtime : Runtime
  deriving DecidableEq, Repr

namespace Reader

def start : Reader := ⟨true, .plain, .start⟩

/-- What one character yields, and the place behind it. -/
def step (reader : Reader) (c : Char) : Except Refusal (List Piece × Reader) :=
  if reader.fresh = true ∧ c = '@' then .ok ([], { reader with fresh := false })
  else
    (reader.shell.step c).map fun (passed, shell) ↦
      ((reader.runtime.advance passed).1, ⟨false, shell, (reader.runtime.advance passed).2⟩)

/-- Behind the beginning of a line the C runtime reads what the command processor passes on. -/
theorem advance_eq (shell : ShellMode) (runtime : Runtime) (text : List Char) :
    advance step ⟨false, shell, runtime⟩ text =
      (advance ShellMode.step shell text).map fun (passed, last) ↦
        ((runtime.advance passed).1, ⟨false, last, (runtime.advance passed).2⟩) := by
  induction text generalizing shell runtime with
  | nil => rfl
  | cons c rest ih =>
    cases hshell : shell.step c with
    | error refusal =>
      simp [advance, step, hshell, bind, Except.bind, Except.map]
    | ok result =>
      obtain ⟨passed, next⟩ := result
      have hstep : step ⟨false, shell, runtime⟩ c =
          .ok ((runtime.advance passed).1, ⟨false, next, (runtime.advance passed).2⟩) := by
        simp [step, hshell, Except.map]
      rw [advance_cons hstep, ih, advance_cons hshell]
      cases advance ShellMode.step next rest <;> simp [Except.map, Runtime.advance_append]

/-- Only an at sign is read differently at the beginning of a line. -/
theorem step_of_ne_at {c : Char} (hc : c ≠ '@') (fresh : Bool) (shell : ShellMode)
    (runtime : Runtime) : step ⟨fresh, shell, runtime⟩ c = step ⟨false, shell, runtime⟩ c := by
  simp [step, hc]

theorem advance_of_ne_at {text : List Char} (hnil : text ≠ [])
    (hat : ∀ rest, text ≠ '@' :: rest) (fresh : Bool) (shell : ShellMode) (runtime : Runtime) :
    advance step ⟨fresh, shell, runtime⟩ text = advance step ⟨false, shell, runtime⟩ text := by
  cases text with
  | nil => exact absurd rfl hnil
  | cons c rest =>
    have hc : c ≠ '@' := fun h ↦ hat rest (by rw [h])
    rw [advance, advance, step_of_ne_at hc]

/-- What the end of the line yields. -/
def finish (reader : Reader) : Except Refusal (List Piece) := reader.runtime.finish

/-- The words of a line, read by both readers at once. -/
theorem received_bind_arguments (line : List Char) :
    (received line >>= arguments) =
      advance step start line >>= fun result ↦
        result.2.finish.map fun ending ↦ Piece.words (result.1 ++ ending) := by
  have hbehind (line : List Char) :
      (receivedFrom .plain line >>= arguments) =
        advance step ⟨false, .plain, .start⟩ line >>= fun result ↦
          result.2.finish.map fun ending ↦ Piece.words (result.1 ++ ending) := by
    rw [ShellMode.receivedFrom_eq, advance_eq]
    cases advance ShellMode.step .plain line with
    | error refusal => rfl
    | ok result =>
      simp only [Except.map, bind, Except.bind, arguments_eq, Runtime.pieces, finish]
      cases (Runtime.start.advance result.1).2.finish <;> rfl
  cases line with
  | nil => rfl
  | cons c rest =>
    by_cases hc : c = '@'
    · subst hc
      have hstep : step start '@' = .ok ([], ⟨false, .plain, .start⟩) := rfl
      have hsame : advance step start ('@' :: rest) =
          advance step ⟨false, .plain, .start⟩ rest := by
        rw [advance_cons hstep]
        cases advance step ⟨false, .plain, .start⟩ rest <;> rfl
      rw [hsame]
      exact hbehind rest
    · have hsame : advance step start (c :: rest) =
          advance step ⟨false, .plain, .start⟩ (c :: rest) := by
        rw [advance, advance, start, step_of_ne_at hc]
      rw [hsame, received, dropEcho_of_head?_ne (by simpa using hc)]
      exact hbehind (c :: rest)

theorem exists_of_received_bind_arguments {line : List Char} {words : List Word}
    (h : (received line >>= arguments) = .ok words) :
    ∃ found last ending, advance step start line = .ok (found, last) ∧
      last.finish = .ok ending ∧ words = Piece.words (found ++ ending) := by
  rw [received_bind_arguments] at h
  cases hadvance : advance step start line with
  | error refusal =>
    rw [hadvance] at h
    cases h
  | ok result =>
    obtain ⟨found, last⟩ := result
    rw [hadvance] at h
    obtain ⟨ending, hending, rfl⟩ := exists_of_map_eq_ok h
    exact ⟨found, last, ending, rfl, hending, rfl⟩

/-- Behind the beginning of a line backslashes are only counted. -/
theorem advance_backslashes {shell : ShellMode} (hshell : shell ≠ .escaped) {quoting : Quoting}
    (hquoting : quoting ≠ .closed) (slashes count : Nat) :
    advance step ⟨false, shell, ⟨quoting, slashes⟩⟩ (backslashes count) =
      .ok ([], ⟨false, shell, ⟨quoting, slashes + count⟩⟩) := by
  have hpassed : advance ShellMode.step shell (backslashes count) =
      .ok (backslashes count, shell) := by
    cases shell with
    | plain =>
      refine ShellMode.advance_plain ?_
      simp only [Dialect.needsQuotes, backslashes, List.any_replicate]
      split <;> decide
    | escaped => exact absurd rfl hshell
    | quoted => exact ShellMode.advance_quoted (by simp [backslashes])
  have hsame : quoting.afterCharacter = quoting := by
    cases quoting with
    | closed => exact absurd rfl hquoting
    | outside | inside => rfl
  rw [advance_eq, hpassed]
  cases count with
  | zero => rfl
  | succ count =>
    simp only [Except.map]
    rw [Runtime.advance_backslashes, hsame]

/-- A character that is passed on. -/
theorem step_passed {shell : ShellMode} {c : Char} {next : ShellMode}
    (h : shell.step c = .ok ([c], next)) (runtime : Runtime) :
    step ⟨false, shell, runtime⟩ c =
      .ok ((runtime.step c).1, ⟨false, next, (runtime.step c).2⟩) := by
  simp [step, h, Except.map]

/-- A character that a word may hold without quotes belongs to a word wherever it stands. -/
theorem step_of_isQuoteWorthy_eq_false {c : Char} (hc : Dialect.windows.isQuoteWorthy c = false)
    (hat : c ≠ '@') (hbackslash : c ≠ '\\') {shell : ShellMode} (hshell : shell ≠ .escaped)
    (fresh : Bool) (runtime : Runtime) :
    step ⟨fresh, shell, runtime⟩ c =
      .ok (Piece.chars (backslashes runtime.slashes) ++ [.char c],
        ⟨false, shell, ⟨runtime.quoting.afterCharacter, 0⟩⟩) := by
  have hquote : c ≠ '"' := Dialect.ne_of_isQuoteWorthy hc (by decide)
  have hpassed : shell.step c = .ok ([c], shell) := by
    cases shell with
    | plain => exact ShellMode.step_plain hc
    | escaped => exact absurd rfl hshell
    | quoted => simp [ShellMode.step, hquote]
  rw [step_of_ne_at hat, step_passed hpassed, Runtime.step_character _ hbackslash hquote,
    Quoting.piece, isSeparator_eq_false hc]
  simp

/-- Behind a closing quote a text that needs no quotes reads as outside of quotes. -/
theorem advance_closed {text : List Char} (hnil : text ≠ [])
    (hplain : Dialect.windows.needsQuotes text = false) (slashes : Nat) :
    advance step ⟨false, .plain, ⟨.closed, slashes⟩⟩ text =
      advance step ⟨false, .plain, ⟨.outside, slashes⟩⟩ text := by
  cases text with
  | nil => exact absurd rfl hnil
  | cons c rest =>
    obtain ⟨hc, -⟩ := Dialect.needsQuotes_cons_eq_false.mp hplain
    have hquote : c ≠ '"' := Dialect.ne_of_isQuoteWorthy hc (by decide)
    have hsame : Runtime.step ⟨.closed, slashes⟩ c = Runtime.step ⟨.outside, slashes⟩ c := by
      simp [Runtime.step, hquote, Quoting.piece, Quoting.afterCharacter]
    rw [advance, advance, step_passed (ShellMode.step_plain hc),
      step_passed (ShellMode.step_plain hc), hsame]

/-! ### Values inside a quotation, or without quotes -/

/-- Pieces and the backslashes that are still to come spell a text. -/
structure Spells (found : List Piece) (slashes : Nat) (text : List Char) : Prop where
  gap : .gap ∉ found
  text_eq : Piece.text found ++ backslashes slashes = text

/-- Where a value can be written as for the inside of a quotation: there, or outside of quotes if it
needs none. -/
def Takes (shell : ShellMode) (quoting : Quoting) (value : List Char) : Prop :=
  (shell = .quoted ∧ quoting = .inside) ∨
    (shell = .plain ∧ quoting = .outside ∧ Dialect.windows.needsQuotes value = false)

/-- A value reads as it stands, but for the backslashes at its end. -/
theorem advance_quoteInside {shell : ShellMode} {quoting : Quoting} {value : List Char}
    (h : Takes shell quoting value) (pending : Nat) :
    ∃ found,
      advance step ⟨false, shell, ⟨quoting, pending⟩⟩ (quoteInside pending value).1 =
          .ok (found, ⟨false, shell, ⟨quoting, (quoteInside pending value).2⟩⟩) ∧
        Spells found (quoteInside pending value).2 (backslashes pending ++ value) := by
  have hsame : quoting.afterCharacter = quoting := by
    rcases h with ⟨-, rfl⟩ | ⟨-, rfl, -⟩ <;> rfl
  -- a character other than a quote is passed on and leaves both readers where they are
  have hpassed {c : Char} {rest : List Char} (h : Takes shell quoting (c :: rest))
      (hquote : c ≠ '"') : shell.step c = .ok ([c], shell) ∧ quoting.piece c = .char c ∧
        Takes shell quoting rest := by
    rcases h with ⟨rfl, rfl⟩ | ⟨rfl, rfl, hplain⟩
    · exact ⟨by simp [ShellMode.step, hquote], by simp [Quoting.piece], .inl ⟨rfl, rfl⟩⟩
    · obtain ⟨hc, hrest⟩ := Dialect.needsQuotes_cons_eq_false.mp hplain
      exact ⟨ShellMode.step_plain hc, by simp [Quoting.piece, isSeparator_eq_false hc],
        .inr ⟨rfl, rfl, hrest⟩⟩
  fun_induction quoteInside pending value with
  | case1 pending => exact ⟨[], rfl, ⟨by simp, by simp [Piece.text]⟩⟩
  | case2 pending rest behind ih =>
    obtain ⟨hshell, -, hrest⟩ := hpassed h (by decide)
    obtain ⟨found, hadvance, ⟨hgap, htext⟩⟩ := ih hrest
    have hstep := step_passed hshell ⟨quoting, pending⟩
    rw [Runtime.step_backslash, hsame] at hstep
    refine ⟨found, by simpa using advance_cons_of_ok hstep hadvance, ⟨hgap, ?_⟩⟩
    rw [htext]
    simp [backslashes_succ]
  | case3 pending rest behind ih =>
    rcases h with ⟨rfl, rfl⟩ | ⟨-, -, hplain⟩
    · obtain ⟨found, hadvance, ⟨hgap, htext⟩⟩ := ih (.inl ⟨rfl, rfl⟩)
      have hslashes : advance step ⟨false, .quoted, ⟨.inside, pending⟩⟩ (backslashes pending) =
          .ok ([], ⟨false, .quoted, ⟨.inside, pending + pending⟩⟩) :=
        advance_backslashes (by decide) (by decide) pending pending
      have heven : (pending + pending) % 2 = 0 := by omega
      have hhalf : (pending + pending) / 2 = pending := by omega
      -- the quote closes, is escaped for both readers, and opens again
      have hquote : advance step ⟨false, .quoted, ⟨.inside, pending + pending⟩⟩
          ['"', '\\', '^', '"', '"'] =
          .ok (Piece.chars (backslashes pending) ++ [.closing, .char '"', .opening],
            ⟨false, .quoted, ⟨.inside, 0⟩⟩) := by
        have hshell : ShellMode.step .quoted '"' = .ok (['"'], .plain) := rfl
        have hclosing := step_passed hshell ⟨.inside, pending + pending⟩
        rw [Runtime.step_quote_of_even heven, hhalf] at hclosing
        have hrest : advance step ⟨false, .plain, ⟨.closed, 0⟩⟩ ['\\', '^', '"', '"'] =
            .ok ([.char '"', .opening], ⟨false, .quoted, ⟨.inside, 0⟩⟩) := rfl
        simpa [Quoting.mark, Quoting.afterQuote] using advance_cons_of_ok hclosing hrest
      refine ⟨_, advance_append_of_ok (advance_append_of_ok hslashes hquote) hadvance,
        ⟨by simpa using hgap, ?_⟩⟩
      simpa [Piece.text] using htext
    · have hquote := (Dialect.needsQuotes_cons_eq_false.mp hplain).1
      exact absurd hquote (by decide)
  | case4 pending c rest hbackslash hquote behind ih =>
    obtain ⟨hshell, hpiece, hrest⟩ := hpassed h hquote
    obtain ⟨found, hadvance, ⟨hgap, htext⟩⟩ := ih hrest
    have hstep := step_passed hshell ⟨quoting, pending⟩
    rw [Runtime.step_character _ hbackslash hquote, hsame, hpiece] at hstep
    refine ⟨_, advance_cons_of_ok hstep hadvance, ⟨by simpa using hgap, ?_⟩⟩
    simpa [Piece.text] using htext

theorem quoteInside_ne_nil {value : List Char} (h : value ≠ []) (pending : Nat) :
    (quoteInside pending value).1 ≠ [] := by
  fun_cases quoteInside pending value <;> simp_all

/-- A value that needs no quotes is written as it is. -/
theorem quoteInside_of_needsQuotes_eq_false {value : List Char}
    (h : Dialect.windows.needsQuotes value = false) (pending : Nat) :
    (quoteInside pending value).1 = value := by
  fun_induction quoteInside pending value with
  | case1 => rfl
  | case2 pending rest behind ih => rw [ih (Dialect.needsQuotes_cons_eq_false.mp h).2]
  | case3 pending rest behind ih =>
    have hquote := (Dialect.needsQuotes_cons_eq_false.mp h).1
    exact absurd hquote (by decide)
  | case4 pending c rest hbackslash hquote behind ih =>
    rw [ih (Dialect.needsQuotes_cons_eq_false.mp h).2]

/-- No at sign is written in front of a value. -/
theorem quoteInside_ne_at {value : List Char} (h : value.head? ≠ some '@') (pending : Nat)
    (rest : List Char) : (quoteInside pending value).1 ≠ '@' :: rest := by
  fun_cases quoteInside pending value with
  | case1 => simp
  | case2 => simp
  | case3 => cases pending <;> simp [backslashes, List.replicate_succ]
  | case4 =>
    intro heq
    exact h (by simp [(List.cons.inj heq).1])

/-- Backslashes that have to be doubled are at the end of what is written. -/
theorem exists_of_quoteInside_ne_zero {value : List Char} (h : value ≠ []) (pending : Nat)
    (hslashes : (quoteInside pending value).2 ≠ 0) :
    ∃ before, (quoteInside pending value).1 = before ++ ['\\'] := by
  fun_induction quoteInside pending value with
  | case1 => exact absurd rfl h
  | case2 pending rest behind ih =>
    by_cases hrest : rest = []
    · subst hrest
      exact ⟨[], rfl⟩
    · obtain ⟨before, hbefore⟩ := ih hrest hslashes
      exact ⟨'\\' :: before, by rw [hbefore]; rfl⟩
  | case3 pending rest behind ih =>
    by_cases hrest : rest = []
    · subst hrest
      exact absurd rfl hslashes
    · obtain ⟨before, hbefore⟩ := ih hrest hslashes
      exact ⟨_, by rw [hbefore, ← List.append_assoc]⟩
  | case4 pending c rest hbackslash hquote behind ih =>
    by_cases hrest : rest = []
    · subst hrest
      exact absurd rfl hslashes
    · obtain ⟨before, hbefore⟩ := ih hrest hslashes
      exact ⟨c :: before, by rw [hbefore]; rfl⟩

/-- A value inside of an open quotation. -/
theorem advance_inQuotation {value : List Char} (hnil : value ≠ []) (hat : value.head? ≠ some '@')
    (fresh : Bool) (pending : Nat) :
    ∃ found,
      advance step ⟨fresh, .quoted, ⟨.inside, pending⟩⟩ (quoteInside pending value).1 =
          .ok (found, ⟨false, .quoted, ⟨.inside, (quoteInside pending value).2⟩⟩) ∧
        Spells found (quoteInside pending value).2 (backslashes pending ++ value) := by
  rw [advance_of_ne_at (quoteInside_ne_nil hnil pending) (quoteInside_ne_at hat pending)]
  exact advance_quoteInside (.inl ⟨rfl, rfl⟩) pending

/-- A value in a quotation of its own, which stays open. The backslashes in front of it are doubled,
since they stand in front of a quote. -/
theorem advance_ownQuotation (value : List Char) (fresh : Bool) (pending : Nat) :
    ∃ found,
      advance step ⟨fresh, .plain, ⟨.outside, pending⟩⟩
          (backslashes pending ++ '"' :: (quoteInside 0 value).1) =
          .ok (found, ⟨false, .quoted, ⟨.inside, (quoteInside 0 value).2⟩⟩) ∧
        Spells found (quoteInside 0 value).2 (backslashes pending ++ value) := by
  have hat (rest : List Char) :
      backslashes pending ++ '"' :: (quoteInside 0 value).1 ≠ '@' :: rest := by
    cases pending <;> simp [backslashes, List.replicate_succ]
  have hslashes : advance step ⟨false, .plain, ⟨.outside, pending⟩⟩ (backslashes pending) =
      .ok ([], ⟨false, .plain, ⟨.outside, pending + pending⟩⟩) :=
    advance_backslashes (by simp) (by simp) pending pending
  have hopening : step ⟨false, .plain, ⟨.outside, pending + pending⟩⟩ '"' =
      .ok (Piece.chars (backslashes pending) ++ [.opening], ⟨false, .quoted, ⟨.inside, 0⟩⟩) := by
    have hshell : ShellMode.plain.step '"' = .ok (['"'], .quoted) := rfl
    have heven : (pending + pending) % 2 = 0 := by omega
    have hhalf : (pending + pending) / 2 = pending := by omega
    rw [step_passed hshell, Runtime.step_quote_of_even heven, hhalf]
    rfl
  have hinside : Takes .quoted .inside value := .inl ⟨rfl, rfl⟩
  obtain ⟨found, hfound, ⟨hgap, htext⟩⟩ := advance_quoteInside hinside 0
  refine ⟨Piece.chars (backslashes pending) ++ [.opening] ++ found, ?_, ⟨by simpa using hgap, ?_⟩⟩
  · have hall := advance_append_of_ok hslashes (advance_cons_of_ok hopening hfound)
    rw [advance_of_ne_at (by simp) hat]
    exact hall
  · simpa [Piece.text] using htext

/-- A value outside of quotes. -/
theorem advance_unquoted {value : List Char} (hnil : value ≠ []) (hat : value.head? ≠ some '@')
    (hplain : Dialect.windows.needsQuotes value = false) {quoting : Quoting}
    (hquoting : quoting ≠ .inside) (fresh : Bool) (pending : Nat) :
    ∃ found,
      advance step ⟨fresh, .plain, ⟨quoting, pending⟩⟩ (quoteInside pending value).1 =
          .ok (found, ⟨false, .plain, ⟨.outside, (quoteInside pending value).2⟩⟩) ∧
        Spells found (quoteInside pending value).2 (backslashes pending ++ value) := by
  have houtside : advance step ⟨false, .plain, ⟨quoting, pending⟩⟩ (quoteInside pending value).1 =
      advance step ⟨false, .plain, ⟨.outside, pending⟩⟩ (quoteInside pending value).1 := by
    cases quoting with
    | outside => rfl
    | closed =>
      rw [quoteInside_of_needsQuotes_eq_false hplain]
      exact advance_closed hnil hplain pending
    | inside => exact absurd rfl hquoting
  rw [advance_of_ne_at (quoteInside_ne_nil hnil pending) (quoteInside_ne_at hat pending), houtside]
  exact advance_quoteInside (.inr ⟨rfl, rfl, hplain⟩) pending

/-- Every character that is read is one of the line, or a backslash or a quote. -/
theorem of_char_mem_step {reader next : Reader} {c : Char} {found : List Piece}
    (h : reader.step c = .ok (found, next)) {d : Char} (hd : .char d ∈ found) :
    d = c ∨ d = '\\' ∨ d = '"' := by
  have hslashes (count : Nat) (hd : Piece.char d ∈ Piece.chars (backslashes count)) : d = '\\' := by
    have hmem : d ∈ backslashes count := by simpa [Piece.chars] using hd
    exact List.eq_of_mem_replicate hmem
  have hruntime (runtime : Runtime) (e : Char) (hd : .char d ∈ (runtime.step e).1) :
      d = e ∨ d = '\\' ∨ d = '"' := by
    unfold Runtime.step at hd
    split at hd
    · cases hd
    · split at hd
      · rename_i hquote
        split at hd
        · rcases List.mem_append.mp hd with hd | hd
          · exact .inr (.inl (hslashes _ hd))
          · exact .inr (.inr (by simpa using hd))
        · rcases List.mem_append.mp hd with hd | hd
          · exact .inr (.inl (hslashes _ hd))
          · cases hquoting : runtime.quoting <;> simp_all [Quoting.mark]
      · rcases List.mem_append.mp hd with hd | hd
        · exact .inr (.inl (hslashes _ hd))
        · unfold Quoting.piece at hd
          split at hd <;> simp_all
  unfold step at h
  split at h
  · cases h
    cases hd
  · obtain ⟨⟨passed, shell⟩, hshell, heq⟩ := exists_of_map_eq_ok h
    cases heq
    rcases ShellMode.passed_of_step hshell with rfl | rfl
    · cases hd
    · exact hruntime reader.runtime c (by simpa using hd)

theorem of_char_mem_advance {reader last : Reader} {line : List Char} {found : List Piece}
    (h : advance step reader line = .ok (found, last)) {d : Char} (hd : .char d ∈ found) :
    d ∈ line ∨ d = '\\' ∨ d = '"' := by
  induction line generalizing reader found with
  | nil =>
    cases h
    cases hd
  | cons c rest ih =>
    obtain ⟨here, next, behind, hstep, hrest, rfl⟩ := exists_of_advance_cons h
    rcases List.mem_append.mp hd with hd | hd
    · rcases of_char_mem_step hstep hd with rfl | hother
      · exact .inl List.mem_cons_self
      · exact .inr hother
    · rcases ih hrest hd with hmem | hother
      · exact .inl (List.mem_cons_of_mem _ hmem)
      · exact .inr hother

/-- The end of a line yields backslashes alone. -/
theorem eq_backslash_of_mem_finish {reader : Reader} {ending : List Piece}
    (h : reader.finish = .ok ending) {c : Char} (hc : .char c ∈ ending) : c = '\\' := by
  unfold finish Runtime.finish at h
  split at h
  · cases h
  · cases h
    have hmem : c ∈ backslashes reader.runtime.slashes := by simpa [Piece.chars] using hc
    exact List.eq_of_mem_replicate hmem

end Reader

end CommandLine.Windows
