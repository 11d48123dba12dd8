import CommandLine.Proofs.CharClass
import CommandLine.Proofs.Transducer
import CommandLine.Proofs.Words
import CommandLine.Windows.Split

/-!
The two readers of a line on Windows, one character at a time. The command processor passes on what
the program receives. In the C runtime's reading, whether a double quote is literal because it is
the second of two inside a quotation is told from the quote before it, where `argumentPieces` looks
at the quote behind it; both ways find the same pieces (`argumentPieces_eq`).
-/

set_option autoImplicit false

namespace CommandLine.Windows

open Transducer

@[simp] theorem backslashes_zero : backslashes 0 = [] := rfl

theorem backslashes_succ (count : Nat) : backslashes (count + 1) = backslashes count ++ ['\\'] :=
  List.replicate_succ'

theorem backslashes_add (first second : Nat) :
    backslashes (first + second) = backslashes first ++ backslashes second :=
  List.replicate_append_replicate.symm

@[simp] theorem reverse_backslashes (count : Nat) :
    (backslashes count).reverse = backslashes count :=
  List.reverse_replicate ..

/-- A word that is written without quotes is not separated. -/
theorem isSeparator_eq_false {c : Char} (h : Dialect.windows.isQuoteWorthy c = false) :
    isSeparator c = false := by
  have hspace : c ≠ ' ' := Dialect.ne_of_isQuoteWorthy h (by decide)
  have htab : c ≠ '\t' := Dialect.ne_of_isQuoteWorthy h (by decide)
  simp [isSeparator, hspace, htab]

/-! ### The command processor -/

namespace ShellMode

/-- What the command processor passes on of a character, and its mode behind it. -/
def step : ShellMode → Char → Except Refusal (List Char × ShellMode)
  | plain, c =>
    if c = '^' then .ok ([], escaped)
    else if c = '"' then .ok ([c], quoted)
    else if Dialect.windows.isMeta c then .error .foundMeta
    else .ok ([c], plain)
  | escaped, c => .ok ([c], plain)
  | quoted, c => .ok ([c], if c = '"' then plain else quoted)

/-- A character that the command processor neither takes away nor refuses is passed on. -/
theorem step_eq_passed {mode : ShellMode} {c : Char} (hcircumflex : ¬(mode = .plain ∧ c = '^'))
    (hmeta : ¬(mode = .plain ∧ Dialect.windows.isMeta c = true)) :
    mode.step c = .ok ([c], mode.after c) := by
  cases mode with
  | plain =>
    simp only [true_and] at hcircumflex hmeta
    simp only [step, after, if_neg hcircumflex, if_neg hmeta]
    split <;> rfl
  | escaped | quoted => rfl

/-- A circumflex outside of quotations is taken away, every other character is passed on or
refused. -/
theorem step_cases {mode next : ShellMode} {c : Char} {passed : List Char}
    (h : mode.step c = .ok (passed, next)) :
    ((mode = .plain ∧ c = '^') ∧ passed = [] ∧ next = .escaped) ∨
      (¬(mode = .plain ∧ c = '^') ∧ ¬(mode = .plain ∧ Dialect.windows.isMeta c = true) ∧
        passed = [c] ∧ next = mode.after c) := by
  by_cases hcircumflex : mode = .plain ∧ c = '^'
  · obtain ⟨rfl, rfl⟩ := hcircumflex
    cases h
    exact .inl ⟨⟨rfl, rfl⟩, rfl, rfl⟩
  · have hmeta : ¬(mode = .plain ∧ Dialect.windows.isMeta c = true) := by
      rintro ⟨rfl, hmeta⟩
      have hquote : c ≠ '"' := by
        rintro rfl
        exact absurd hmeta (by decide)
      simp_all [step]
    rw [step_eq_passed hcircumflex hmeta] at h
    cases h
    exact .inr ⟨hcircumflex, hmeta, rfl, rfl⟩

/-- What the command processor passes on is what the program receives. -/
theorem receivedFrom_eq (mode : ShellMode) (line : List Char) :
    receivedFrom mode line = (advance step mode line).map Prod.fst := by
  fun_induction receivedFrom mode line with
  | case1 mode => rfl
  | case2 rest ih =>
    have hstep : plain.step '^' = .ok ([], escaped) := rfl
    rw [advance_cons hstep, ih]
    cases advance step escaped rest <;> rfl
  | case3 rest _ ih =>
    have hstep : plain.step '"' = .ok (['"'], quoted) := rfl
    rw [advance_cons hstep, ih]
    cases advance step quoted rest <;> rfl
  | case4 c rest hcircumflex hquote hmeta =>
    simp [advance, step, hcircumflex, hquote, hmeta, bind, Except.bind, Except.map]
  | case5 c rest hcircumflex hquote hmeta ih =>
    have hstep : plain.step c = .ok ([c], plain) := by simp [step, hcircumflex, hquote, hmeta]
    rw [advance_cons hstep, ih]
    cases advance step plain rest <;> rfl
  | case6 c rest ih =>
    have hstep : escaped.step c = .ok ([c], plain) := rfl
    rw [advance_cons hstep, ih]
    cases advance step plain rest <;> rfl
  | case7 c rest ih =>
    have hstep : quoted.step c = .ok ([c], if c = '"' then plain else quoted) := rfl
    rw [advance_cons hstep, ih]
    cases advance step (if c = '"' then plain else quoted) rest <;> rfl

/-- Between quotes everything but a quote is passed on. -/
theorem advance_quoted {text : List Char} (h : '"' ∉ text) :
    advance step quoted text = .ok (text, quoted) := by
  induction text with
  | nil => rfl
  | cons c rest ih =>
    simp only [List.mem_cons, not_or] at h
    have hstep : quoted.step c = .ok ([c], quoted) := by simp [step, Ne.symm h.1]
    exact advance_cons_of_ok hstep (ih h.2)

/-- A character that is not quote-worthy is passed on. -/
theorem step_plain {c : Char} (h : Dialect.windows.isQuoteWorthy c = false) :
    plain.step c = .ok ([c], plain) := by
  have hmeta : Dialect.windows.isMeta c = false := Dialect.isMeta_eq_false h
  have hcircumflex : c ≠ '^' := Dialect.ne_of_isQuoteWorthy h (by decide)
  have hquote : c ≠ '"' := Dialect.ne_of_isQuoteWorthy h (by decide)
  simp [step, hcircumflex, hquote, hmeta]

/-- A text without quote-worthy characters is passed on. -/
theorem advance_plain {text : List Char} (h : Dialect.windows.needsQuotes text = false) :
    advance step plain text = .ok (text, plain) := by
  induction text with
  | nil => rfl
  | cons c rest ih =>
    obtain ⟨hc, hrest⟩ := Dialect.needsQuotes_cons_eq_false.mp h
    exact advance_cons_of_ok (step_plain hc) (ih hrest)

/-- The command processor takes nothing away but circumflexes. -/
theorem count_advance {c : Char} (hc : c ≠ '^') {mode last : ShellMode} {text passed : List Char}
    (h : advance step mode text = .ok (passed, last)) : passed.count c = text.count c := by
  induction text generalizing mode passed with
  | nil =>
    cases h
    rfl
  | cons d rest ih =>
    obtain ⟨here, next, behind, hstep, hrest, rfl⟩ := exists_of_advance_cons h
    have hhere : here.count c = [d].count c := by
      rcases step_cases hstep with ⟨⟨-, rfl⟩, rfl, -⟩ | ⟨-, -, rfl, -⟩
      · simp [Ne.symm hc]
      · rfl
    rw [List.count_append, hhere, ih hrest, ← List.count_append, List.singleton_append]

end ShellMode

/-! ### The C runtime -/

/-- Where a character stands with regard to quotations. -/
inductive Quoting
  | outside
  /-- Right behind a quote that closed a quotation. -/
  | closed
  | inside
  deriving DecidableEq, Repr

namespace Quoting

/-- The place behind a character that is no quote of a quotation. -/
def afterCharacter : Quoting → Quoting
  | inside => inside
  | outside | closed => outside

/-- The place behind a quote that opens or closes, or that doubles the one before it. -/
def afterQuote : Quoting → Quoting
  | outside => inside
  | inside => closed
  | closed => outside

/-- What a quote with an even run of backslashes in front of it is. -/
def mark : Quoting → Piece
  | outside => .opening
  | inside => .closing
  | closed => .char '"'

/-- What a character other than a quote or a backslash is. -/
def piece (quoting : Quoting) (c : Char) : Piece :=
  if quoting ≠ inside ∧ isSeparator c then .gap else .char c

end Quoting

/-- Where the C runtime is in a line: with regard to quotations, and behind how many backslashes. -/
structure Runtime where
  quoting : Quoting
  slashes : Nat
  deriving DecidableEq, Repr

namespace Runtime

/-- Between words, or in a word outside of quotes. -/
def start : Runtime := ⟨.outside, 0⟩

/-- What one character yields, and the place behind it. -/
def step (runtime : Runtime) (c : Char) : List Piece × Runtime :=
  if c = '\\' then ([], ⟨runtime.quoting.afterCharacter, runtime.slashes + 1⟩)
  else if c = '"' then
    if runtime.slashes % 2 = 1 then
      (Piece.chars (backslashes (runtime.slashes / 2)) ++ [.char '"'],
        ⟨runtime.quoting.afterCharacter, 0⟩)
    else
      (Piece.chars (backslashes (runtime.slashes / 2)) ++ [runtime.quoting.mark],
        ⟨runtime.quoting.afterQuote, 0⟩)
  else
    (Piece.chars (backslashes runtime.slashes) ++ [runtime.quoting.piece c],
      ⟨runtime.quoting.afterCharacter, 0⟩)

/-- What a part of a line yields, and the place behind it. -/
def advance (runtime : Runtime) : List Char → List Piece × Runtime
  | [] => ([], runtime)
  | c :: rest =>
    let here := runtime.step c
    let behind := here.2.advance rest
    (here.1 ++ behind.1, behind.2)

/-- What the end of the line yields. -/
def finish (runtime : Runtime) : Except Refusal (List Piece) :=
  if runtime.quoting = .inside then .error .badQuoting
  else .ok (Piece.chars (backslashes runtime.slashes))

/-- The pieces of a line from a place on. -/
def pieces (runtime : Runtime) (line : List Char) : Except Refusal (List Piece) :=
  (runtime.advance line).2.finish.map ((runtime.advance line).1 ++ ·)

theorem step_backslash (runtime : Runtime) :
    runtime.step '\\' = ([], ⟨runtime.quoting.afterCharacter, runtime.slashes + 1⟩) := rfl

/-- Behind an odd run of backslashes a quote is literal. -/
theorem step_quote_of_odd {runtime : Runtime} (hodd : runtime.slashes % 2 = 1) :
    runtime.step '"' =
      (Piece.chars (backslashes (runtime.slashes / 2)) ++ [.char '"'],
        ⟨runtime.quoting.afterCharacter, 0⟩) := by
  simp [step, hodd]

/-- Behind an even run of backslashes a quote opens, closes or doubles the one before it. -/
theorem step_quote_of_even {runtime : Runtime} (heven : runtime.slashes % 2 = 0) :
    runtime.step '"' =
      (Piece.chars (backslashes (runtime.slashes / 2)) ++ [runtime.quoting.mark],
        ⟨runtime.quoting.afterQuote, 0⟩) := by
  simp [step, heven]

/-- In front of any other character backslashes are literal. -/
theorem step_character (runtime : Runtime) {c : Char} (hbackslash : c ≠ '\\') (hquote : c ≠ '"') :
    runtime.step c =
      (Piece.chars (backslashes runtime.slashes) ++ [runtime.quoting.piece c],
        ⟨runtime.quoting.afterCharacter, 0⟩) := by
  rw [step, if_neg hbackslash, if_neg hquote]

@[simp] theorem advance_nil (runtime : Runtime) : runtime.advance [] = ([], runtime) := rfl

@[simp] theorem advance_cons (runtime : Runtime) (c : Char) (rest : List Char) :
    runtime.advance (c :: rest) =
      ((runtime.step c).1 ++ ((runtime.step c).2.advance rest).1,
        ((runtime.step c).2.advance rest).2) := rfl

theorem advance_append (runtime : Runtime) (first second : List Char) :
    runtime.advance (first ++ second) =
      ((runtime.advance first).1 ++ ((runtime.advance first).2.advance second).1,
        ((runtime.advance first).2.advance second).2) := by
  induction first generalizing runtime with
  | nil => rfl
  | cons c rest ih => simp [ih]

theorem pieces_append (runtime : Runtime) (first second : List Char) :
    runtime.pieces (first ++ second) =
      ((runtime.advance first).2.pieces second).map ((runtime.advance first).1 ++ ·) := by
  simp only [pieces, advance_append]
  cases ((runtime.advance first).2.advance second).2.finish <;> simp [Except.map]

theorem pieces_cons (runtime : Runtime) (c : Char) (rest : List Char) :
    runtime.pieces (c :: rest) =
      ((runtime.step c).2.pieces rest).map ((runtime.step c).1 ++ ·) := by
  have h := pieces_append runtime [c] rest
  simpa using h

/-- Right behind a closing quote only a further quote makes a difference. -/
theorem pieces_closed {rest : List Char} (hrest : ∀ tail, rest ≠ '"' :: tail) :
    (Runtime.mk .closed 0).pieces rest = start.pieces rest := by
  cases rest with
  | nil => rfl
  | cons c tail =>
    have hc : c ≠ '"' := fun h ↦ hrest tail (by rw [h])
    have hstep : (Runtime.mk .closed 0).step c = start.step c := by
      simp [step, start, hc, Quoting.piece, Quoting.afterCharacter]
    rw [pieces_cons, pieces_cons, hstep]

/-- The place that a quotation or its absence and a run of backslashes make. -/
def behind (quoted : Bool) (slashes : Nat) : Runtime :=
  ⟨if quoted then .inside else .outside, slashes⟩

end Runtime

/-- Looking back finds the pieces that looking ahead finds. -/
theorem argumentPieces_eq (quoted : Bool) (pending : Nat) (line : List Char) :
    argumentPieces quoted pending line = (Runtime.behind quoted pending).pieces line := by
  fun_induction argumentPieces quoted pending line with
  | case1 pending => rfl
  | case2 quoted pending hquoted =>
    simp [Runtime.behind, Runtime.pieces, Runtime.finish, hquoted, Except.map]
  | case3 quoted pending rest ih =>
    have hstep : (Runtime.behind quoted pending).step '\\' =
        ([], Runtime.behind quoted (pending + 1)) := by
      cases quoted <;> rfl
    rw [ih, Runtime.pieces_cons, hstep]
    cases (Runtime.behind quoted (pending + 1)).pieces rest <;> rfl
  | case4 quoted pending rest hodd ih =>
    rw [ih, Runtime.pieces_cons, Runtime.step_quote_of_odd hodd]
    cases quoted <;> simp [Runtime.behind, Quoting.afterCharacter]
  | case5 pending heven rest ih =>
    -- the second of two quotes is literal, and the quotation is closed behind both
    have hsecond : (Runtime.mk .closed 0).step '"' = ([.char '"'], Runtime.behind false 0) := rfl
    rw [ih, Runtime.pieces_cons, Runtime.step_quote_of_even (by simpa [Runtime.behind] using heven)]
    change _ = ((Runtime.mk .closed 0).pieces ('"' :: rest)).map _
    rw [Runtime.pieces_cons, hsecond]
    cases (Runtime.behind false 0).pieces rest <;>
      simp [Except.map, Runtime.behind, Quoting.mark]
  | case6 pending heven rest hrest ih =>
    rw [ih, Runtime.pieces_cons, Runtime.step_quote_of_even (by simpa [Runtime.behind] using heven)]
    change _ = ((Runtime.mk .closed 0).pieces rest).map _
    rw [Runtime.pieces_closed hrest]
    simp [Runtime.behind, Runtime.start, Quoting.mark]
  | case7 quoted pending rest heven hquoted ih =>
    rw [Bool.not_eq_true] at hquoted
    subst hquoted
    rw [ih, Runtime.pieces_cons, Runtime.step_quote_of_even (by simpa [Runtime.behind] using heven)]
    simp [Runtime.behind, Quoting.mark, Quoting.afterQuote]
  | case8 quoted pending c rest hbackslash hquote ih =>
    rw [ih, Runtime.pieces_cons, Runtime.step_character _ hbackslash hquote]
    cases quoted <;> simp [Runtime.behind, Quoting.piece, Quoting.afterCharacter]

namespace Runtime

@[simp] theorem afterCharacter_afterCharacter (quoting : Quoting) :
    quoting.afterCharacter.afterCharacter = quoting.afterCharacter := by
  cases quoting <;> rfl

/-- Backslashes are only counted. -/
theorem advance_backslashes (runtime : Runtime) (count : Nat) :
    runtime.advance (backslashes (count + 1)) =
      ([], ⟨runtime.quoting.afterCharacter, runtime.slashes + (count + 1)⟩) := by
  induction count generalizing runtime with
  | zero => rfl
  | succ count ih =>
    have hcons : backslashes (count + 1 + 1) = '\\' :: backslashes (count + 1) := rfl
    rw [hcons, advance_cons, step_backslash, ih]
    simp only [afterCharacter_afterCharacter, List.append_nil, Prod.mk.injEq, Runtime.mk.injEq,
      true_and]
    omega

/-- A text without quotes reads as it stands where its separators do not count; the backslashes at
its end are still to come. -/
theorem advance_literal (runtime : Runtime) {text : List Char} (hquote : '"' ∉ text)
    (hseparator : runtime.quoting ≠ .inside → ∀ c ∈ text, isSeparator c = false) :
    ∃ found slashes,
      runtime.advance text =
        (found, ⟨if text = [] then runtime.quoting else runtime.quoting.afterCharacter, slashes⟩) ∧
      .gap ∉ found ∧
      Piece.text found ++ backslashes slashes = backslashes runtime.slashes ++ text := by
  induction text generalizing runtime with
  | nil => exact ⟨[], runtime.slashes, rfl, by simp, by simp [Piece.text]⟩
  | cons c rest ih =>
    simp only [List.mem_cons, not_or] at hquote
    have hinside : runtime.quoting.afterCharacter ≠ .inside → runtime.quoting ≠ .inside := by
      intro h heq
      exact h (by rw [heq]; rfl)
    have hrest (next : Runtime) (h : next.quoting = runtime.quoting.afterCharacter) :
        next.quoting ≠ .inside → ∀ d ∈ rest, isSeparator d = false := fun hne d hd ↦
      hseparator (hinside (by rwa [h] at hne)) d (List.mem_cons_of_mem c hd)
    by_cases hbackslash : c = '\\'
    · subst hbackslash
      obtain ⟨found, slashes, hadvance, hgap, htext⟩ :=
        ih ⟨runtime.quoting.afterCharacter, runtime.slashes + 1⟩ hquote.2 (hrest _ rfl)
      refine ⟨found, slashes, ?_, hgap, ?_⟩
      · rw [advance_cons, step_backslash, hadvance]
        simp
      · rw [htext]
        simp [backslashes_succ]
    · obtain ⟨found, slashes, hadvance, hgap, htext⟩ :=
        ih ⟨runtime.quoting.afterCharacter, 0⟩ hquote.2 (hrest _ rfl)
      have hpiece : runtime.quoting.piece c = .char c := by
        by_cases h : runtime.quoting = .inside
        · simp [Quoting.piece, h]
        · simp [Quoting.piece, hseparator h c List.mem_cons_self]
      refine ⟨Piece.chars (backslashes runtime.slashes) ++ [.char c] ++ found, slashes, ?_, ?_, ?_⟩
      · rw [advance_cons, step_character runtime hbackslash (Ne.symm hquote.1), hadvance, hpiece]
        simp
      · simpa using hgap
      · have htext' : Piece.text found ++ backslashes slashes = rest := by simpa using htext
        simp [Piece.text, htext']

/-- The C runtime keeps every character but quotes, backslashes and separators. -/
theorem count_text_advance (runtime : Runtime) {c : Char} (hquote : c ≠ '"')
    (hbackslash : c ≠ '\\') (hseparator : isSeparator c = false) (line : List Char) :
    (Piece.text (runtime.advance line).1).count c = line.count c := by
  have hslashes (count : Nat) : (backslashes count).count c = 0 := by
    simp [backslashes, List.count_replicate, Ne.symm hbackslash]
  have hstep (runtime : Runtime) (d : Char) :
      (Piece.text (runtime.step d).1).count c = [d].count c := by
    by_cases hd : d = '\\'
    · subst hd
      simp [step_backslash, Piece.text, Ne.symm hbackslash]
    · by_cases hdquote : d = '"'
      · subst hdquote
        rcases Nat.mod_two_eq_zero_or_one runtime.slashes with heven | hodd
        · rw [step_quote_of_even heven]
          cases runtime.quoting <;> simp [Piece.text, Quoting.mark, hslashes, Ne.symm hquote]
        · rw [step_quote_of_odd hodd]
          simp [Piece.text, hslashes]
      · rw [step_character runtime hd hdquote]
        by_cases hdc : d = c
        · simp [hdc, hslashes, Quoting.piece, hseparator, Piece.text]
        · unfold Quoting.piece
          split <;> simp [hslashes, Piece.text, hdc]
  induction line generalizing runtime with
  | nil => rfl
  | cons d rest ih =>
    rw [advance_cons, Piece.text_append, List.count_append, hstep, ih, ← List.count_append,
      List.singleton_append]

end Runtime

/-- The words of a line, read one character at a time. -/
theorem arguments_eq (line : List Char) :
    arguments line = (Runtime.start.pieces line).map Piece.words := by
  rw [arguments, argumentPieces_eq]
  rfl

/-- The words of a line hold all its characters but quotes, backslashes and separators. -/
theorem count_of_arguments {line : List Char} {words : List Word} (h : arguments line = .ok words)
    {c : Char} (hquote : c ≠ '"') (hbackslash : c ≠ '\\') (hseparator : isSeparator c = false) :
    words.flatten.count c = line.count c := by
  rw [arguments_eq, Runtime.pieces, Runtime.finish] at h
  split at h
  · cases h
  · cases h
    rw [Piece.flatten_words, Piece.text_append, List.count_append,
      Runtime.count_text_advance _ hquote hbackslash hseparator]
    simp [backslashes, List.count_replicate, Ne.symm hbackslash]

/-! ### The whole line -/

/-- A line without an at sign at its beginning is read as it stands. -/
theorem dropEcho_of_head?_ne {line : List Char} (h : line.head? ≠ some '@') :
    dropEcho line = line := by
  unfold dropEcho
  split
  · exact absurd rfl h
  · rfl

/-- Without an environment a strict split refuses percent signs. -/
theorem split_strict_eq (directory : Option (List Char)) (home line : List Char) :
    split true ⟨none, directory, home⟩ line =
      if '%' ∈ line then .error .foundMeta else received line >>= arguments := by
  by_cases h : '%' ∈ line <;> simp [split, prepare, expanded, h, bind, Except.bind]

/-- The words of a line hold all its characters but those that have a meaning for a reader. -/
theorem count_of_received_bind_arguments {line : List Char} {words : List Word}
    (h : (received line >>= arguments) = .ok words) {c : Char} (hat : c ≠ '@')
    (hcircumflex : c ≠ '^') (hquote : c ≠ '"') (hbackslash : c ≠ '\\')
    (hseparator : isSeparator c = false) : words.flatten.count c = line.count c := by
  rw [received, ShellMode.receivedFrom_eq] at h
  cases hadvance : advance ShellMode.step .plain (dropEcho line) with
  | error refusal =>
    rw [hadvance] at h
    cases h
  | ok result =>
    obtain ⟨passed, last⟩ := result
    rw [hadvance] at h
    have harguments : arguments passed = .ok words := h
    have hdrop : (dropEcho line).count c = line.count c := by
      unfold dropEcho
      split
      · exact (List.count_cons_of_ne (Ne.symm hat)).symm
      · rfl
    rw [count_of_arguments harguments hquote hbackslash hseparator,
      ShellMode.count_advance hcircumflex hadvance, hdrop]

end CommandLine.Windows
