import CommandLine.Proofs.Line
import CommandLine.Proofs.Windows.Reading
import Mathlib.Data.List.Basic

/-!
What a joined line of the Windows dialect splits into. The command processor takes the circumflexes
of the quoter away and passes the words on in a form that the C runtime reads back. Where the
command processor does not read the line, the circumflexes stay, so that only words without double
quotes come back.
-/

set_option autoImplicit false

namespace CommandLine.Windows

open Transducer

/-! ### What the command processor passes on -/

/-- The inside of a quoted word, behind a run of `pending` backslashes, as the C runtime receives
it. -/
def passedInside (pending : Nat) : List Char → List Char
  | [] => []
  | '\\' :: rest => passedInside (pending + 1) rest
  | '"' :: rest => '"' :: backslashes (2 * pending + 1) ++ ['"', '"'] ++ passedInside 0 rest
  | c :: rest => backslashes pending ++ c :: passedInside 0 rest

/-- A written word as the C runtime receives it. -/
def passed (word : Word) : List Char :=
  if word.isEmpty || Dialect.windows.needsQuotes word then
    '"' :: passedInside 0 word ++ '"' :: backslashes (escaped 0 word).2
  else word

theorem quote_eq (word : Word) :
    quote word =
      if word.isEmpty || Dialect.windows.needsQuotes word then
        '"' :: (escaped 0 word).1 ++ '"' :: backslashes (escaped 0 word).2
      else word := by
  cases word with
  | nil => rfl
  | cons c rest => simp [quote]

theorem quote_notMem_backslashes (count : Nat) : '"' ∉ backslashes count := by
  simp [backslashes]

theorem needsQuotes_backslashes (count : Nat) :
    Dialect.windows.needsQuotes (backslashes count) = false := by
  have hbackslash : Dialect.windows.isQuoteWorthy '\\' = false := by decide
  simp [Dialect.needsQuotes, backslashes, hbackslash]

/-- A quote inside a word closes the command processor's quotation, which opens again behind it. -/
theorem advance_escaped (pending : Nat) (word : Word) :
    advance ShellMode.step .quoted (escaped pending word).1 =
      .ok (passedInside pending word, .quoted) := by
  fun_induction escaped pending word with
  | case1 pending => rfl
  | case2 pending rest ih => exact ih
  | case3 pending rest inside ih =>
    have hclosing : ShellMode.step .quoted '"' = .ok (['"'], .plain) := rfl
    have hslashes := ShellMode.advance_plain (needsQuotes_backslashes (2 * pending))
    have hquote : advance ShellMode.step .plain ['\\', '^', '"', '"'] =
        .ok (['\\', '"', '"'], .quoted) := rfl
    have hall := advance_cons_of_ok hclosing
      (advance_append_of_ok (advance_append_of_ok hslashes hquote) ih)
    have htext : backslashes (2 * pending) ++ ['\\', '"', '"'] =
        backslashes (2 * pending + 1) ++ ['"', '"'] := by
      simp [backslashes_succ]
    rw [passedInside]
    simpa [htext] using hall
  | case4 pending c rest hbackslash hquote inside ih =>
    have hmem : '"' ∉ backslashes pending ++ [c] := by
      simpa [quote_notMem_backslashes] using Ne.symm hquote
    have hall := advance_append_of_ok (ShellMode.advance_quoted hmem) ih
    have hinside : passedInside pending (c :: rest) =
        backslashes pending ++ c :: passedInside 0 rest := by
      rw [passedInside] <;> assumption
    simpa [hinside] using hall

/-- The command processor passes every written word on without its circumflexes. -/
theorem advance_quote (word : Word) :
    advance ShellMode.step .plain (quote word) = .ok (passed word, .plain) := by
  rw [quote_eq, passed]
  split
  · have hopening : ShellMode.step .plain '"' = .ok (['"'], .quoted) := rfl
    have hclosing : ShellMode.step .quoted '"' = .ok (['"'], .plain) := rfl
    have hslashes := ShellMode.advance_plain (needsQuotes_backslashes (escaped 0 word).2)
    exact advance_append_of_ok (advance_cons_of_ok hopening (advance_escaped 0 word))
      (advance_cons_of_ok hclosing hslashes)
  · rename_i hplain
    simp only [Bool.or_eq_true, not_or, Bool.not_eq_true] at hplain
    exact ShellMode.advance_plain hplain.2

/-- A word without quotes is written in the form that the C runtime reads. -/
theorem escaped_eq_passedInside (pending : Nat) {word : Word} (hword : '"' ∉ word) :
    (escaped pending word).1 = passedInside pending word := by
  fun_induction escaped pending word with
  | case1 pending => rfl
  | case2 pending rest ih => exact ih fun h ↦ hword (List.mem_cons_of_mem _ h)
  | case3 pending rest inside ih => simp at hword
  | case4 pending c rest hbackslash hquote inside ih =>
    have hinside : passedInside pending (c :: rest) =
        backslashes pending ++ c :: passedInside 0 rest := by
      rw [passedInside] <;> assumption
    rw [hinside, ← ih fun h ↦ hword (List.mem_cons_of_mem _ h)]

theorem quote_eq_passed {word : Word} (hword : '"' ∉ word) : quote word = passed word := by
  rw [quote_eq, passed, escaped_eq_passedInside 0 hword]

/-! ### What the C runtime makes of it -/

/-- The inside of a quoted word reads as the word without the backslashes at its end. -/
theorem advance_passedInside (pending : Nat) (word : Word) :
    ∃ found,
      (Runtime.mk .inside 0).advance (passedInside pending word) = (found, ⟨.inside, 0⟩) ∧
      .gap ∉ found ∧
      Piece.text found ++ backslashes (escaped pending word).2 = backslashes pending ++ word := by
  fun_induction escaped pending word with
  | case1 pending => exact ⟨[], rfl, by simp, by simp [Piece.text]⟩
  | case2 pending rest ih =>
    obtain ⟨found, hfound, hgap, htext⟩ := ih
    refine ⟨found, hfound, hgap, ?_⟩
    rw [htext]
    simp [backslashes_succ]
  | case3 pending rest inside ih =>
    obtain ⟨found, hfound, hgap, htext⟩ := ih
    have hodd : (2 * pending + 1) % 2 = 1 := by omega
    have hhalf : (2 * pending + 1) / 2 = pending := by omega
    refine ⟨.closing :: (Piece.chars (backslashes pending) ++ [.char '"', .opening] ++ found), ?_,
      by simpa using hgap, ?_⟩
    · have hsuspended : (Runtime.mk .inside 0).advance
          ('"' :: backslashes (2 * pending + 1) ++ ['"', '"']) =
          (.closing :: (Piece.chars (backslashes pending) ++ [.char '"', .opening]),
            ⟨.inside, 0⟩) := by
        have hclosing : (Runtime.mk .inside 0).step '"' = ([.closing], ⟨.closed, 0⟩) := rfl
        have hopening : (Runtime.mk .outside 0).step '"' = ([.opening], ⟨.inside, 0⟩) := rfl
        have hliteral : (Runtime.mk .outside (2 * pending + 1)).step '"' =
            (Piece.chars (backslashes pending) ++ [.char '"'], ⟨.outside, 0⟩) := by
          rw [Runtime.step_quote_of_odd hodd, hhalf]
          rfl
        rw [List.cons_append, Runtime.advance_cons, hclosing, Runtime.advance_append,
          Runtime.advance_backslashes]
        simp [hliteral, hopening, Quoting.afterCharacter]
      rw [passedInside, Runtime.advance_append, hsuspended, hfound]
      simp
    · have htext' : Piece.text found ++ backslashes (escaped 0 rest).2 = rest := by
        simpa using htext
      simp [Piece.text, inside, htext']
  | case4 pending c rest hbackslash hquote inside ih =>
    obtain ⟨found, hfound, hgap, htext⟩ := ih
    have hinside : passedInside pending (c :: rest) =
        backslashes pending ++ [c] ++ passedInside 0 rest := by
      rw [passedInside] <;> first | assumption | simp
    have hfront : (Runtime.mk .inside 0).advance (backslashes pending ++ [c]) =
        (Piece.chars (backslashes pending) ++ [.char c], ⟨.inside, 0⟩) := by
      cases pending with
      | zero => simp [backslashes, Runtime.step_character _ hbackslash hquote, Quoting.piece,
          Quoting.afterCharacter, Piece.chars]
      | succ count =>
        rw [Runtime.advance_append, Runtime.advance_backslashes]
        simp [Runtime.step_character _ hbackslash hquote, Quoting.piece, Quoting.afterCharacter]
    refine ⟨Piece.chars (backslashes pending) ++ [.char c] ++ found, ?_, by simpa using hgap, ?_⟩
    · rw [hinside, Runtime.advance_append, hfront, hfound]
    · have htext' : Piece.text found ++ backslashes (escaped 0 rest).2 = rest := by
        simpa using htext
      simp [Piece.text, inside, htext']

/-- A written word reads as the word, some backslashes at its end being still to come. -/
theorem advance_passed (word : Word) :
    ∃ found quoting slashes,
      Runtime.start.advance (passed word) = (found, ⟨quoting, slashes⟩) ∧ quoting ≠ .inside ∧
      .gap ∉ found ∧ Piece.text found ++ backslashes slashes = word ∧
      (found ≠ [] ∨ slashes ≠ 0) := by
  unfold passed
  split
  · obtain ⟨found, hfound, hgap, htext⟩ := advance_passedInside 0 word
    have hopening : Runtime.start.step '"' = ([.opening], ⟨.inside, 0⟩) := rfl
    have hclosing : (Runtime.mk .inside 0).step '"' = ([.closing], ⟨.closed, 0⟩) := rfl
    have hfront : Runtime.start.advance ('"' :: passedInside 0 word ++ ['"']) =
        (.opening :: (found ++ [.closing]), ⟨.closed, 0⟩) := by
      rw [List.cons_append, Runtime.advance_cons, hopening, Runtime.advance_append, hfound]
      simp [hclosing]
    have hsplit : '"' :: passedInside 0 word ++ '"' :: backslashes (escaped 0 word).2 =
        ('"' :: passedInside 0 word ++ ['"']) ++ backslashes (escaped 0 word).2 := by simp
    have hword : Piece.text found ++ backslashes (escaped 0 word).2 = word := by simpa using htext
    rw [hsplit, Runtime.advance_append, hfront]
    have hbehind : ∃ quoting, quoting ≠ .inside ∧
        (Runtime.mk .closed 0).advance (backslashes (escaped 0 word).2) =
          ([], ⟨quoting, (escaped 0 word).2⟩) := by
      cases (escaped 0 word).2 with
      | zero => exact ⟨.closed, by decide, rfl⟩
      | succ count =>
        refine ⟨.outside, by decide, ?_⟩
        rw [Runtime.advance_backslashes, Nat.zero_add]
        rfl
    obtain ⟨quoting, hquoting, hslashes⟩ := hbehind
    exact ⟨.opening :: (found ++ [.closing]), quoting, (escaped 0 word).2, by simp [hslashes],
      hquoting, by simpa using hgap, by simpa [Piece.text] using hword, .inl (by simp)⟩
  · rename_i hquoted
    obtain ⟨hne, hplain⟩ := Dialect.ne_nil_of_not_quoted hquoted
    have hworthy (c : Char) (hc : c ∈ word) : Dialect.windows.isQuoteWorthy c = false :=
      Dialect.isQuoteWorthy_eq_false_of_mem hplain hc
    have hquote : '"' ∉ word := fun h ↦ absurd (hworthy '"' h) (by decide)
    have hseparator (c : Char) (hc : c ∈ word) : isSeparator c = false :=
      isSeparator_eq_false (hworthy c hc)
    obtain ⟨found, slashes, hfound, hgap, htext⟩ :=
      Runtime.advance_literal .start hquote fun _ ↦ hseparator
    have hword : Piece.text found ++ backslashes slashes = word := htext
    refine ⟨found, .outside, slashes, ?_, by decide, hgap, hword, ?_⟩
    · rw [hfound, if_neg hne]
      rfl
    by_cases hfoundNil : found = []
    · refine .inr fun hslashes ↦ hne ?_
      rw [← hword, hfoundNil, hslashes]
      rfl
    · exact .inl hfoundNil

/-- The line of the given words in the form that the C runtime receives. -/
def passedLine : List Word → List Char
  | [] => []
  | word :: words => passed word ++ words.flatMap (' ' :: passed ·)

theorem words_passed {found : List Piece} {slashes : Nat} {word : Word} (hgap : .gap ∉ found)
    (htext : Piece.text found ++ backslashes slashes = word) (hbegun : found ≠ [] ∨ slashes ≠ 0) :
    Piece.words (found ++ Piece.chars (backslashes slashes)) = [word] := by
  have hne : found ++ Piece.chars (backslashes slashes) ≠ [] := by
    intro h
    obtain ⟨hfound, hslashes⟩ := List.append_eq_nil_iff.mp h
    rcases hbegun with hbegun | hbegun
    · exact hbegun hfound
    · simp [Piece.chars, backslashes] at hslashes
      exact hbegun hslashes
  rw [Piece.words_of_gap_notMem (by simpa using hgap) hne, Piece.text_append, Piece.text_chars,
    htext]

/-- The words behind the first one, each behind a space. -/
theorem pieces_passed (words : List Word) {quoting : Quoting} (hquoting : quoting ≠ .inside)
    (slashes : Nat) :
    ∃ rows : List (List Piece),
      (Runtime.mk quoting slashes).pieces (words.flatMap (' ' :: passed ·)) =
          .ok (Piece.chars (backslashes slashes) ++ rows.flatMap (.gap :: ·)) ∧
        rows.flatMap Piece.words = words := by
  induction words generalizing quoting slashes with
  | nil => exact ⟨[], by simp [Runtime.pieces, Runtime.finish, hquoting, Except.map], rfl⟩
  | cons word rest ih =>
    obtain ⟨found, next, count, hfound, hnext, hgap, htext, hbegun⟩ := advance_passed word
    obtain ⟨rows, hrows, hwords⟩ := ih hnext count
    have hspace : (Runtime.mk quoting slashes).step ' ' =
        (Piece.chars (backslashes slashes) ++ [.gap], Runtime.start) := by
      rw [Runtime.step_character _ (by decide) (by decide)]
      cases quoting with
      | inside => exact absurd rfl hquoting
      | outside | closed => rfl
    refine ⟨(found ++ Piece.chars (backslashes count)) :: rows, ?_, ?_⟩
    · rw [List.flatMap_cons, List.cons_append, Runtime.pieces_cons, hspace, Runtime.pieces_append,
        hfound, hrows]
      simp [Except.map]
    · rw [List.flatMap_cons, words_passed hgap htext hbegun, hwords, List.singleton_append]

/-- The C runtime finds the words in the line that it receives. -/
theorem arguments_passedLine (words : List Word) : arguments (passedLine words) = .ok words := by
  cases words with
  | nil => rfl
  | cons word rest =>
    obtain ⟨found, next, count, hfound, hnext, hgap, htext, hbegun⟩ := advance_passed word
    obtain ⟨rows, hrows, hwords⟩ := pieces_passed rest hnext count
    rw [arguments_eq, passedLine, Runtime.pieces_append, hfound, hrows]
    have hjoin : found ++ (Piece.chars (backslashes count) ++ rows.flatMap (.gap :: ·)) =
        (found ++ Piece.chars (backslashes count)) ++ rows.flatMap (.gap :: ·) := by simp
    simp only [Except.map, hjoin, Piece.words_append_flatMap_gap,
      words_passed hgap htext hbegun, hwords, List.singleton_append]

/-- The command processor passes a joined line on without its circumflexes. -/
theorem advance_join (words : List Word) :
    advance ShellMode.step .plain (Dialect.windows.join words) =
      .ok (passedLine words, .plain) := by
  have hrest (words : List Word) :
      advance ShellMode.step .plain (words.flatMap (' ' :: quote ·)) =
        .ok (words.flatMap (' ' :: passed ·), .plain) := by
    induction words with
    | nil => rfl
    | cons word rest ih =>
      have hspace : ShellMode.step .plain ' ' = .ok ([' '], .plain) := rfl
      exact advance_append_of_ok (advance_cons_of_ok hspace (advance_quote word)) ih
  cases words with
  | nil => rfl
  | cons word rest =>
    rw [Dialect.join_cons]
    exact advance_append_of_ok (advance_quote word) (hrest rest)

/-- A line of words without double quotes has no circumflexes to be taken away. -/
theorem join_eq_passedLine {words : List Word} (h : ∀ word ∈ words, '"' ∉ word) :
    Dialect.windows.join words = passedLine words := by
  cases words with
  | nil => rfl
  | cons word rest =>
    have hrest : rest.flatMap (' ' :: quote ·) = rest.flatMap (' ' :: passed ·) :=
      List.flatMap_congr fun other hother ↦ by
        rw [quote_eq_passed (h other (List.mem_cons_of_mem _ hother))]
    rw [Dialect.join_cons, passedLine, ← hrest, ← quote_eq_passed (h word List.mem_cons_self)]
    rfl

/-! ### Which characters a joined line holds -/

theorem count_escaped {c : Char} (hquote : c ≠ '"') (hbackslash : c ≠ '\\') (pending : Nat)
    (word : Word) :
    (escaped pending word).1.count c = word.count c + if c = '^' then word.count '"' else 0 := by
  have hslashes (count : Nat) : (backslashes count).count c = 0 := by
    simp [backslashes, List.count_replicate, Ne.symm hbackslash]
  fun_induction escaped pending word with
  | case1 pending => simp
  | case2 pending rest ih => simpa [Ne.symm hbackslash] using ih
  | case3 pending rest inside ih =>
    by_cases hc : c = '^'
    · subst hc
      simp [inside, ih, hslashes]
      omega
    · simp [inside, ih, hslashes, hc, Ne.symm hc, Ne.symm hquote, Ne.symm hbackslash]
  | case4 pending d rest _ hdquote inside ih =>
    have hd : d ≠ '"' := hdquote
    simp only [inside, List.count_append, hslashes, List.count_cons, ih, beq_iff_eq, hd,
      if_false, Nat.add_zero]
    omega

/-- A written word holds one circumflex for each of its quotes, and its other characters as often
as the word. -/
theorem count_quote {c : Char} (hquote : c ≠ '"') (hbackslash : c ≠ '\\') (word : Word) :
    (quote word).count c = word.count c + if c = '^' then word.count '"' else 0 := by
  rw [quote_eq]
  split
  · simp [count_escaped hquote hbackslash, backslashes, List.count_replicate, Ne.symm hquote,
      Ne.symm hbackslash]
  · rename_i hplain
    simp only [Bool.or_eq_true, not_or, Bool.not_eq_true] at hplain
    have hnone : word.count '"' = 0 := by
      refine List.count_eq_zero.mpr fun h ↦ ?_
      exact absurd (by simpa using List.any_eq_false.mp hplain.2 '"' h) (by decide)
    simp [hnone]

/-- A joined line holds one circumflex for each quote of its words, and the other characters of its
words as often as they do. -/
theorem count_join {c : Char} (hquote : c ≠ '"') (hbackslash : c ≠ '\\') (hspace : c ≠ ' ')
    (words : List Word) :
    (Dialect.windows.join words).count c =
      words.flatten.count c + if c = '^' then words.flatten.count '"' else 0 := by
  have hrest (words : List Word) :
      (words.flatMap (' ' :: quote ·)).count c =
        words.flatten.count c + if c = '^' then words.flatten.count '"' else 0 := by
    induction words with
    | nil => simp
    | cons word rest ih =>
      simp only [List.flatMap_cons, List.cons_append, List.count_cons_of_ne (Ne.symm hspace),
        List.count_append, count_quote hquote hbackslash, ih, List.flatten_cons]
      split <;> omega
  cases words with
  | nil => simp
  | cons word rest =>
    rw [Dialect.join_cons]
    change (quote word ++ rest.flatMap (' ' :: quote ·)).count c = _
    simp only [List.count_append, count_quote hquote hbackslash, hrest, List.flatten_cons]
    split <;> omega

/-- A joined line begins with an at sign only where its first word does and is written as it
stands. -/
theorem head_join (words : List Word) :
    (Dialect.windows.join words).head? = some '@' ↔
      ∃ word rest, words = word :: rest ∧ word.head? = some '@' ∧
        word.any Dialect.windows.isQuoteWorthy = false := by
  cases words with
  | nil => simp
  | cons word rest =>
    have hhead : (Dialect.windows.join (word :: rest)).head? = (quote word).head? := by
      rw [Dialect.join_cons]
      exact List.head?_append_of_ne_nil _ (quote_ne_nil word)
    rw [hhead, quote_eq]
    constructor
    · intro h
      split at h
      · cases h
      · rename_i hplain
        simp only [Bool.or_eq_true, not_or, Bool.not_eq_true] at hplain
        exact ⟨word, rest, rfl, h, hplain.2⟩
    · rintro ⟨_, _, heq, hat, hplain⟩
      cases heq
      have hquoted : (word.isEmpty || Dialect.windows.needsQuotes word) = false := by
        cases word with
        | nil => cases hat
        | cons c rest => exact hplain
      rwa [hquoted]

/-! ### The round trip -/

section RoundTrip

variable (directory : Option (List Char)) (home : List Char)

/-- Read by the command processor and the C runtime, a joined line gives its words back exactly when
no word holds a percent sign and the line does not begin with an at sign. -/
theorem split_strict_join_iff (words : List Word) :
    split true ⟨none, directory, home⟩ (Dialect.windows.join words) = .ok words ↔
      (∀ word ∈ words, '%' ∉ word) ∧ (Dialect.windows.join words).head? ≠ some '@' := by
  have hcount := count_join (c := '%') (by decide) (by decide) (by decide) words
  have hpercent : '%' ∈ Dialect.windows.join words ↔ ∃ word ∈ words, '%' ∈ word := by
    rw [← List.count_pos_iff, hcount, if_neg (by decide), Nat.add_zero, List.count_pos_iff,
      List.mem_flatten]
  by_cases hin : '%' ∈ Dialect.windows.join words
  · rw [split_strict_eq, if_pos hin]
    obtain ⟨word, hword, hmem⟩ := hpercent.mp hin
    constructor
    · intro h
      cases h
    · intro h
      exact absurd hmem (h.1 word hword)
  · have hnone : ∀ word ∈ words, '%' ∉ word := fun word hword hmem ↦
      hin (hpercent.mpr ⟨word, hword, hmem⟩)
    rw [split_strict_eq, if_neg hin]
    by_cases hat : (Dialect.windows.join words).head? = some '@'
    · -- the at sign is lost, so one character is missing from the words
      refine iff_of_false (fun h ↦ ?_) fun h ↦ h.2 hat
      obtain ⟨rest, hline⟩ : ∃ rest, Dialect.windows.join words = '@' :: rest := by
        cases hjoin : Dialect.windows.join words with
        | nil => rw [hjoin] at hat; cases hat
        | cons c rest => rw [hjoin] at hat; cases hat; exact ⟨rest, rfl⟩
      have hfull := count_join (c := '@') (by decide) (by decide) (by decide) words
      rw [hline, received, dropEcho, ShellMode.receivedFrom_eq] at h
      cases hadvance : advance ShellMode.step .plain rest with
      | error refusal => rw [hadvance] at h; cases h
      | ok result =>
        obtain ⟨passed, last⟩ := result
        rw [hadvance] at h
        have harguments : arguments passed = .ok words := h
        have hwords := count_of_arguments harguments (c := '@') (by decide) (by decide) (by decide)
        have hpassed := ShellMode.count_advance (c := '@') (by decide) hadvance
        rw [hline, List.count_cons_self, if_neg (by decide)] at hfull
        omega
    · refine iff_of_true ?_ ⟨hnone, hat⟩
      rw [received, dropEcho_of_head?_ne hat, ShellMode.receivedFrom_eq, advance_join]
      exact arguments_passedLine words

/-- Read by the C runtime alone, a joined line gives its words back exactly when no word holds a
double quote: the circumflexes that go with the others would stay. -/
theorem split_lenient_join_iff (words : List Word) :
    split false ⟨none, directory, home⟩ (Dialect.windows.join words) = .ok words ↔
      ∀ word ∈ words, '"' ∉ word := by
  have hsplit : split false ⟨none, directory, home⟩ (Dialect.windows.join words) =
      arguments (Dialect.windows.join words) := rfl
  rw [hsplit]
  constructor
  · intro h word hword hmem
    have hwords := count_of_arguments h (c := '^') (by decide) (by decide) (by decide)
    have hline := count_join (c := '^') (by decide) (by decide) (by decide) words
    have hquotes : 0 < words.flatten.count '"' :=
      List.count_pos_iff.mpr (List.mem_flatten.mpr ⟨word, hword, hmem⟩)
    rw [if_pos rfl] at hline
    omega
  · intro h
    rw [join_eq_passedLine h]
    exact arguments_passedLine words

/-- Exactly when the words of a joined line come back. Read by both readers, they do when no word
holds a percent sign and the first word does not begin with an at sign without being quoted. Read
by the C runtime alone, they do when no word holds a double quote. -/
theorem split_join_iff (words : List Word) :
    (Dialect.windows.split true ⟨none, directory, home⟩ (Dialect.windows.join words) = .ok words ↔
        (∀ word ∈ words, '%' ∉ word) ∧
          ¬∃ word rest, words = word :: rest ∧ word.head? = some '@' ∧
            word.any Dialect.windows.isQuoteWorthy = false) ∧
      (Dialect.windows.split false ⟨none, directory, home⟩ (Dialect.windows.join words) =
          .ok words ↔
        ∀ word ∈ words, '"' ∉ word) := by
  constructor
  · rw [← head_join]
    exact split_strict_join_iff directory home words
  · exact split_lenient_join_iff directory home words

end RoundTrip

end CommandLine.Windows
