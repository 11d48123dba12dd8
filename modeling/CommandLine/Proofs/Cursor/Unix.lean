import CommandLine.Proofs.Cursor.Yields
import CommandLine.Proofs.Unix.Strict

/-!
A cursor on a line for a POSIX shell, and the strict splitter. A line that the splitter takes has
quotations and escapes in it and nothing else that a cursor would open, so that the mode of the
splitter and the open word are all there is to the scan of the cursor. The two part at blanks other
than spaces and tabs, which a cursor does not know, and at a tilde in front of a word, which it does
not expand.
-/

set_option autoImplicit false

namespace CommandLine.Cursor.Unix

open CommandLine.Unix (Mode Reading)
open CommandLine.Unix.Reading (IsBare bareStep_cases doubleStep_cases exists_of_pieces_cons
  literally)
open Piece (Gathered)

/-! ### The scan in a mode of the splitter -/

/-- What the splitter has read and the cursor has not: a cursor takes a backslash together with the
character behind it. -/
def pending : Mode → List Char
  | .escape | .doubleEscape => ['\\']
  | _ => []

def openContext : Mode → Context
  | .single => Context.basic.enter .singleQuote
  | .double | .doubleEscape => .doubleQuotation
  | _ => .basic

def openStack : Mode → List Context
  | .single | .double | .doubleEscape => [.basic]
  | _ => []

/-- The scan of a cursor where the splitter is in a mode, with a word open. -/
def scanAt (mode : Mode) (text : List Char) (current : Option Word) : Scan :=
  ⟨pending mode ++ text, (current.getD []).reverse, openContext mode, openStack mode, [],
    current.isSome, true⟩

/-- The splitter is in a word. The word is open, unless it begins with the escape that is being
read. -/
def InWord (current : Option Word) : Mode → Prop
  | .bare | .single | .double | .doubleEscape => current.isSome = true
  | .escape => True
  | .gap | .tilde | .dollar _ | .name .. => False

theorem run_eq (scan : Scan) : scan.run =
    match scan.step with
    | .more next => next.run
    | .ended final complete => some (final, complete)
    | .underflow => none := by
  rw [Scan.run]
  split <;> rename_i hstep <;> rw [hstep]

theorem run_of_more {scan next : Scan} (h : scan.step = .more next) : scan.run = next.run := by
  rw [run_eq, h]

theorem run_of_ended {scan final : Scan} {complete : Bool}
    (h : scan.step = .ended final complete) : scan.run = some (final, complete) := by
  rw [run_eq, h]

section

variable {home rest : List Char} {mode next : Mode} {c : Char} {current : Option Word}
  {found : List Piece}

/-- A character that the shell does not interpret belongs to a word, unless it separates words. -/
theorem step_of_isMeta_eq_false (hmode : IsBare mode) (hmeta : Dialect.unix.isMeta c = false)
    (hspace : c ≠ ' ') (htab : c ≠ '\t') :
    (scanAt mode (c :: rest) current).step =
      .more (scanAt .bare rest (some (current.getD [] ++ [c]))) := by
  have hne {d : Char} (hd : Dialect.unix.isMeta d = true) : c ≠ d := Dialect.ne_of_isMeta hmeta hd
  have hends : endsCommand c = false := by
    simp only [endsCommand, Bool.or_eq_false_iff, beq_eq_false_iff_ne]
    exact ⟨⟨⟨⟨hne rfl, hne rfl⟩, hne rfl⟩, hne rfl⟩, hne rfl⟩
  have hquotes : c ≠ '\\' ∧ c ≠ '$' ∧ c ≠ '`' ∧ c ≠ '\'' ∧ c ≠ '"' :=
    ⟨hne rfl, hne rfl, hne rfl, hne rfl, hne rfl⟩
  have hparentheses : c ≠ '(' ∧ c ≠ ')' := ⟨hne rfl, hne rfl⟩
  rcases hmode with rfl | rfl <;>
    simp [scanAt, pending, openContext, openStack, Context.basic, Scan.step, Scan.read,
      Scan.readPlain, Scan.take, hquotes, hparentheses, hends, hspace, htab]

/-- Outside of quotes the cursor follows the splitter from character to character. -/
theorem run_of_bareStep (rest : List Char) (current : Option Word) (hmode : IsBare mode)
    (hblank : Text.isBlank c = false) (h : (literally home).bareStep c = .ok (found, next)) :
    ∃ after, (Gathered.mk [] current).addAll found = ⟨[], after⟩ ∧
      (scanAt mode (c :: rest) current).run = (scanAt next rest after).run ∧ InWord after next := by
  rcases bareStep_cases h with ⟨hc, -, -⟩ | ⟨rfl, rfl, rfl⟩ | ⟨rfl, rfl, rfl⟩ | ⟨rfl, rfl, rfl⟩ |
    ⟨hmeta, rfl, rfl⟩
  · rw [hblank] at hc
    cases hc
  · exact ⟨some (current.getD []), rfl, run_of_more (by rcases hmode with rfl | rfl <;> rfl), rfl⟩
  · exact ⟨some (current.getD []), rfl, run_of_more (by rcases hmode with rfl | rfl <;> rfl), rfl⟩
  · exact ⟨current, rfl, by rcases hmode with rfl | rfl <;> rfl, trivial⟩
  · have hspace : c ≠ ' ' := by rintro rfl; exact absurd hblank (by decide)
    have htab : c ≠ '\t' := by rintro rfl; exact absurd hblank (by decide)
    exact ⟨some (current.getD [] ++ [c]), rfl,
      run_of_more (step_of_isMeta_eq_false hmode hmeta hspace htab), rfl⟩

/-- Inside of double quotes the cursor follows the splitter from character to character. -/
theorem run_of_doubleStep (h : (literally home).doubleStep c = .ok (found, next)) (word : Word) :
    ∃ after, (Gathered.mk [] (some word)).addAll found = ⟨[], after⟩ ∧
      (scanAt .double (c :: rest) (some word)).run = (scanAt next rest after).run ∧
        InWord after next := by
  rcases doubleStep_cases h with
    ⟨rfl, rfl, rfl⟩ | ⟨rfl, rfl, rfl⟩ | ⟨hquote, hbackslash, hdollar, hbackquote, rfl, rfl⟩
  · exact ⟨some word, rfl, run_of_more rfl, rfl⟩
  · exact ⟨some word, rfl, rfl, rfl⟩
  · refine ⟨some (word ++ [c]), rfl, run_of_more ?_, rfl⟩
    simp [scanAt, pending, openContext, openStack, Context.doubleQuotation, Scan.step, Scan.read,
      Scan.take, hquote, hbackslash, hdollar, hbackquote]

/-- In a word the cursor follows the splitter from character to character, as long as the word does
not end. -/
theorem run_of_step (hmode : InWord current mode) (hblank : mode = .bare → Text.isBlank c = false)
    (h : (literally home).step mode c = .ok (found, next)) :
    ∃ after, (Gathered.mk [] current).addAll found = ⟨[], after⟩ ∧
      (scanAt mode (c :: rest) current).run = (scanAt next rest after).run ∧ InWord after next := by
  cases mode with
  | gap | tilde | dollar | name => exact hmode.elim
  | bare => exact run_of_bareStep rest current (.inr rfl) (hblank rfl) h
  | escape =>
    cases h
    exact ⟨some (current.getD [] ++ [c]), rfl,
      run_of_more (by simp [scanAt, pending, openContext, openStack, Context.basic, Scan.step,
        Scan.read, Scan.readEscaped, Scan.keepsBackslash, Scan.take]), rfl⟩
  | single =>
    obtain ⟨word, rfl⟩ := Option.isSome_iff_exists.mp hmode
    simp only [Reading.step] at h
    split at h
    · rename_i hquote
      cases h
      subst hquote
      exact ⟨some word, rfl, run_of_more rfl, rfl⟩
    · rename_i hquote
      cases h
      refine ⟨some (word ++ [c]), rfl, run_of_more ?_, rfl⟩
      simp [scanAt, pending, openContext, openStack, Context.enter, Scan.step, Scan.read, Scan.take,
        hquote]
  | double =>
    obtain ⟨word, rfl⟩ := Option.isSome_iff_exists.mp hmode
    exact run_of_doubleStep h word
  | doubleEscape =>
    obtain ⟨word, rfl⟩ := Option.isSome_iff_exists.mp hmode
    cases h
    have hkeeps : (scanAt .doubleEscape (c :: rest) (some word)).keepsBackslash c =
        !(literally home).dropsBackslash c := by
      simp [Scan.keepsBackslash, Reading.dropsBackslash, scanAt, openContext,
        Context.doubleQuotation, Bool.and_assoc]
    refine ⟨some (word ++ if (literally home).dropsBackslash c then [c] else ['\\', c]), ?_,
      run_of_more ?_, rfl⟩
    · split <;> simp [Gathered.add]
    · change (scanAt .doubleEscape (c :: rest) (some word)).readEscaped (c :: rest) = _
      rw [Scan.readEscaped, hkeeps]
      cases (literally home).dropsBackslash c <;>
        simp [Scan.take, scanAt, pending, openContext, openStack]

end

/-! ### Word for word -/

section

variable {home text rest : List Char} {words : List Word} {c : Char}

/-- Spaces and tabs are the only blanks of a text, and no tilde follows one. -/
structure Spaced (text : List Char) : Prop where
  blank : ∀ c ∈ text, Text.isBlank c = true → c = ' ' ∨ c = '\t'
  tilde : ∀ c, Text.isBlank c = true → ¬[c, '~'] <:+: text

theorem Spaced.tail (h : Spaced (c :: rest)) : Spaced rest :=
  ⟨fun d hd ↦ h.blank d (List.mem_cons_of_mem _ hd),
    fun d hd hpair ↦ h.tilde d hd (List.infix_cons hpair)⟩

theorem Spaced.head?_ne (h : Spaced (c :: rest)) (hc : Text.isBlank c = true) :
    rest.head? ≠ some '~' := by
  intro hhead
  obtain ⟨tail, rfl⟩ := List.head?_eq_some_iff.mp hhead
  exact h.tilde c hc ⟨[], tail, rfl⟩

/-- The splitter finds these words in a text, in which nothing is strange to a cursor. -/
structure Ahead (home text : List Char) (words : List Word) : Prop where
  reads : ∃ found, (literally home).pieces .gap text = .ok found ∧ Piece.words found = words
  spaced : Spaced text
  tilde : text.head? ≠ some '~'

/-- Outside of quotes a blank is a gap. -/
theorem step_of_isBlank {mode : Mode} (hmode : IsBare mode) (hblank : Text.isBlank c = true) :
    (literally home).step mode c = .ok ([.gap], .gap) := by
  have htilde : c ≠ '~' := by rintro rfl; exact absurd hblank (by decide)
  rw [Reading.step_of_isBare _ hmode htilde]
  simp [Reading.bareStep, hblank]

theorem next_blank (hc : c = ' ' ∨ c = '\t') : next (c :: rest) = next rest := by
  have hrun : (Scan.start (c :: rest)).run = (Scan.start rest).run := by
    rcases hc with rfl | rfl <;> exact run_of_more rfl
  simp only [next, hrun]

/-- In a word the cursor goes on to the end of the word, and the splitter finds the other words
behind it. -/
theorem run_word {mode : Mode} {current : Option Word} {found : List Piece}
    (hword : InWord current mode) (hspaced : Spaced text)
    (h : (literally home).pieces mode text = .ok found) :
    ∃ word others rest behind,
      (scanAt mode text current).run = some (scanAt .bare rest (some word), true) ∧
        ((Gathered.mk [] current).addAll found).words = word :: others ∧
          next rest = next behind ∧ Ahead home behind others := by
  induction text generalizing mode current found with
  | nil =>
    cases mode with
    | gap | tilde | dollar | name => exact hword.elim
    | escape | single | double | doubleEscape => cases h
    | bare =>
      obtain ⟨word, rfl⟩ := Option.isSome_iff_exists.mp hword
      cases h
      exact ⟨word, [], [], [], run_of_ended rfl, rfl, rfl, ⟨⟨[], rfl, rfl⟩, hspaced, by simp⟩⟩
  | cons c rest ih =>
    obtain ⟨here, next, more, hstep, hmore, rfl⟩ := exists_of_pieces_cons _ h
    by_cases hend : mode = .bare ∧ Text.isBlank c = true
    · obtain ⟨rfl, hblank⟩ := hend
      obtain ⟨word, rfl⟩ := Option.isSome_iff_exists.mp hword
      rw [step_of_isBlank (.inr rfl) hblank] at hstep
      cases hstep
      have hspace : c = ' ' ∨ c = '\t' := hspaced.blank c List.mem_cons_self hblank
      refine ⟨word, Piece.words more, c :: rest, rest,
        run_of_ended (by rcases hspace with rfl | rfl <;> rfl), ?_, next_blank hspace,
        ⟨⟨more, hmore, rfl⟩, hspaced.tail, hspaced.head?_ne hblank⟩⟩
      rw [Gathered.addAll_append, Gathered.words_addAll]
      rfl
    · have hblank (hbare : mode = .bare) : Text.isBlank c = false := by
        simpa using fun hblank ↦ hend ⟨hbare, hblank⟩
      obtain ⟨after, hgathered, hrun, hafter⟩ := run_of_step hword hblank hstep
      rw [Gathered.addAll_append, hgathered, hrun]
      exact ih hafter hspaced.tail hmore

/-- The cursor finds the first of the words that lie ahead, and the others lie ahead of what
follows. -/
theorem Ahead.found (h : Ahead home text words) :
    (words = [] ∧ (next text).success = false) ∨
      ∃ word others rest behind, words = word :: others ∧ next text = ⟨true, rest, word, true⟩ ∧
        next rest = next behind ∧ Ahead home behind others := by
  obtain ⟨⟨found, hpieces, rfl⟩, hspaced, htilde⟩ := h
  induction text generalizing found with
  | nil =>
    cases hpieces
    refine .inl ⟨rfl, ?_⟩
    have hrun : (Scan.start []).run = some (.start [], true) := run_of_ended rfl
    rw [next, hrun]
    rfl
  | cons c rest ih =>
    obtain ⟨here, mode, more, hstep, hmore, rfl⟩ := exists_of_pieces_cons _ hpieces
    by_cases hblank : Text.isBlank c = true
    · rw [step_of_isBlank (.inl rfl) hblank] at hstep
      cases hstep
      rw [next_blank (hspaced.blank c List.mem_cons_self hblank)]
      exact ih hspaced.tail (hspaced.head?_ne hblank) more hmore
    · rw [Reading.step_of_isBare _ (.inl rfl) (by simpa using htilde)] at hstep
      obtain ⟨after, hgathered, hbegun, hafter⟩ :=
        run_of_bareStep rest none (.inl rfl) (by simpa using hblank) hstep
      obtain ⟨word, others, last, behind, hrun, hwords, hnext, hothers⟩ :=
        run_word hafter hspaced.tail hmore
      refine .inr ⟨word, others, last, behind, ?_, ?_, hnext, hothers⟩
      · rw [← hwords, ← hgathered, ← Gathered.addAll_append, ← Gathered.words_addAll_none]
        rfl
      · have hstart : (Scan.start (c :: rest)).run = some (scanAt .bare last (some word), true) :=
          hbegun.trans hrun
        simp [next, hstart, scanAt, pending, openStack]

/-- A cursor comes upon exactly the words of a line that can be split strictly with nothing to
expand, and leaves the line as it is, if spaces and tabs are the only blanks of the line, and no
tilde stands in front of a word. -/
theorem arguments_unix_eq_words (home : List Char) {line : List Char} {words : List Word}
    (hblank : ∀ c ∈ line, Text.isBlank c = true → c = ' ' ∨ c = '\t')
    (hstart : line.head? ≠ some '~') (hspace : ¬[' ', '~'] <:+: line)
    (htab : ¬['\t', '~'] <:+: line)
    (hsplit : Dialect.unix.split true (.bare home) line = .ok words) :
    Cursor.arguments .unix line = (words.map fun word ↦ (word, true)) ∧
      (ofLine .unix line).collect.2.line = line := by
  have hspaced : Spaced line := by
    refine ⟨hblank, fun c hc hpair ↦ ?_⟩
    rcases hblank c (hpair.subset List.mem_cons_self) hc with rfl | rfl
    · exact hspace hpair
    · exact htab hpair
  obtain ⟨found, hfound, hwords⟩ := Transducer.exists_of_map_eq_ok hsplit
  have hahead : Ahead home line words := ⟨⟨found, hfound, hwords⟩, hspaced, hstart⟩
  have hyields : Yields .unix line (words.map fun word ↦ (word, true)) :=
    Yields.of_ahead (fun _ _ ↦ Ahead.found) hahead
  exact ⟨hyields.arguments_eq, line_collect _⟩

/-- Escapes in and outside of quotes, quotes next to each other, an empty word and a quoted tilde
are to the cursor what they are to the splitter. -/
theorem arguments_unix_quotations :
    Cursor.arguments .unix " a\\ b'$'\t\"x\\\"\\y\" '' \"it's\"'~' ".toList =
        [("a b$".toList, true), ("x\"\\y".toList, true), ([], true), ("it's~".toList, true)] ∧
      (ofLine .unix " a\\ b'$'\t\"x\\\"\\y\" '' \"it's\"'~' ".toList).collect.2.line =
        " a\\ b'$'\t\"x\\\"\\y\" '' \"it's\"'~' ".toList := by
  have hblank : ∀ c ∈ " a\\ b'$'\t\"x\\\"\\y\" '' \"it's\"'~' ".toList,
      Text.isBlank c = true → c = ' ' ∨ c = '\t' := by
    simp [Text.isBlank, Text.inRanges, Text.blankRanges]
  have hsplit : Dialect.unix.split true (.bare [])
      " a\\ b'$'\t\"x\\\"\\y\" '' \"it's\"'~' ".toList =
      .ok ["a b$".toList, "x\"\\y".toList, [], "it's~".toList] := by
    rfl
  exact arguments_unix_eq_words [] hblank (by decide) (by decide +kernel) (by decide +kernel) hsplit

end

end CommandLine.Cursor.Unix
