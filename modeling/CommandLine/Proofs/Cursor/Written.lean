import CommandLine.Proofs.Cursor.Unix
import CommandLine.Proofs.Cursor.Windows
import CommandLine.Proofs.Windows.RoundTrip

/-!
What a cursor finds of words that are written on a line. A quoted word between spaces is found
whole, whatever stands behind it, so that a text in which words are laid out, with spaces between
them, yields these words.
-/

set_option autoImplicit false

namespace CommandLine.Cursor

/-- Nothing follows on a word, or a space does. -/
def Apart (tail : List Char) : Prop := tail = [] ∨ ∃ rest, tail = ' ' :: rest

/-! ### A word for a POSIX shell -/

namespace Unix

open CommandLine.Unix (Mode quote singleQuoted)
open CommandLine.Unix.Reading (IsBare)

variable {word : Word}

/-- Inside single quotes a cursor reads a word as it is. -/
theorem run_singleQuoted (word before : Word) (tail : List Char) :
    (scanAt .single (singleQuoted word ++ tail) (some before)).run =
      (scanAt .single tail (some (before ++ word))).run := by
  induction word generalizing before with
  | nil => simp [singleQuoted]
  | cons c rest ih =>
    have hread (behind : List Char) :
        (scanAt .single ((if c = '\'' then ['\'', '\\', '\'', '\''] else [c]) ++ behind)
          (some before)).run = (scanAt .single behind (some (before ++ [c]))).run := by
      by_cases hc : c = '\''
      · subst hc
        have hescaped : (scanAt .bare ('\\' :: '\'' :: '\'' :: behind) (some before)).step =
            .more (scanAt .bare ('\'' :: behind) (some (before ++ ['\'']))) := by
          simp [scanAt, pending, openContext, openStack, Context.basic, Scan.step, Scan.read,
            Scan.readEscaped, Scan.keepsBackslash, Scan.take]
        calc (scanAt .single ('\'' :: '\\' :: '\'' :: '\'' :: behind) (some before)).run
          _ = (scanAt .bare ('\\' :: '\'' :: '\'' :: behind) (some before)).run := run_of_more rfl
          _ = (scanAt .bare ('\'' :: behind) (some (before ++ ['\'']))).run := run_of_more hescaped
          _ = (scanAt .single behind (some (before ++ ['\'']))).run := run_of_more rfl
      · rw [if_neg hc]
        refine run_of_more ?_
        simp [scanAt, pending, openContext, openStack, Context.enter, Scan.step, Scan.read,
          Scan.take, hc]
    rw [singleQuoted, List.append_assoc, hread, ih, List.append_assoc, List.singleton_append]

/-- A character that needs no quotes is read as it is. -/
theorem step_plain {mode : Mode} (hmode : IsBare mode) {c : Char}
    (hc : Dialect.unix.isQuoteWorthy c = false) (rest : List Char) (current : Option Word) :
    (scanAt mode (c :: rest) current).step =
      .more (scanAt .bare rest (some (current.getD [] ++ [c]))) :=
  step_of_isMeta_eq_false hmode (Dialect.isMeta_eq_false hc)
    (Dialect.ne_of_isQuoteWorthy hc rfl) (Dialect.ne_of_isQuoteWorthy hc rfl)

/-- A word that needs no quotes is read as it is. -/
theorem run_plain (hword : Dialect.unix.needsQuotes word = false) (before : Word)
    (tail : List Char) :
    (scanAt .bare (word ++ tail) (some before)).run =
      (scanAt .bare tail (some (before ++ word))).run := by
  induction word generalizing before with
  | nil => simp
  | cons c rest ih =>
    obtain ⟨hc, hrest⟩ := Dialect.needsQuotes_cons_eq_false.mp hword
    rw [List.cons_append, run_of_more (step_plain (.inr rfl) hc _ _), Option.getD_some, ih hrest,
      List.append_assoc, List.singleton_append]

/-- A quoted word is read as the word. -/
theorem run_quote (word : Word) (tail : List Char) :
    (Scan.start (quote word ++ tail)).run = (scanAt .bare tail (some word)).run := by
  unfold quote
  split
  · calc (Scan.start ('\'' :: singleQuoted word ++ ['\''] ++ tail)).run
      _ = (scanAt .single (singleQuoted word ++ ('\'' :: tail)) (some [])).run := by
        rw [List.append_assoc]
        exact run_of_more rfl
      _ = (scanAt .single ('\'' :: tail) (some word)).run := run_singleQuoted word [] _
      _ = (scanAt .bare tail (some word)).run := run_of_more rfl
  · rename_i hquoted
    obtain ⟨hne, hplain⟩ := Dialect.ne_nil_of_not_quoted hquoted
    obtain ⟨c, rest, rfl⟩ := List.exists_cons_of_ne_nil hne
    obtain ⟨hc, hrest⟩ := Dialect.needsQuotes_cons_eq_false.mp hplain
    calc (Scan.start (c :: rest ++ tail)).run
      _ = (scanAt .bare (rest ++ tail) (some [c])).run :=
        run_of_more (step_plain (.inl rfl) hc _ none)
      _ = (scanAt .bare tail (some (c :: rest))).run := run_plain hrest [c] tail

/-- A cursor finds a quoted word. -/
theorem next_quote (word : Word) {tail : List Char} (htail : Apart tail) :
    next (quote word ++ tail) = ⟨true, tail, word, true⟩ := by
  have hend : (scanAt .bare tail (some word)).step =
      .ended (scanAt .bare tail (some word)) true := by
    rcases htail with rfl | ⟨rest, rfl⟩ <;> rfl
  rw [next, run_quote, run_of_ended hend]
  simp [scanAt, pending, openStack]

end Unix

/-! ### A word for Windows -/

namespace Windows

open CommandLine.Windows (ShellMode backslashes backslashes_succ escaped isSeparator
  isSeparator_eq_false quote quote_eq)

/-- A scan that has read a part of a word and is behind a run of backslashes. -/
def scanOf (shell : ShellMode) (state : WordState) (before : Word) (slashes : Nat) : Scan :=
  ⟨shell, state, .none, slashes, before.reverse, true⟩

section

variable {shell : ShellMode} {state : WordState} {before word : Word} {slashes : Nat} {c : Char}

theorem run_backslash (hshell : shell ≠ .escaped) (rest : List Char) :
    (scanOf shell state before slashes).run ('\\' :: rest) =
      (scanOf shell (Scan.inside state) before (slashes + 1)).run rest := by
  cases shell with
  | escaped => exact absurd rfl hshell
  | plain | quoted => cases state <;> rfl

/-- Backslashes are only counted. -/
theorem run_backslashes (hshell : shell ≠ .escaped) (count : Nat) (rest : List Char) :
    (scanOf shell state before slashes).run (backslashes count ++ rest) =
      (scanOf shell (if count = 0 then state else Scan.inside state) before
        (slashes + count)).run rest := by
  induction count generalizing state slashes with
  | zero => rfl
  | succ count ih =>
    have hinside : Scan.inside (Scan.inside state) = Scan.inside state := by
      cases state <;> rfl
    have hcons : backslashes (count + 1) ++ rest = '\\' :: (backslashes count ++ rest) := rfl
    rw [hcons, run_backslash hshell, ih, hinside, ite_self, if_neg (Nat.succ_ne_zero count),
      Nat.add_right_comm, Nat.add_assoc]

/-- A character that is neither a backslash nor a quote makes the backslashes in front of it
literal. -/
theorem readWord_scanOf (hbackslash : c ≠ '\\') (hquote : c ≠ '"') (hpercent : c ≠ '%') :
    (scanOf shell state before slashes).readWord c =
      scanOf (shell.after c) (Scan.inside state)
        (before ++ backslashes slashes ++ [c]) 0 := by
  simp [scanOf, Scan.readWord, Scan.reference?, Scan.take, hbackslash, hquote, hpercent,
    backslashes]

/-- A character that the command processor passes on, and that separates no words, is read. -/
theorem run_readWord (hcircumflex : ¬(shell = .plain ∧ c = '^'))
    (hmeta : ¬(shell = .plain ∧ Dialect.windows.isMeta c = true))
    (hgap : ¬(state ≠ .quoted ∧ isSeparator c = true)) (rest : List Char) :
    (scanOf shell state before slashes).run (c :: rest) =
      ((scanOf shell state before slashes).readWord c).run rest := by
  rw [Scan.run]
  exact (if_neg hcircumflex).trans ((if_neg hmeta).trans (if_neg hgap))

/-- Inside a quotation of both readers such a character is read as it is. -/
theorem run_quoted (hbackslash : c ≠ '\\') (hquote : c ≠ '"') (hpercent : c ≠ '%')
    (rest : List Char) :
    (scanOf .quoted .quoted before slashes).run (c :: rest) =
      (scanOf .quoted .quoted (before ++ backslashes slashes ++ [c]) 0).run rest := by
  rw [run_readWord (by simp) (by simp) (by simp), readWord_scanOf hbackslash hquote hpercent,
    ShellMode.after, if_neg hquote]
  rfl

theorem run_doubleQuote (rest : List Char) :
    (scanOf shell state before slashes).run ('"' :: rest) =
      ((scanOf shell state before slashes).readWord '"').run rest :=
  run_readWord (by simp) (fun h ↦ absurd h.2 (by decide)) (fun h ↦ absurd h.2 (by decide)) rest

/-- A quote opens a quotation. -/
theorem run_opening (hstate : state = .between ∨ state = .inWord) (rest : List Char) :
    (scanOf .plain state before 0).run ('"' :: rest) =
      (scanOf .quoted .quoted before 0).run rest := by
  rw [run_doubleQuote]
  rcases hstate with rfl | rfl <;>
    simp [scanOf, Scan.readWord, Scan.readQuote, ShellMode.after]

/-- A quote closes the quotation. -/
theorem run_closing (rest : List Char) :
    (scanOf .quoted .quoted before 0).run ('"' :: rest) =
      (scanOf .plain .closed before 0).run rest := by
  rw [run_doubleQuote]
  simp [scanOf, Scan.readWord, Scan.readQuote, ShellMode.after]

/-- Between two quotations a quote can be escaped for both readers. -/
theorem run_escapedQuote (count : Nat) (rest : List Char) :
    (scanOf .quoted .quoted before 0).run
        ('"' :: backslashes (2 * count) ++ ['\\', '^', '"', '"'] ++ rest) =
      (scanOf .quoted .quoted (before ++ backslashes count ++ ['"']) 0).run rest := by
  have hodd : (2 * count + 1) % 2 = 1 := by omega
  have hhalf : (2 * count + 1) / 2 = count := by omega
  have htext : '"' :: backslashes (2 * count) ++ ['\\', '^', '"', '"'] ++ rest =
      '"' :: (backslashes (2 * count + 1) ++ '^' :: '"' :: '"' :: rest) := by
    simp [backslashes_succ]
  rw [htext]
  calc (scanOf .quoted .quoted before 0).run
        ('"' :: (backslashes (2 * count + 1) ++ '^' :: '"' :: '"' :: rest))
    _ = (scanOf .plain .closed before 0).run
          (backslashes (2 * count + 1) ++ '^' :: '"' :: '"' :: rest) := run_closing _
    _ = (scanOf .plain .inWord before (2 * count + 1)).run ('^' :: '"' :: '"' :: rest) := by
      rw [run_backslashes (by decide), if_neg (Nat.succ_ne_zero _), Nat.zero_add]
      rfl
    _ = (scanOf .escaped .inWord before (2 * count + 1)).run ('"' :: '"' :: rest) := rfl
    _ = (scanOf .plain .inWord (before ++ backslashes count ++ ['"']) 0).run ('"' :: rest) := by
      rw [run_doubleQuote]
      simp [scanOf, Scan.readWord, Scan.readQuote, Scan.take, ShellMode.after, Scan.inside, hodd,
        hhalf, backslashes]
    _ = (scanOf .quoted .quoted (before ++ backslashes count ++ ['"']) 0).run rest :=
      run_opening (.inr rfl) rest

/-- The inside of a quoted word is read as the word without the backslashes at its end. -/
theorem run_escaped (before : Word) (pending : Nat) (hpercent : '%' ∉ word) (tail : List Char) :
    ∃ read, read ++ backslashes (escaped pending word).2 = before ++ backslashes pending ++ word ∧
      (scanOf .quoted .quoted before 0).run ((escaped pending word).1 ++ tail) =
        (scanOf .quoted .quoted read 0).run tail := by
  fun_induction escaped pending word generalizing before with
  | case1 pending => exact ⟨before, by simp, rfl⟩
  | case2 pending rest ih =>
    obtain ⟨read, hread, hrun⟩ := ih before (fun h ↦ hpercent (List.mem_cons_of_mem _ h))
    refine ⟨read, ?_, hrun⟩
    rw [hread]
    simp [backslashes_succ]
  | case3 pending rest inside ih =>
    obtain ⟨read, hread, hrun⟩ := ih (before ++ backslashes pending ++ ['"'])
      (fun h ↦ hpercent (List.mem_cons_of_mem _ h))
    refine ⟨read, by simpa using hread, ?_⟩
    rw [List.append_assoc, run_escapedQuote, hrun]
  | case4 pending c rest hbackslash hquote inside ih =>
    simp only [List.mem_cons, not_or] at hpercent
    obtain ⟨read, hread, hrun⟩ := ih (before ++ backslashes pending ++ [c]) hpercent.2
    refine ⟨read, by simpa using hread, ?_⟩
    have hquoted : (if pending = 0 then .quoted else Scan.inside .quoted) = WordState.quoted :=
      ite_self ..
    rw [List.append_assoc, run_backslashes (by decide), hquoted, Nat.zero_add, List.cons_append,
      run_quoted hbackslash hquote (Ne.symm hpercent.1), hrun]

/-- A word that needs no quotes is read as it is, up to the backslashes at its end. -/
theorem run_unquoted (state : WordState) (before : Word) (slashes : Nat)
    (hstate : state ≠ .quoted) (hnil : word ≠ [])
    (hword : Dialect.windows.needsQuotes word = false) (hpercent : '%' ∉ word) (tail : List Char) :
    ∃ read count, read ++ backslashes count = before ++ backslashes slashes ++ word ∧
      (scanOf .plain state before slashes).run (word ++ tail) =
        (scanOf .plain .inWord read count).run tail := by
  induction word generalizing state before slashes with
  | nil => exact absurd rfl hnil
  | cons c rest ih =>
    simp only [List.mem_cons, not_or] at hpercent
    obtain ⟨hc, hrest⟩ := Dialect.needsQuotes_cons_eq_false.mp hword
    have hinside : Scan.inside state = .inWord := if_neg hstate
    -- the first character leads into the word, with or without one more backslash
    have hread : ∃ first count,
        first ++ backslashes count = before ++ backslashes slashes ++ [c] ∧
        (scanOf .plain state before slashes).run (c :: (rest ++ tail)) =
          (scanOf .plain .inWord first count).run (rest ++ tail) := by
      by_cases hbackslash : c = '\\'
      · subst hbackslash
        refine ⟨before, slashes + 1, by simp [backslashes_succ], ?_⟩
        rw [run_backslash (by decide), hinside]
      · have hquote : c ≠ '"' := Dialect.ne_of_isQuoteWorthy hc rfl
        refine ⟨before ++ backslashes slashes ++ [c], 0, by simp [backslashes], ?_⟩
        rw [run_readWord (fun h ↦ Dialect.ne_of_isQuoteWorthy hc rfl h.2)
          (by simp [Dialect.isMeta_eq_false hc]) (by simp [isSeparator_eq_false hc]),
          readWord_scanOf hbackslash hquote (Ne.symm hpercent.1), hinside, ShellMode.after,
          if_neg hquote]
    obtain ⟨first, count, hfirst, hrun⟩ := hread
    by_cases hempty : rest = []
    · subst hempty
      exact ⟨first, count, hfirst, hrun⟩
    · obtain ⟨read, last, hlast, hmore⟩ :=
        ih .inWord first count (by decide) hempty hrest hpercent.2
      refine ⟨read, last, ?_, hrun.trans hmore⟩
      rw [hlast, hfirst, List.append_assoc, List.singleton_append]

end

/-- A quoted word is read as the word, up to the backslashes at its end. -/
theorem run_quote {word : Word} (hpercent : '%' ∉ word) (tail : List Char) :
    ∃ state read slashes, (state = .closed ∨ state = .inWord) ∧
      read ++ backslashes slashes = word ∧
        Scan.start.run (quote word ++ tail) = (scanOf .plain state read slashes).run tail := by
  have hstart : Scan.start = scanOf .plain .between [] 0 := rfl
  rw [hstart, quote_eq]
  split
  · let closing := '"' :: backslashes (escaped 0 word).2 ++ tail
    obtain ⟨read, hread, hrun⟩ := run_escaped [] 0 hpercent closing
    let state := if (escaped 0 word).2 = 0 then .closed else Scan.inside .closed
    have hstate : state = .closed ∨ state = .inWord := by
      by_cases hslashes : (escaped 0 word).2 = 0
      · exact .inl (if_pos hslashes)
      · exact .inr (if_neg hslashes)
    refine ⟨state, read, (escaped 0 word).2, hstate, hread, ?_⟩
    calc (scanOf .plain .between [] 0).run
          ('"' :: (escaped 0 word).1 ++ '"' :: backslashes (escaped 0 word).2 ++ tail)
      _ = (scanOf .plain .between [] 0).run ('"' :: ((escaped 0 word).1 ++ closing)) := by
        rw [List.append_assoc, List.cons_append]
      _ = (scanOf .quoted .quoted [] 0).run ((escaped 0 word).1 ++ closing) :=
        run_opening (.inl rfl) _
      _ = (scanOf .quoted .quoted read 0).run closing := hrun
      _ = (scanOf .plain .closed read 0).run (backslashes (escaped 0 word).2 ++ tail) :=
        run_closing _
      _ = (scanOf .plain state read (escaped 0 word).2).run tail := by
        rw [run_backslashes (by decide), Nat.zero_add]
  · rename_i hquoted
    obtain ⟨hnil, hplain⟩ := Dialect.ne_nil_of_not_quoted hquoted
    obtain ⟨read, slashes, hread, hrun⟩ :=
      run_unquoted .between [] 0 (by decide) hnil hplain hpercent tail
    exact ⟨.inWord, read, slashes, .inr rfl, hread, hrun⟩

/-- A cursor finds a quoted word. -/
theorem next_quote {word : Word} (hpercent : '%' ∉ word) {tail : List Char} (htail : Apart tail) :
    next (quote word ++ tail) = ⟨true, tail, word, true⟩ := by
  obtain ⟨state, read, slashes, hstate, rfl, hrun⟩ := run_quote hpercent tail
  have hend : (scanOf .plain state read slashes).run tail =
      (scanOf .plain state read slashes).finish tail := by
    rcases htail with rfl | ⟨rest, rfl⟩
    · rfl
    · rcases hstate with rfl | rfl <;> rfl
  rw [next, hrun, hend]
  rcases hstate with rfl | rfl <;>
    simp [Scan.finish, scanOf, backslashes]

end Windows

/-! ### Words on a line -/

open CommandLine.Windows (isSeparator)

variable {dialect : Dialect} {text tail : List Char} {words : List Word} {word : Word}

theorem find_separator (dialect : Dialect) {c : Char} (hc : isSeparator c = true)
    (rest : List Char) : find dialect (c :: rest) = find dialect rest := by
  cases dialect with
  | unix =>
    simp only [isSeparator, Bool.or_eq_true, beq_iff_eq] at hc
    exact Unix.next_blank hc
  | windows => exact Windows.next_separator hc rest

/-- A cursor passes over spaces and tabs. -/
theorem find_separators {blanks : List Char} (dialect : Dialect)
    (hblanks : ∀ c ∈ blanks, isSeparator c = true) (text : List Char) :
    find dialect (blanks ++ text) = find dialect text := by
  induction blanks with
  | nil => rfl
  | cons c blanks ih =>
    rw [List.cons_append, find_separator dialect (hblanks c List.mem_cons_self),
      ih fun d hd ↦ hblanks d (List.mem_cons_of_mem _ hd)]

theorem find_spaces (dialect : Dialect) (count : Nat) (text : List Char) :
    find dialect (List.replicate count ' ' ++ text) = find dialect text :=
  find_separators dialect (fun c hc ↦ by rw [List.eq_of_mem_replicate hc]; rfl) text

/-- A cursor finds a quoted word behind spaces. On Windows a percent sign may begin the name of a
variable. -/
theorem find_quote (hword : dialect = .windows → '%' ∉ word) (count : Nat) (htail : Apart tail) :
    find dialect (List.replicate count ' ' ++ (dialect.quote word ++ tail)) =
      ⟨true, tail, word, true⟩ := by
  rw [find_spaces]
  cases dialect with
  | unix => exact Unix.next_quote word htail
  | windows => exact Windows.next_quote (hword rfl) htail

/-- In spaces a cursor finds nothing. -/
theorem find_replicate (dialect : Dialect) (count : Nat) :
    find dialect (List.replicate count ' ') = ⟨false, [], [], true⟩ := by
  have hspaces := find_spaces dialect count []
  rw [List.append_nil] at hspaces
  rw [hspaces]
  cases dialect with
  | unix =>
    have hrun : (Unix.Scan.start []).run = some (.start [], true) := Unix.run_of_ended rfl
    rw [find, Unix.next, hrun]
    rfl
  | windows => rfl

/-! ### The words of a joined line -/

/-- The words behind the first one of a joined line stand apart from it, and are found. -/
theorem yields_behind (hwords : dialect = .windows → ∀ word ∈ words, '%' ∉ word) :
    Apart (words.flatMap (' ' :: dialect.quote ·)) ∧
      Yields dialect (words.flatMap (' ' :: dialect.quote ·))
        (words.map fun word ↦ (word, true)) := by
  induction words with
  | nil =>
    refine ⟨.inl rfl, .done ?_⟩
    show (find dialect (List.replicate 0 ' ')).success = false
    rw [find_replicate]
  | cons word others ih =>
    obtain ⟨hapart, hyields⟩ := ih fun hdialect other hother ↦
      hwords hdialect other (List.mem_cons_of_mem _ hother)
    have hword : dialect = .windows → '%' ∉ word := fun hdialect ↦
      hwords hdialect word List.mem_cons_self
    exact ⟨.inr ⟨_, rfl⟩, .next (find_quote hword 1 hapart) hyields⟩

/-- Whatever words are joined to a line, its arguments are these words, and all of them are simple.
On Windows no word may hold a percent sign, which may begin the name of a variable. -/
theorem arguments_join (dialect : Dialect) {words : List Word}
    (hwords : dialect = .windows → ∀ word ∈ words, '%' ∉ word) :
    Cursor.arguments dialect (dialect.join words) = words.map fun word ↦ (word, true) := by
  cases words with
  | nil => exact (yields_behind hwords).2.arguments_eq
  | cons word others =>
    obtain ⟨hapart, hyields⟩ := yields_behind fun hdialect other hother ↦
      hwords hdialect other (List.mem_cons_of_mem _ hother)
    have hword : dialect = .windows → '%' ∉ word := fun hdialect ↦
      hwords hdialect word List.mem_cons_self
    rw [Dialect.join_cons]
    exact (Yields.next (find_quote hword 0 hapart) hyields).arguments_eq

/-- Words that end with backslashes, hold marks that are escaped for both readers, are empty, or
hold blanks. -/
theorem arguments_join_escaped :
    Cursor.arguments .windows
        (Dialect.windows.join ["a \\".toList, "\\\"^& b\"\"".toList, [], "\t@".toList]) =
      [("a \\".toList, true), ("\\\"^& b\"\"".toList, true), ([], true), ("\t@".toList, true)] :=
  arguments_join .windows (by decide)

/-! ### Printable words -/

/-- The words that can be put on a line of either dialect without being changed there. -/
def IsPrintable (word : Word) : Prop := ∀ c ∈ word, ' ' ≤ c ∧ c ≤ '~' ∧ c ≠ '%'

instance (word : Word) : Decidable (IsPrintable word) := List.decidableBAll _ word

theorem IsPrintable.percent_notMem (h : IsPrintable word) : '%' ∉ word :=
  fun hmem ↦ (h '%' hmem).2.2 rfl

/-- No blank stands at the beginning of a written word. -/
theorem exists_quote_eq_cons (dialect : Dialect) (hword : IsPrintable word) :
    ∃ c rest, dialect.quote word = c :: rest ∧ Text.isBlank c = false := by
  have hplain (hquoted : ¬(word.isEmpty || dialect.needsQuotes word) = true) :
      ∃ c rest, word = c :: rest ∧ Text.isBlank c = false := by
    obtain ⟨hnil, hneeds⟩ := Dialect.ne_nil_of_not_quoted hquoted
    obtain ⟨c, rest, rfl⟩ := List.exists_cons_of_ne_nil hnil
    have hc : c.toNat ≤ 0x7E := (hword c List.mem_cons_self).2.1
    have hworthy := Dialect.isQuoteWorthy_eq_false_of_mem hneeds List.mem_cons_self
    simp only [Dialect.isQuoteWorthy, Bool.or_eq_false_iff, decide_eq_false_iff_not] at hworthy
    refine ⟨c, rest, rfl, ?_⟩
    simp [Text.isBlank, Text.inRanges, Text.blankRanges]
    omega
  cases dialect with
  | unix =>
    rw [Dialect.quote, Unix.quote]
    split
    · exact ⟨'\'', _, rfl, by decide⟩
    · rename_i hquoted
      exact hplain hquoted
  | windows =>
    rw [Dialect.quote, CommandLine.Windows.quote_eq]
    split
    · exact ⟨'"', _, rfl, by decide⟩
    · rename_i hquoted
      exact hplain hquoted

/-- The line holds these words as they are written, with spaces in front and between them. -/
inductive Laid (dialect : Dialect) : List Char → List Word → Prop
  | spaces (count : Nat) : Laid dialect (List.replicate count ' ') []
  | word (count : Nat) {word : Word} {tail : List Char} {words : List Word}
      (hword : IsPrintable word) (htail : Apart tail) (h : Laid dialect tail words) :
      Laid dialect (List.replicate count ' ' ++ (dialect.quote word ++ tail)) (word :: words)

theorem Laid.nil (dialect : Dialect) : Laid dialect [] [] := .spaces 0

/-- Words that are laid out are what a cursor comes upon. -/
theorem Laid.yields (h : Laid dialect text words) :
    Yields dialect text (words.map fun word ↦ (word, true)) := by
  induction h with
  | spaces count => exact .done (by rw [find_replicate])
  | word count hword htail h ih =>
    exact .next (find_quote (fun _ ↦ hword.percent_notMem) count htail) ih

theorem Laid.ne_nil (h : Laid dialect text words) (hwords : words ≠ []) : text ≠ [] := by
  cases h with
  | spaces count => exact absurd rfl hwords
  | word count hword htail h => simp [dialect.quote_ne_nil]

theorem Laid.eq_nil (h : Laid dialect text []) (hhead : text.head? ≠ some ' ') : text = [] := by
  cases h with
  | spaces count =>
    cases count with
    | zero => rfl
    | succ count => exact absurd rfl hhead

/-- A text that begins with a space does so up to the end of its first word. -/
theorem Laid.apart_front (count : Nat) (hword : IsPrintable word)
    (h : Apart (List.replicate count ' ' ++ (dialect.quote word ++ tail))) :
    Apart (List.replicate count ' ' ++ dialect.quote word) := by
  cases count with
  | zero =>
    obtain ⟨c, rest, hquote, hblank⟩ := exists_quote_eq_cons dialect hword
    have hc : c ≠ ' ' := by rintro rfl; exact absurd hblank (by decide)
    simp [Apart, hquote, hc] at h
  | succ count => exact .inr ⟨_, rfl⟩

theorem Laid.prepend (h : Laid dialect text words) (count : Nat) :
    Laid dialect (List.replicate count ' ' ++ text) words := by
  cases h with
  | spaces more =>
    rw [List.replicate_append_replicate]
    exact .spaces (count + more)
  | word more hword htail h =>
    rw [← List.append_assoc, List.replicate_append_replicate]
    exact .word (count + more) hword htail h

theorem Apart.append {first second : List Char} (hfirst : Apart first) (hsecond : Apart second) :
    Apart (first ++ second) := by
  rcases hfirst with rfl | ⟨rest, rfl⟩
  · exact hsecond
  · exact .inr ⟨rest ++ second, rfl⟩

/-- What is laid out in one part and then, behind a space, in the other. -/
theorem Laid.append {first second : List Char} {others : List Word}
    (hfirst : Laid dialect first words) (hsecond : Laid dialect second others)
    (hapart : Apart second) : Laid dialect (first ++ second) (words ++ others) := by
  induction hfirst with
  | spaces count => exact hsecond.prepend count
  | word count hword htail _ ih =>
    rw [List.append_assoc, List.append_assoc]
    exact .word count hword (htail.append hapart) ih

/-- A joined line holds its words. -/
theorem laid_join (hwords : ∀ word ∈ words, IsPrintable word) :
    Laid dialect (dialect.join words) words := by
  have hbehind (others : List Word) (hothers : ∀ word ∈ others, IsPrintable word) :
      Laid dialect (others.flatMap (' ' :: dialect.quote ·)) others ∧
        Apart (others.flatMap (' ' :: dialect.quote ·)) := by
    induction others with
    | nil => exact ⟨.nil dialect, .inl rfl⟩
    | cons word others ih =>
      obtain ⟨hlaid, hapart⟩ := ih fun other hother ↦ hothers other (List.mem_cons_of_mem _ hother)
      exact ⟨.word 1 (hothers word List.mem_cons_self) hapart hlaid, .inr ⟨_, rfl⟩⟩
  cases words with
  | nil => exact .nil dialect
  | cons word words =>
    obtain ⟨hlaid, hapart⟩ := hbehind words fun other hother ↦
      hwords other (List.mem_cons_of_mem _ hother)
    rw [Dialect.join_cons]
    exact .word 0 (hwords word List.mem_cons_self) hapart hlaid

/-- Of a text that words are laid out in, the blanks at its beginning can be dropped. -/
theorem Laid.dropWhile (h : Laid dialect text words) :
    Laid dialect (text.dropWhile Text.isBlank) words ∧
      (text.dropWhile Text.isBlank).head? ≠ some ' ' := by
  have hspaces (count : Nat) (behind : List Char) :
      (List.replicate count ' ' ++ behind).dropWhile Text.isBlank =
        behind.dropWhile Text.isBlank :=
    List.dropWhile_append_of_pos fun c hc ↦ by rw [List.eq_of_mem_replicate hc]; decide
  cases h with
  | spaces count =>
    have hnil := hspaces count []
    rw [List.append_nil] at hnil
    rw [hnil]
    exact ⟨.nil dialect, by simp⟩
  | word count hword htail h =>
    obtain ⟨c, rest, hquote, hblank⟩ := exists_quote_eq_cons dialect hword
    have hc : c ≠ ' ' := by rintro rfl; exact absurd hblank (by decide)
    have hlaid := Laid.word 0 hword htail h
    rw [List.replicate_zero, List.nil_append] at hlaid
    rw [hspaces, hquote, List.cons_append, List.dropWhile_cons_of_neg (by simp [hblank]),
      ← List.cons_append, ← hquote]
    exact ⟨hlaid, by simp [hquote, hc]⟩

end CommandLine.Cursor
