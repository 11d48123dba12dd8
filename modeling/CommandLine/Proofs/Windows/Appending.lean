import CommandLine.Proofs.Appending
import CommandLine.Proofs.Windows.RoundTrip

/-!
A word behind a line that both readers of Windows take. The C runtime is outside of quotations at
the end of such a line, but the command processor may have one open, in which case the quotes of
the word close and open the wrong way round for it: what they should protect is bare, and the
circumflexes of the quoter stay. The word comes back exactly when the command processor has nothing
open at the end of the line, or the word holds nothing that it would treat differently.
-/

set_option autoImplicit false

namespace CommandLine.Windows

open Transducer

/-- The command processor has a quotation open at the end of a line. -/
def endsQuoted (line : List Char) : Bool :=
  match advance ShellMode.step .plain (dropEcho line) with
  | .ok (_, last) => last == .quoted
  | .error _ => false

/-- A character that the command processor does not pass over outside of quotations. -/
def isActive (c : Char) : Bool := c == '"' || c == '^' || Dialect.windows.isMeta c

theorem isActive_eq_false {c : Char} : isActive c = false ↔
    c ≠ '"' ∧ c ≠ '^' ∧ Dialect.windows.isMeta c = false := by
  simp [isActive, and_assoc]

/-- Active characters call for quotes. -/
theorem isActive_eq_false_of_isQuoteWorthy {c : Char}
    (h : Dialect.windows.isQuoteWorthy c = false) : isActive c = false :=
  isActive_eq_false.mpr ⟨Dialect.ne_of_isQuoteWorthy h (by decide),
    Dialect.ne_of_isQuoteWorthy h (by decide), Dialect.isMeta_eq_false h⟩

/-- Outside of quotations a text without active characters is passed on. -/
theorem ShellMode.advance_inactive {text : List Char} (h : ∀ c ∈ text, isActive c = false) :
    advance step plain text = .ok (text, plain) := by
  induction text with
  | nil => rfl
  | cons c rest ih =>
    obtain ⟨hquote, hcircumflex, hmeta⟩ := isActive_eq_false.mp (h c List.mem_cons_self)
    have hstep : plain.step c = .ok ([c], plain) := by simp [step, hquote, hcircumflex, hmeta]
    exact advance_cons_of_ok hstep (ih fun d hd ↦ h d (List.mem_cons_of_mem c hd))

/-! ### What both readers make of a word in the wrong quotes -/

/-- The characters that the C runtime finds in what the command processor passes on. -/
def spelled (shell : ShellMode) (runtime : Runtime) (text : List Char) :
    Except Refusal (List Char) :=
  advance ShellMode.step shell text >>= fun result ↦ (runtime.pieces result.1).map Piece.text

section Spelled

variable {shell next : ShellMode} {runtime : Runtime} {c : Char} {rest text : List Char}

/-- A character that is passed on is read by the C runtime. -/
theorem spelled_cons (h : shell.step c = .ok ([c], next)) :
    spelled shell runtime (c :: rest) =
      (spelled next (runtime.step c).2 rest).map (Piece.text (runtime.step c).1 ++ ·) := by
  unfold spelled
  rw [advance_cons h]
  cases advance ShellMode.step next rest with
  | error refusal => rfl
  | ok result =>
    simp only [Except.map, bind, Except.bind, List.singleton_append, Runtime.pieces_cons]
    cases (runtime.step c).2.pieces result.1 <;> simp

/-- A circumflex that is taken away is not read. -/
theorem spelled_circumflex (rest : List Char) :
    spelled .plain runtime ('^' :: rest) = spelled .escaped runtime rest := by
  have hstep : ShellMode.plain.step '^' = .ok ([], .escaped) := rfl
  unfold spelled
  rw [advance_cons hstep]
  cases advance ShellMode.step .escaped rest <;> rfl

theorem spelled_meta (hmeta : Dialect.windows.isMeta c = true) (rest : List Char) :
    spelled .plain runtime (c :: rest) = .error .foundMeta := by
  have hcircumflex : c ≠ '^' := by rintro rfl; exact absurd hmeta (by decide)
  have hquote : c ≠ '"' := by rintro rfl; exact absurd hmeta (by decide)
  simp [spelled, advance, ShellMode.step, hcircumflex, hquote, hmeta, bind, Except.bind]

/-- A character that is passed on, and is neither a backslash nor a quote, is read as it is inside
of a quotation, behind the backslashes in front of it. -/
theorem spelled_character (h : shell.step c = .ok ([c], next)) (hbackslash : c ≠ '\\')
    (hquote : c ≠ '"') {count : Nat}
    (hspelled : spelled shell ⟨.inside, count⟩ (c :: rest) = .ok text) :
    ∃ more, text = backslashes count ++ c :: more ∧
      spelled next ⟨.inside, 0⟩ rest = .ok more := by
  rw [spelled_cons h, Runtime.step_character _ hbackslash hquote] at hspelled
  obtain ⟨more, hmore, rfl⟩ := exists_of_map_eq_ok hspelled
  exact ⟨more, by simp [Quoting.piece, Piece.text], hmore⟩

/-- A quote behind an odd run of backslashes is read as one. -/
theorem spelled_quote_of_odd (h : shell.step '"' = .ok (['"'], next)) {quoting : Quoting}
    {count : Nat} (hodd : count % 2 = 1)
    (hspelled : spelled shell ⟨quoting, count⟩ ('"' :: rest) = .ok text) :
    ∃ more, text = backslashes (count / 2) ++ '"' :: more := by
  rw [spelled_cons h, Runtime.step_quote_of_odd hodd] at hspelled
  obtain ⟨more, -, rfl⟩ := exists_of_map_eq_ok hspelled
  exact ⟨more, by simp [Piece.text]⟩

/-- A quote behind an even run of backslashes closes the quotation. -/
theorem spelled_quote_of_even (h : shell.step '"' = .ok (['"'], next)) {count : Nat}
    (heven : count % 2 = 0)
    (hspelled : spelled shell ⟨.inside, count⟩ ('"' :: rest) = .ok text) :
    ∃ more, text = backslashes (count / 2) ++ more ∧
      spelled next ⟨.closed, 0⟩ rest = .ok more := by
  rw [spelled_cons h, Runtime.step_quote_of_even heven] at hspelled
  obtain ⟨more, hmore, rfl⟩ := exists_of_map_eq_ok hspelled
  exact ⟨more, by simp [Piece.text, Quoting.mark], hmore⟩

theorem spelled_backslash (shell : ShellMode) (quoting : Quoting) (slashes : Nat)
    (rest : List Char) :
    spelled shell ⟨quoting, slashes⟩ ('\\' :: rest) =
      spelled (shell.after '\\') ⟨quoting.afterCharacter, slashes + 1⟩ rest := by
  have hstep : shell.step '\\' = .ok (['\\'], shell.after '\\') := by
    cases shell <;> rfl
  rw [spelled_cons hstep, Runtime.step_backslash]
  cases spelled (shell.after '\\') ⟨quoting.afterCharacter, slashes + 1⟩ rest <;>
    simp [Except.map, Piece.text]

/-- Backslashes are only counted. -/
theorem spelled_backslashes (shell : ShellMode) (quoting : Quoting) (slashes count : Nat)
    (rest : List Char) :
    spelled shell ⟨quoting, slashes⟩ (backslashes (count + 1) ++ rest) =
      spelled (shell.after '\\') ⟨quoting.afterCharacter, slashes + (count + 1)⟩ rest := by
  induction count generalizing shell quoting slashes with
  | zero => exact spelled_backslash shell quoting slashes rest
  | succ count ih =>
    have hcons : backslashes (count + 1 + 1) ++ rest =
        '\\' :: (backslashes (count + 1) ++ rest) := rfl
    have hafter : (shell.after '\\').after '\\' = shell.after '\\' := by cases shell <;> rfl
    have hslashes : slashes + 1 + (count + 1) = slashes + (count + 1 + 1) := by omega
    rw [hcons, spelled_backslash, ih, hafter, Runtime.afterCharacter_afterCharacter, hslashes]

/-- Inside of a quotation that the command processor is outside of, too. -/
theorem spelled_plain_backslashes (slashes count : Nat) (rest : List Char) :
    spelled .plain ⟨.inside, slashes⟩ (backslashes count ++ rest) =
      spelled .plain ⟨.inside, slashes + count⟩ rest := by
  cases count with
  | zero => rfl
  | succ count => exact spelled_backslashes .plain .inside slashes count rest

end Spelled

/-- Behind backslashes different characters stand at different places. -/
theorem backslashes_append_inj {first second : Nat} {c d : Char} {rest other : List Char}
    (hc : c ≠ '\\') (hd : d ≠ '\\')
    (h : backslashes first ++ c :: rest = backslashes second ++ d :: other) :
    first = second ∧ c = d ∧ rest = other := by
  induction first generalizing second with
  | zero =>
    cases second with
    | zero => simpa using h
    | succ second => exact absurd (List.cons.inj h).1 hc
  | succ first ih =>
    cases second with
    | zero => exact absurd (List.cons.inj h).1.symm hd
    | succ second =>
      obtain ⟨rfl, hrest⟩ := ih (List.cons.inj h).2
      exact ⟨rfl, hrest⟩

/-- The inside of a quoted word from a place on, its closing quote and the backslashes behind it. -/
def closing (pending : Nat) (word : Word) : List Char :=
  (escaped pending word).1 ++ '"' :: backslashes (escaped pending word).2

section Closing

variable {pending : Nat} {c : Char} {rest : Word} {text : List Char}

theorem closing_backslash : closing pending ('\\' :: rest) = closing (pending + 1) rest := rfl

theorem closing_quote : closing pending ('"' :: rest) =
    '"' :: (backslashes (2 * pending + 1) ++ '^' :: '"' :: '"' :: closing 0 rest) := by
  simp [closing, escaped, backslashes_succ]

theorem closing_character (hbackslash : c ≠ '\\') (hquote : c ≠ '"') :
    closing pending (c :: rest) = backslashes pending ++ c :: closing 0 rest := by
  unfold closing
  rw [escaped] <;> simp_all

/-- Outside of quotations the backslashes at the end of the line are read as they are. -/
theorem spelled_end (shell : ShellMode) {quoting : Quoting} (hquoting : quoting ≠ .inside)
    (count : Nat) : spelled shell ⟨quoting, 0⟩ (backslashes count) = .ok (backslashes count) := by
  have hnil (shell : ShellMode) {quoting : Quoting} (hquoting : quoting ≠ .inside) (slashes : Nat) :
      spelled shell ⟨quoting, slashes⟩ [] = .ok (backslashes slashes) := by
    simp [spelled, Runtime.pieces, Runtime.finish, hquoting, bind, Except.bind, Except.map]
  cases count with
  | zero => exact hnil shell hquoting 0
  | succ count =>
    have hafter : quoting.afterCharacter ≠ .inside := by
      cases quoting with
      | inside => exact absurd rfl hquoting
      | outside | closed => decide
    have h := spelled_backslashes shell quoting 0 count []
    rwa [List.append_nil, hnil _ hafter, Nat.zero_add] at h

/-- At the end of the word there are the backslashes that its inside leaves out. -/
theorem spelled_closing_nil (h : spelled .plain ⟨.inside, 0⟩ (closing pending []) = .ok text) :
    text = backslashes pending := by
  have hquote : ShellMode.plain.step '"' = .ok (['"'], .quoted) := rfl
  obtain ⟨more, rfl, hmore⟩ := spelled_quote_of_even hquote rfl h
  rw [spelled_end .quoted (by decide)] at hmore
  cases hmore
  rfl

/-- A quote of the word opens a quotation of the command processor, which keeps the circumflex. -/
theorem spelled_closing_quote
    (h : spelled .plain ⟨.inside, 0⟩ (closing pending ('"' :: rest)) = .ok text) :
    ∃ more, text = backslashes (2 * pending + 1) ++ '^' :: more := by
  have hquote : ShellMode.plain.step '"' = .ok (['"'], .quoted) := rfl
  have hcircumflex : (ShellMode.quoted.after '\\').step '^' = .ok (['^'], .quoted) := rfl
  rw [closing_quote] at h
  obtain ⟨more, rfl, hmore⟩ := spelled_quote_of_even hquote rfl h
  rw [spelled_backslashes, spelled_cons hcircumflex,
    Runtime.step_character _ (by decide) (by decide)] at hmore
  obtain ⟨last, -, rfl⟩ := exists_of_map_eq_ok hmore
  exact ⟨last, by simp [Quoting.piece, Quoting.afterCharacter, Piece.text, isSeparator]⟩

/-- Outside of the command processor's quotations a circumflex is taken away, and what it refuses
does not come back; any other character is read as it is. -/
theorem spelled_plain_character (hbackslash : c ≠ '\\') (hquote : c ≠ '"') {count : Nat}
    {behind : List Char} (h : spelled .plain ⟨.inside, count⟩ (c :: behind) = .ok text) :
    (c = '^' ∧ spelled .escaped ⟨.inside, count⟩ behind = .ok text) ∨
      (isActive c = false ∧ ∃ more, text = backslashes count ++ c :: more ∧
        spelled .plain ⟨.inside, 0⟩ behind = .ok more) := by
  by_cases hcircumflex : c = '^'
  · subst hcircumflex
    rw [spelled_circumflex] at h
    exact .inl ⟨rfl, h⟩
  · by_cases hmeta : Dialect.windows.isMeta c = true
    · rw [spelled_meta hmeta] at h
      cases h
    · have hstep : ShellMode.plain.step c = .ok ([c], .plain) := by
        simp [ShellMode.step, hcircumflex, hquote, hmeta]
      refine .inr ⟨isActive_eq_false.mpr ⟨hquote, hcircumflex, by simpa using hmeta⟩, ?_⟩
      exact spelled_character hstep hbackslash hquote h

theorem spelled_closing_character (hbackslash : c ≠ '\\') (hquote : c ≠ '"')
    (h : spelled .plain ⟨.inside, 0⟩ (closing pending (c :: rest)) = .ok text) :
    (c = '^' ∧ spelled .escaped ⟨.inside, pending⟩ (closing 0 rest) = .ok text) ∨
      (isActive c = false ∧ ∃ more, text = backslashes pending ++ c :: more ∧
        spelled .plain ⟨.inside, 0⟩ (closing 0 rest) = .ok more) := by
  rw [closing_character hbackslash hquote, spelled_plain_backslashes, Nat.zero_add] at h
  exact spelled_plain_character hbackslash hquote h

/-- A quote behind a circumflex that was taken away is either read as one or closes the quotation,
so that no circumflex is read before what follows it. -/
theorem not_spelled_escaped_quote {behind : List Char}
    (hbehind : ∀ text, spelled .plain ⟨.closed, 0⟩ behind = .ok text →
      '^' ∉ text ∨ ∃ count more, text = backslashes count ++ '"' :: more)
    {count shown : Nat} {more : List Char} :
    spelled .escaped ⟨.inside, count⟩ ('"' :: behind) ≠ .ok (backslashes shown ++ '^' :: more) := by
  intro h
  have hquote : ShellMode.escaped.step '"' = .ok (['"'], .plain) := rfl
  have hread (first : Nat) (last : List Char) :
      backslashes shown ++ '^' :: more ≠ backslashes first ++ '"' :: last := fun htext ↦
    absurd (backslashes_append_inj (by decide) (by decide) htext).2.1 (by decide)
  rcases Nat.mod_two_eq_zero_or_one count with heven | hodd
  · obtain ⟨last, htext, hlast⟩ := spelled_quote_of_even hquote heven h
    rcases hbehind last hlast with hnone | ⟨first, tail, rfl⟩
    · have hmem : '^' ∈ backslashes (count / 2) ++ last := htext ▸ by simp
      rcases List.mem_append.mp hmem with hmem | hmem
      · exact absurd (List.eq_of_mem_replicate hmem) (by decide)
      · exact hnone hmem
    · rw [← List.append_assoc, ← backslashes_add] at htext
      exact hread _ _ htext
  · obtain ⟨last, htext⟩ := spelled_quote_of_odd hquote hodd h
    exact hread _ _ htext

/-- Behind a circumflex that was taken away, and some backslashes, a circumflex is read only behind
at least as many, and directly behind them only if it is the next character of the word. -/
theorem spelled_escaped_closing {word : Word} {count shown : Nat} {more : List Char}
    (h : spelled .escaped ⟨.inside, count⟩ (closing pending word) =
      .ok (backslashes shown ++ '^' :: more)) :
    count ≤ shown ∧ (shown = count → pending = 0 ∧ ∃ rest, word = '^' :: rest ∧
      spelled .plain ⟨.inside, 0⟩ (closing 0 rest) = .ok more) := by
  have hstep (c : Char) : ShellMode.escaped.step c = .ok ([c], .plain) := rfl
  induction word generalizing pending count with
  | nil =>
    refine absurd h (not_spelled_escaped_quote fun text htext ↦ .inl ?_)
    rw [escaped, spelled_end .plain (by decide)] at htext
    cases htext
    simp [backslashes]
  | cons c rest ih =>
    by_cases hbackslash : c = '\\'
    · subst hbackslash
      obtain ⟨hle, hnext⟩ := ih h
      exact ⟨hle, fun hshown ↦ absurd (hnext hshown).1 (Nat.succ_ne_zero pending)⟩
    · by_cases hquote : c = '"'
      · subst hquote
        rw [closing_quote] at h
        refine absurd h (not_spelled_escaped_quote fun text htext ↦ .inr ?_)
        have hodd : (0 + (2 * pending + 1)) % 2 = 1 := by omega
        rw [spelled_backslashes] at htext
        obtain ⟨last, rfl⟩ := spelled_quote_of_odd (hstep '"') hodd
          (by rwa [← spelled_circumflex])
        exact ⟨_, last, rfl⟩
      · rw [closing_character hbackslash hquote] at h
        cases pending with
        | zero =>
          -- the character is passed on, and read behind all of the backslashes
          obtain ⟨last, htext, hlast⟩ := spelled_character (hstep c) hbackslash hquote h
          obtain ⟨rfl, rfl, rfl⟩ := backslashes_append_inj (by decide) hbackslash htext
          exact ⟨Nat.le_refl _, fun _ ↦ ⟨rfl, rest, rfl, hlast⟩⟩
        | succ pending =>
          -- one backslash at least is passed on, so that the count can only grow
          rw [spelled_backslashes] at h
          rcases spelled_plain_character hbackslash hquote h with
            ⟨-, hlast⟩ | ⟨hactive, last, htext, -⟩
          · obtain ⟨hle, -⟩ := ih hlast
            exact ⟨by omega, fun hshown ↦ by omega⟩
          · obtain ⟨-, rfl, -⟩ := backslashes_append_inj (by decide) hbackslash htext
            exact absurd hactive (by decide)

/-- Inside of a quotation that the command processor is outside of, circumflexes in a row do not all
come back. -/
theorem not_spelled_closing_circumflexes (word : Word) (pending count : Nat) :
    spelled .plain ⟨.inside, 0⟩ (closing pending word) ≠
      .ok (List.replicate (count + 1) '^' ++ (backslashes pending ++ word)) := by
  intro h
  match word with
  | [] =>
    have htext := spelled_closing_nil h
    have hmem : '^' ∈ backslashes pending := htext ▸ by simp [List.replicate_succ]
    exact absurd (List.eq_of_mem_replicate hmem) (by decide)
  | c :: rest =>
    have hfront : List.replicate (count + 1) '^' ++ (backslashes pending ++ c :: rest) =
        backslashes 0 ++ '^' :: (List.replicate count '^' ++ (backslashes pending ++ c :: rest)) :=
      rfl
    by_cases hbackslash : c = '\\'
    · subst hbackslash
      refine not_spelled_closing_circumflexes rest (pending + 1) count ?_
      rw [← closing_backslash, h]
      simp [backslashes_succ]
    · by_cases hquote : c = '"'
      · subst hquote
        obtain ⟨more, htext⟩ := spelled_closing_quote h
        rw [hfront] at htext
        have hcount := (backslashes_append_inj (by decide) (by decide) htext).1
        omega
      · rcases spelled_closing_character hbackslash hquote h with
          ⟨rfl, hbehind⟩ | ⟨hactive, more, htext, -⟩
        · rw [hfront] at hbehind
          obtain ⟨hle, hnext⟩ := spelled_escaped_closing hbehind
          obtain rfl : pending = 0 := Nat.le_zero.mp hle
          obtain ⟨-, others, rfl, hmore⟩ := hnext rfl
          refine not_spelled_closing_circumflexes others 0 (count + 1) ?_
          rw [hmore]
          simp [List.replicate_succ', List.append_assoc]
        · rw [hfront] at htext
          obtain ⟨-, rfl, -⟩ := backslashes_append_inj (by decide) hbackslash htext
          exact absurd hactive (by decide)
termination_by word.length

/-- A word that comes back from a quotation that the command processor is outside of has nothing
that is active. -/
theorem isActive_eq_false_of_spelled_closing {word : Word}
    (h : spelled .plain ⟨.inside, 0⟩ (closing pending word) =
      .ok (backslashes pending ++ word)) : ∀ c ∈ word, isActive c = false := by
  induction word generalizing pending with
  | nil => simp
  | cons c rest ih =>
    by_cases hbackslash : c = '\\'
    · subst hbackslash
      have hrest : spelled .plain ⟨.inside, 0⟩ (closing (pending + 1) rest) =
          .ok (backslashes (pending + 1) ++ rest) := by
        rw [← closing_backslash, h]
        simp [backslashes_succ]
      exact List.forall_mem_cons.mpr ⟨by decide, ih hrest⟩
    · by_cases hquote : c = '"'
      · subst hquote
        obtain ⟨more, htext⟩ := spelled_closing_quote h
        have := (backslashes_append_inj (by decide) (by decide) htext).2.1
        exact absurd this (by decide)
      · rcases spelled_closing_character hbackslash hquote h with
          ⟨rfl, hbehind⟩ | ⟨hactive, more, htext, hmore⟩
        · obtain ⟨-, hnext⟩ := spelled_escaped_closing hbehind
          obtain ⟨-, others, rfl, hothers⟩ := hnext rfl
          exact absurd hothers (not_spelled_closing_circumflexes others 0 0)
        · obtain ⟨-, -, rfl⟩ := backslashes_append_inj hbackslash hbackslash htext
          exact List.forall_mem_cons.mpr ⟨hactive, ih hmore⟩

end Closing

/-! ### A word alone -/

variable {word : Word}

/-- The command processor, inside of a quotation or outside, passes a written word on so that it
comes back. -/
def Survives (shell : ShellMode) (word : Word) : Prop :=
  ∃ received last, advance ShellMode.step shell (quote word) = .ok (received, last) ∧
    arguments received = .ok [word]

/-- The C runtime finds the word in what is passed on of it. -/
theorem arguments_passed (word : Word) : arguments (passed word) = .ok [word] := by
  simpa [passedLine] using arguments_passedLine [word]

/-- With nothing open every word comes back. -/
theorem survives_plain (word : Word) : Survives .plain word :=
  ⟨passed word, .plain, advance_quote word, arguments_passed word⟩

theorem mem_escaped {pending : Nat} {c : Char} (hword : '"' ∉ word)
    (hc : c ∈ (escaped pending word).1) : c ∈ word ∨ c = '\\' := by
  fun_induction escaped pending word with
  | case1 pending => cases hc
  | case2 pending rest ih =>
    rcases ih (fun h ↦ hword (List.mem_cons_of_mem _ h)) hc with hmem | rfl
    · exact .inl (List.mem_cons_of_mem _ hmem)
    · exact .inr rfl
  | case3 pending rest inside ih => exact absurd List.mem_cons_self hword
  | case4 pending d rest _ _ inside ih =>
    rcases List.mem_append.mp hc with hslash | hc
    · exact .inr (List.eq_of_mem_replicate hslash)
    · rcases List.mem_cons.mp hc with rfl | hc
      · exact .inl List.mem_cons_self
      · rcases ih (fun h ↦ hword (List.mem_cons_of_mem _ h)) hc with hmem | rfl
        · exact .inl (List.mem_cons_of_mem _ hmem)
        · exact .inr rfl

/-- A word with nothing active comes back from the wrong quotes, too. -/
theorem survives_quoted_of_inactive (h : ∀ c ∈ word, isActive c = false) :
    Survives .quoted word := by
  have hword : '"' ∉ word := fun hmem ↦ absurd (h '"' hmem) (by decide)
  suffices hpassed : ∃ last, advance ShellMode.step .quoted (quote word) = .ok (quote word, last) by
    obtain ⟨last, hlast⟩ := hpassed
    exact ⟨quote word, last, hlast, by rw [quote_eq_passed hword, arguments_passed]⟩
  rw [quote_eq]
  split
  · have hopening : ShellMode.quoted.step '"' = .ok (['"'], .plain) := rfl
    have hclosing : ShellMode.plain.step '"' = .ok (['"'], .quoted) := rfl
    have hinside : advance ShellMode.step .plain (escaped 0 word).1 =
        .ok ((escaped 0 word).1, .plain) := by
      refine ShellMode.advance_inactive fun c hc ↦ ?_
      rcases mem_escaped hword hc with hmem | rfl
      · exact h c hmem
      · decide
    have hslashes := ShellMode.advance_quoted (quote_notMem_backslashes (escaped 0 word).2)
    exact ⟨.quoted, advance_append_of_ok (advance_cons_of_ok hopening hinside)
      (advance_cons_of_ok hclosing hslashes)⟩
  · exact ⟨.quoted, ShellMode.advance_quoted hword⟩

/-- A word with something active does not. -/
theorem inactive_of_survives_quoted (h : Survives .quoted word) :
    ∀ c ∈ word, isActive c = false := by
  obtain ⟨received, last, hadvance, harguments⟩ := h
  rw [quote_eq] at hadvance
  split at hadvance
  · have hspelled : spelled .quoted .start ('"' :: closing 0 word) = .ok word := by
      have htext : '"' :: closing 0 word =
          '"' :: (escaped 0 word).1 ++ '"' :: backslashes (escaped 0 word).2 := rfl
      rw [arguments_eq] at harguments
      obtain ⟨found, hfound, hwords⟩ := exists_of_map_eq_ok harguments
      have hflatten := Piece.flatten_words found
      rw [hwords, List.flatten_singleton] at hflatten
      rw [spelled, htext, hadvance]
      show (Runtime.start.pieces received).map Piece.text = .ok word
      rw [hfound, hflatten]
      rfl
    have hopening : ShellMode.quoted.step '"' = .ok (['"'], .plain) := rfl
    rw [spelled_cons hopening] at hspelled
    obtain ⟨text, htext, rfl⟩ := exists_of_map_eq_ok hspelled
    exact isActive_eq_false_of_spelled_closing htext
  · rename_i hplain
    obtain ⟨-, hneeds⟩ := Dialect.ne_nil_of_not_quoted hplain
    intro c hc
    exact isActive_eq_false_of_isQuoteWorthy (Dialect.isQuoteWorthy_eq_false_of_mem hneeds hc)

/-! ### A word behind a line -/

variable {directory : Option (List Char)} {home line : List Char} {words : List Word}

/-- A line that both readers take, and what is passed on of it. -/
theorem exists_of_split_strict (h : split true ⟨none, directory, home⟩ line = .ok words) :
    '%' ∉ line ∧ ∃ received last,
      advance ShellMode.step .plain (dropEcho line) = .ok (received, last) ∧
        arguments received = .ok words := by
  rw [split_strict_eq] at h
  split at h
  · cases h
  · rename_i hpercent
    refine ⟨hpercent, ?_⟩
    rw [received, ShellMode.receivedFrom_eq] at h
    cases hadvance : advance ShellMode.step .plain (dropEcho line) with
    | error refusal =>
      rw [hadvance] at h
      cases h
    | ok result =>
      rw [hadvance] at h
      exact ⟨result.1, result.2, rfl, h⟩

/-- The mode of the command processor behind a space that follows on the line. -/
def afterSpace (line : List Char) : ShellMode := if endsQuoted line then .quoted else .plain

/-- A word behind a line comes back behind the words of the line exactly when it would come back
alone, read from the mode that the line leaves. -/
theorem split_addWord_iff_survives (hline : line ≠ [])
    (hsplit : split true ⟨none, directory, home⟩ line = .ok words) (hword : '%' ∉ word) :
    split true ⟨none, directory, home⟩ (Dialect.windows.addWord line word) =
        .ok (words ++ [word]) ↔ Survives (afterSpace line) word := by
  obtain ⟨hpercent, received, last, hadvance, harguments⟩ := exists_of_split_strict hsplit
  have hcount : '%' ∉ quote word := by
    have h := count_quote (c := '%') (by decide) (by decide) word
    rw [if_neg (by decide), Nat.add_zero, List.count_eq_zero.mpr hword] at h
    exact List.count_eq_zero.mp h
  have hall : '%' ∉ line ++ ' ' :: quote word := by
    simp [hpercent, hcount]
  have hdrop : dropEcho (line ++ ' ' :: quote word) = dropEcho line ++ ' ' :: quote word := by
    obtain ⟨c, rest, rfl⟩ := List.exists_cons_of_ne_nil hline
    by_cases hc : c = '@'
    · subst hc
      rfl
    · rw [dropEcho_of_head?_ne (by simpa using hc), dropEcho_of_head?_ne (by simpa using hc)]
  have hspace : last.step ' ' = .ok ([' '], afterSpace line) := by
    cases last <;> simp [afterSpace, endsQuoted, hadvance] <;> rfl
  have hread : split true ⟨none, directory, home⟩ (Dialect.windows.addWord line word) =
      (advance ShellMode.step (afterSpace line) (quote word)) >>= fun result ↦
        (arguments result.1).map (words ++ ·) := by
    rw [Dialect.addWord_of_ne_nil _ hline, Dialect.quote, split_strict_eq, if_neg hall,
      CommandLine.Windows.received, hdrop, ShellMode.receivedFrom_eq,
      advance_append hadvance, advance_cons hspace]
    cases advance ShellMode.step (afterSpace line) (quote word) with
    | error refusal => rfl
    | ok result => exact arguments_append_space harguments result.1
  rw [hread]
  constructor
  · intro h
    cases hquote : advance ShellMode.step (afterSpace line) (quote word) with
    | error refusal =>
      rw [hquote] at h
      cases h
    | ok result =>
      rw [hquote] at h
      obtain ⟨found, hfound, hwords⟩ := exists_of_map_eq_ok h
      exact ⟨result.1, result.2, hquote, by rw [hfound, List.append_cancel_left hwords]⟩
  · rintro ⟨found, next, hquote, hfound⟩
    rw [hquote]
    show (arguments found).map (words ++ ·) = .ok (words ++ [word])
    rw [hfound]
    rfl

/-- When a word that is put behind a line stays one literal word. It comes back behind the words of
the line exactly when the command processor has no quotation open at the end of the line, or the
word has no double quote, no circumflex and nothing else that the command processor interprets. -/
theorem split_addWord_iff (hline : line ≠ [])
    (hsplit : Dialect.windows.split true ⟨none, directory, home⟩ line = .ok words)
    (hword : '%' ∉ word) :
    Dialect.windows.split true ⟨none, directory, home⟩ (Dialect.windows.addWord line word) =
        .ok (words ++ [word]) ↔
      (endsQuoted line = true → ∀ c ∈ word, isActive c = false) := by
  refine (split_addWord_iff_survives hline hsplit hword).trans ?_
  by_cases hquoted : endsQuoted line = true
  · rw [afterSpace, if_pos hquoted]
    constructor
    · intro h _
      exact inactive_of_survives_quoted h
    · intro h
      exact survives_quoted_of_inactive (h hquoted)
  · rw [afterSpace, if_neg hquoted]
    exact iff_of_true (survives_plain word) fun h ↦ absurd h hquoted

/-- A word with separators behind a line whose escaped quote leaves a quotation of the command
processor open. -/
theorem split_addWord_behind_open_quotation :
    Dialect.windows.split true ⟨none, none, []⟩
        (Dialect.windows.addWord "\"x\\\"\" y".toList "a b,c\\".toList) =
      .ok ["x\"".toList, ['y'], "a b,c\\".toList] := by
  have hsplit : Dialect.windows.split true ⟨none, none, []⟩ "\"x\\\"\" y".toList =
      .ok ["x\"".toList, ['y']] := by
    decide +kernel
  have hinactive : ("a b,c\\".toList.all fun c ↦ !isActive c) = true := by decide
  exact (split_addWord_iff (by decide) hsplit (by decide)).mpr fun _ c hc ↦
    by simpa using List.all_eq_true.mp hinactive c hc

/-- Behind a quote that only the C runtime takes for escaped, what the quotes of a word should
protect is bare: not every word stays literal behind a line that can be split. -/
theorem not_split_addWord_of_open_quotation :
    ¬ ∀ (line : List Char) (words : List Word) (word : Word), line ≠ [] → '%' ∉ line →
      Dialect.windows.split true ⟨none, none, []⟩ line = .ok words → '%' ∉ word →
      Dialect.windows.split true ⟨none, none, []⟩ (Dialect.windows.addWord line word) =
        .ok (words ++ [word]) := by
  intro h
  have hall := h "\\\"".toList [['"']] "a&b".toList (by decide) (by decide) (by decide +kernel)
    (by decide)
  have hrefused : Dialect.windows.split true ⟨none, none, []⟩
      (Dialect.windows.addWord "\\\"".toList "a&b".toList) = .error .foundMeta := by
    decide +kernel
  rw [hrefused] at hall
  cases hall

end CommandLine.Windows
