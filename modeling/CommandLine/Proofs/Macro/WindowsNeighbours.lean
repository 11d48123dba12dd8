import CommandLine.Proofs.Macro.Template
import CommandLine.Proofs.Windows.Readers

/-!
Neighbours of empty values in a line for Windows. An empty value leaves nothing behind, so that what
is in front of it and what is behind it meet: a quote that closes and one that opens, the beginning
of the line and an at sign, a circumflex and the quotes that an empty word is given. Where they do
not, a reader of the line with marks and one of the line without them agree on what follows.
-/

set_option autoImplicit false

namespace CommandLine.Macro.Windows.Emptied

open CommandLine.Windows (ShellMode Quoting Runtime Reader isSeparator backslashes)
open Piece (Gathered)
open Transducer

/-! ### Neighbours that do not meet -/

/-- The first character of a text that the command processor passes on. -/
def nextPassed (shell : ShellMode) : List Char → Option Char
  | [] => none
  | c :: rest => if shell = .plain ∧ c = '^' then rest.head? else some c

theorem nextPassed_escaped (rest : List Char) : nextPassed .escaped rest = rest.head? := by
  cases rest <;> rfl

theorem nextPassed_circumflex (rest : List Char) :
    nextPassed .plain ('^' :: rest) = nextPassed .escaped rest := by
  rw [nextPassed_escaped]
  rfl

theorem nextPassed_of_passed {shell : ShellMode} {c : Char} (h : ¬(shell = .plain ∧ c = '^'))
    (rest : List Char) : nextPassed shell (c :: rest) = some c := if_neg h

/-- What a word has in front of a macro. -/
inductive Beginning
  | nothing
  /-- The at sign at the beginning of a line, which is no part of a word. -/
  | echo
  | something
  deriving DecidableEq, Repr

/-- What a word has behind a character that a reader reads. -/
def Beginning.after (beginning : Beginning) (reader : Reader) (c : Char) : Beginning :=
  if reader.fresh = true ∧ c = '@' then .echo
  else if reader.shell = .plain ∧ c = '^' then beginning
  else if reader.runtime.quoting ≠ .inside ∧ isSeparator c = true then .nothing
  else .something

/-- Only a separator outside of quotations leads to a place where no word has begun. -/
theorem Beginning.after_eq_nothing (beginning : Beginning) {reader : Reader} {c : Char}
    (h : ¬(reader.shell = .plain ∧ c = '^')) :
    beginning.after reader c = .nothing ↔
      reader.runtime.quoting ≠ .inside ∧ isSeparator c = true := by
  rw [after, if_neg h]
  by_cases hat : reader.fresh = true ∧ c = '@'
  · obtain ⟨hfresh, rfl⟩ := hat
    simp [hfresh, isSeparator]
  · rw [if_neg hat]
    split <;> simp_all

/-- What is in front of an empty value and what is behind it mean the same side by side. No at sign
comes to stand at the beginning of the line and no quote behind one that has closed a quotation; an
empty word does not end behind a circumflex, nor right behind the at sign of the line. -/
structure Apart (reader : Reader) (beginning : Beginning) (behind : List Char) : Prop where
  start : reader.fresh = true → behind.head? ≠ some '@'
  quotes : reader.runtime.quoting = .closed → nextPassed reader.shell behind ≠ some '"'
  circumflex : beginning = .nothing → behind.head? = some '^' →
    (nextPassed reader.shell behind).any isSeparator = false
  echo : beginning = .echo → (nextPassed reader.shell behind).any (!isSeparator ·) = true

instance (reader : Reader) (beginning : Beginning) (behind : List Char) :
    Decidable (Apart reader beginning behind) :=
  decidable_of_iff
    ((reader.fresh = true → behind.head? ≠ some '@') ∧
      (reader.runtime.quoting = .closed → nextPassed reader.shell behind ≠ some '"') ∧
      (beginning = .nothing → behind.head? = some '^' →
        (nextPassed reader.shell behind).any isSeparator = false) ∧
      (beginning = .echo → (nextPassed reader.shell behind).any (!isSeparator ·) = true))
    ⟨fun ⟨start, quotes, circumflex, echo⟩ ↦ ⟨start, quotes, circumflex, echo⟩,
      fun ⟨start, quotes, circumflex, echo⟩ ↦ ⟨start, quotes, circumflex, echo⟩⟩

/-- The neighbours of every macro of a template stay apart, from a place on at which a reader of the
line with marks is. -/
def staysApart (reader : Reader) (beginning : Beginning) : Template → Bool
  | [] => true
  | .literal c :: rest =>
    match reader.step c with
    | .ok (_, next) => staysApart next (beginning.after reader c) rest
    | .error _ => true
  | .hole .. :: rest =>
    decide (Apart reader beginning (Template.literals rest)) &&
      staysApart ⟨false, reader.shell, ⟨reader.runtime.quoting.afterCharacter, 0⟩⟩ beginning rest

/-! ### What a character leads to -/

/-- Pieces that go on with a word. -/
def Continue (pieces : List Piece) : Prop := ∃ piece rest, pieces = piece :: rest ∧ piece ≠ .gap

theorem Continue.append {first : List Piece} (h : Continue first) (second : List Piece) :
    Continue (first ++ second) := by
  obtain ⟨piece, rest, rfl, hpiece⟩ := h
  exact ⟨piece, rest ++ second, rfl, hpiece⟩

/-- Pieces that go on with a word open it anyway. -/
theorem Continue.addAll_opening {pieces : List Piece} (h : Continue pieces) (gathered : Gathered) :
    (gathered.add .opening).addAll pieces = gathered.addAll pieces := by
  obtain ⟨piece, rest, rfl, hpiece⟩ := h
  exact gathered.addAll_add_opening hpiece rest

theorem not_continue_nil : ¬Continue [] := by
  rintro ⟨piece, rest, hnil, -⟩
  cases hnil

/-- The backslashes that have been read come before anything else. -/
theorem continue_slashes {count : Nat} (hcount : count ≠ 0) (behind : List Piece) :
    Continue (Piece.chars (backslashes count) ++ behind) := by
  obtain ⟨less, rfl⟩ := Nat.exists_eq_succ_of_ne_zero hcount
  exact ⟨.char '\\', Piece.chars (backslashes less) ++ behind, rfl, by simp⟩

theorem continue_of_gap_notMem {pieces : List Piece} (hnil : pieces ≠ []) (hgap : .gap ∉ pieces) :
    Continue pieces := by
  obtain ⟨piece, rest, rfl⟩ := List.exists_cons_of_ne_nil hnil
  refine ⟨piece, rest, rfl, ?_⟩
  rintro rfl
  exact hgap List.mem_cons_self

/-- A character that is read is one more backslash, a separator, or part of a word. -/
theorem runtime_cases (runtime : Runtime) (c : Char) :
    (c = '\\' ∧ runtime.step c = ([], ⟨runtime.quoting.afterCharacter, runtime.slashes + 1⟩)) ∨
      (runtime.quoting ≠ .inside ∧ isSeparator c = true ∧
        runtime.step c =
          (Piece.chars (backslashes runtime.slashes) ++ [.gap], ⟨.outside, 0⟩)) ∨
      (¬(runtime.quoting ≠ .inside ∧ isSeparator c = true) ∧ c ≠ '\\' ∧
        (runtime.step c).1 ≠ [] ∧ .gap ∉ (runtime.step c).1) := by
  by_cases hbackslash : c = '\\'
  · subst hbackslash
    exact .inl ⟨rfl, rfl⟩
  by_cases hquote : c = '"'
  · subst hquote
    refine .inr (.inr ⟨by simp [isSeparator], by simp, ?_⟩)
    rcases Nat.mod_two_eq_zero_or_one runtime.slashes with heven | hodd
    · rw [Runtime.step_quote_of_even heven]
      cases hquoting : runtime.quoting <;> simp [Quoting.mark]
    · rw [Runtime.step_quote_of_odd hodd]
      simp
  · rw [Runtime.step_character runtime hbackslash hquote, Quoting.piece]
    by_cases hgap : runtime.quoting ≠ .inside ∧ isSeparator c = true
    · rw [if_pos hgap]
      refine .inr (.inl ⟨hgap.1, hgap.2, ?_⟩)
      cases hquoting : runtime.quoting with
      | outside | closed => rfl
      | inside => exact absurd hquoting hgap.1
    · rw [if_neg hgap]
      exact .inr (.inr ⟨hgap, hbackslash, by simp, by simp⟩)

/-- A character that is passed on is read by the C runtime; the at sign at the beginning of a line
and a circumflex outside of quotes are not. -/
theorem reader_cases {reader next : Reader} {c : Char} {here : List Piece}
    (h : reader.step c = .ok (here, next)) :
    ((reader.fresh = true ∧ c = '@') ∧ here = [] ∧
        next = ⟨false, reader.shell, reader.runtime⟩) ∨
      (¬(reader.fresh = true ∧ c = '@') ∧ (reader.shell = .plain ∧ c = '^') ∧ here = [] ∧
        next = ⟨false, .escaped, reader.runtime⟩) ∨
      (¬(reader.fresh = true ∧ c = '@') ∧ ¬(reader.shell = .plain ∧ c = '^') ∧
        here = (reader.runtime.step c).1 ∧
        next = ⟨false, reader.shell.after c, (reader.runtime.step c).2⟩) := by
  rw [Reader.step] at h
  split at h
  · rename_i hat
    cases h
    exact .inl ⟨hat, rfl, rfl⟩
  · rename_i hat
    obtain ⟨⟨passed, shell⟩, hshell, heq⟩ := exists_of_map_eq_ok h
    cases heq
    rcases ShellMode.step_cases hshell with ⟨hcircumflex, rfl, rfl⟩ | ⟨hpassed, -, rfl, rfl⟩
    · exact .inr (.inl ⟨hat, hcircumflex, rfl, rfl⟩)
    · exact .inr (.inr ⟨hat, hpassed, by simp, rfl⟩)

/-- A word goes on behind a reader: there are backslashes to come, or the next character that is
passed on does not separate words. -/
structure GoesOn (reader : Reader) (behind : List Char) : Prop where
  fresh : reader.fresh = false
  word : reader.runtime.slashes ≠ 0 ∨ (nextPassed reader.shell behind).any (!isSeparator ·) = true

variable {marked written next last : Reader} {c : Char} {behind : List Char}
  {here more ending : List Piece}

theorem GoesOn.step (h : GoesOn marked (c :: behind)) (hstep : marked.step c = .ok (here, next)) :
    (here = [] ∧ GoesOn next behind) ∨ Continue here := by
  obtain ⟨hfresh, hword⟩ := h
  rcases reader_cases hstep with
    ⟨⟨hstart, -⟩, -⟩ | ⟨-, ⟨hshell, rfl⟩, rfl, rfl⟩ | ⟨-, hpassed, rfl, rfl⟩
  · rw [hfresh] at hstart
    cases hstart
  · refine .inl ⟨rfl, rfl, ?_⟩
    rwa [hshell, nextPassed_circumflex] at hword
  · rw [nextPassed_of_passed hpassed] at hword
    rcases runtime_cases marked.runtime c with
      ⟨rfl, hslash⟩ | ⟨-, hseparator, hgap⟩ | ⟨-, -, hnil, hgap⟩
    · rw [hslash]
      exact .inl ⟨rfl, rfl, .inl (Nat.succ_ne_zero _)⟩
    · rw [hgap]
      have hslashes : marked.runtime.slashes ≠ 0 := by simpa [hseparator] using hword
      exact .inr (continue_slashes hslashes _)
    · exact .inr (continue_of_gap_notMem hnil hgap)

/-- The pieces of the rest of a line go on with the word. -/
theorem GoesOn.advance (h : GoesOn marked behind)
    (hadvance : advance Reader.step marked behind = .ok (more, last))
    (hending : last.finish = .ok ending) : Continue (more ++ ending) := by
  induction behind generalizing marked more with
  | nil =>
    cases hadvance
    have hslashes : last.runtime.slashes ≠ 0 := by simpa [nextPassed] using h.word
    rw [Reader.finish, Runtime.finish] at hending
    split at hending
    · cases hending
    · cases hending
      simpa using continue_slashes hslashes []
  | cons c rest ih =>
    obtain ⟨here, next, later, hstep, hlater, rfl⟩ := exists_of_advance_cons hadvance
    rcases h.step hstep with ⟨rfl, hgoes⟩ | hcontinue
    · exact ih hgoes hlater
    · rw [List.append_assoc]
      exact hcontinue.append _

/-! ### Two readers that agree -/

/-- A reader of the line with marks and one of the finished text agree on what follows. The first
has read marks that the second knows nothing of, so that the second may still be at the beginning
of the line, or behind a closing quote; what follows does not make a difference of it. -/
structure Agrees (marked written : Reader) (behind : List Char) : Prop where
  shell : marked.shell = written.shell
  slashes : marked.runtime.slashes = written.runtime.slashes
  fresh : marked.fresh = written.fresh ∨ marked.fresh = false ∧ behind.head? ≠ some '@'
  quoting : marked.runtime.quoting = written.runtime.quoting ∨
    marked.fresh = false ∧ marked.runtime.quoting = .outside ∧
      written.runtime.quoting = .closed ∧ nextPassed marked.shell behind ≠ some '"'

namespace Agrees

theorem refl (reader : Reader) (behind : List Char) : Agrees reader reader behind :=
  ⟨rfl, rfl, .inl rfl, .inl rfl⟩

/-- A character other than a quote is read behind a closing quote as outside of quotations. -/
theorem runtime_step_closed (hc : c ≠ '"') (slashes : Nat) :
    Runtime.step ⟨.closed, slashes⟩ c = Runtime.step ⟨.outside, slashes⟩ c := by
  by_cases hbackslash : c = '\\'
  · subst hbackslash
    rfl
  · rw [Runtime.step_character _ hbackslash hc, Runtime.step_character _ hbackslash hc]
    simp [Quoting.piece, Quoting.afterCharacter]

/-- Both readers read a character alike. -/
theorem step (h : Agrees marked written (c :: behind)) (hstep : marked.step c = .ok (here, next)) :
    ∃ other, written.step c = .ok (here, other) ∧ Agrees next other behind := by
  obtain ⟨fresh, shell, quoting, slashes⟩ := marked
  obtain ⟨fresh', shell', quoting', slashes'⟩ := written
  obtain ⟨hshell, hslashes, hfresh, hquoting⟩ := h
  dsimp only at hshell hslashes hfresh hquoting
  subst hshell hslashes
  have hsame : (fresh = true ∧ c = '@') ↔ (fresh' = true ∧ c = '@') := by
    rcases hfresh with rfl | ⟨rfl, hhead⟩
    · exact Iff.rfl
    · have hc : c ≠ '@' := by simpa using hhead
      simp [hc]
  by_cases hat : fresh = true ∧ c = '@'
  · rw [Reader.step, if_pos hat] at hstep
    cases hstep
    refine ⟨⟨false, shell, quoting', slashes⟩, by rw [Reader.step, if_pos (hsame.mp hat)], ?_⟩
    rcases hquoting with rfl | ⟨hbehind, -⟩
    · exact refl _ _
    · rw [hat.1] at hbehind
      cases hbehind
  · have hread (runtime : Runtime) : Reader.step ⟨fresh', shell, runtime⟩ c =
        Reader.step ⟨fresh, shell, runtime⟩ c := by
      rw [Reader.step, Reader.step, if_neg hat, if_neg fun h ↦ hat (hsame.mpr h)]
    rw [hread]
    rcases hquoting with rfl | ⟨hbehind, rfl, rfl, hpassed⟩
    · exact ⟨next, hstep, refl _ _⟩
    · rw [Reader.step, if_neg hat] at hstep ⊢
      obtain ⟨⟨passed, mode⟩, hmode, heq⟩ := exists_of_map_eq_ok hstep
      cases heq
      rw [hmode]
      rcases ShellMode.step_cases hmode with ⟨⟨rfl, rfl⟩, rfl, rfl⟩ | ⟨hnot, -, rfl, rfl⟩
      · rw [nextPassed_circumflex] at hpassed
        exact ⟨_, rfl, rfl, rfl, .inl rfl, .inr ⟨rfl, rfl, rfl, hpassed⟩⟩
      · rw [nextPassed_of_passed hnot] at hpassed
        have hsteps := runtime_step_closed (by simpa using hpassed) slashes
        simp only [Except.map, Runtime.advance_cons, Runtime.advance_nil, hsteps]
        exact ⟨_, rfl, refl _ _⟩

/-- Both readers read the rest of a line alike. -/
theorem advance (h : Agrees marked written behind)
    (hadvance : advance Reader.step marked behind = .ok (more, last))
    (hending : last.finish = .ok ending) :
    ∃ other, Transducer.advance Reader.step written behind = .ok (more, other) ∧
      other.finish = .ok ending := by
  induction behind generalizing marked written more with
  | nil =>
    cases hadvance
    refine ⟨written, rfl, ?_⟩
    rw [Reader.finish, Runtime.finish] at hending ⊢
    rw [← h.slashes]
    rcases h.quoting with hquoting | ⟨-, houtside, hclosed, -⟩
    · rwa [← hquoting]
    · simpa [houtside, hclosed] using hending
  | cons c rest ih =>
    obtain ⟨here, next, later, hstep, hlater, rfl⟩ := exists_of_advance_cons hadvance
    obtain ⟨other, hother, hagrees⟩ := h.step hstep
    obtain ⟨final, hfinal, hfinish⟩ := ih hagrees hlater
    exact ⟨final, advance_cons_of_ok hother hfinal, hfinish⟩

end Agrees

end CommandLine.Macro.Windows.Emptied
