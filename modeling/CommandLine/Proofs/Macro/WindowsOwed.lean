import CommandLine.Proofs.Macro.WindowsNeighbours
import CommandLine.Proofs.Macro.WindowsScan

/-!
Scans of a line for Windows whose values are empty. Between words an empty value leaves an empty
word that is owed until it is known whether the word goes on; apart from that the scan is where it
would be without the value. What it owes is told from what a word has in front of its place.
-/

set_option autoImplicit false

namespace CommandLine.Macro.Windows

open CommandLine.Windows (ShellMode Quoting Runtime Reader isSeparator backslashes)
open Piece (Gathered)
open Transducer

/-! ### Scans that owe a word -/

/-- The state as it would be if no empty word were owed. -/
def ArgvState.calm : ArgvState → ArgvState
  | needsWord => between
  | state => state

/-- The scan as it would be if no empty word were owed. -/
def Scan.calm (scan : Scan) : Scan := { scan with argv := scan.argv.calm }

namespace ArgvState

@[simp] theorem calm_marked (state : ArgvState) : state.calm.marked = state.marked := by
  cases state <;> rfl

@[simp] theorem calm_written (state : ArgvState) : state.calm.written = state.written := by
  cases state <;> rfl

@[simp] theorem calm_eq_needsQuote {state : ArgvState} :
    state.calm = needsQuote ↔ state = needsQuote := by
  cases state <;> simp [calm]

theorem calm_ne_needsWord (state : ArgvState) : state.calm ≠ needsWord := by
  cases state <;> simp [calm]

theorem calm_of_ne {state : ArgvState} (h : state ≠ needsWord) : state.calm = state := by
  cases state with
  | needsWord => exact absurd rfl h
  | between | inWord | closed | hadQuote | quoted | needsQuote => rfl

/-- An owed word makes no difference to the state behind a character. -/
theorem calm_read (state : ArgvState) (slashes : Nat) (c : Char) :
    state.calm.read slashes c = state.read slashes c := by
  cases state <;> rfl

/-- Only a separator outside of quotations leads to between two words. -/
theorem between_of_read {state next : ArgvState} {slashes count : Nat} {c : Char}
    (hneeds : state ≠ needsQuote) (h : state.read slashes c = .ok (next, count)) :
    next = between ↔ state.marked ≠ .inside ∧ isSeparator c = true := by
  unfold read at h
  split at h
  · cases h
    cases state <;> simp_all [afterSeparator, isQuoted, marked]
  · split at h
    · cases h
      cases state <;> simp_all [afterCharacter, isQuoted]
    · split at h
      · obtain ⟨other, hafter, heq⟩ := exists_of_map_eq_ok h
        cases heq
        cases state <;> cases hafter <;> simp_all
      · cases h
        cases state <;> simp_all [afterCharacter, isQuoted]

end ArgvState

namespace Scan

@[simp] theorem calm_argv (scan : Scan) : scan.calm.argv = scan.argv.calm := rfl

@[simp] theorem calm_owed (scan : Scan) : scan.calm.owed = scan.owed := rfl

@[simp] theorem calm_slashes (scan : Scan) : scan.calm.slashes = scan.slashes := rfl

@[simp] theorem calm_finished (scan : Scan) : scan.calm.finished = scan.finished := rfl

@[simp] theorem calm_markedReader (scan : Scan) :
    scan.calm.markedReader = scan.markedReader := by
  simp [markedReader, calm]

@[simp] theorem calm_writtenReader (scan : Scan) (extra : Nat) :
    scan.calm.writtenReader extra = scan.writtenReader extra := by
  simp [writtenReader, calm]

@[simp] theorem calm_shell (scan : Scan) : scan.calm.shell = scan.shell := rfl

@[simp] theorem calm_next (scan : Scan) : scan.calm.next = scan.next := rfl

/-- An owed word makes a difference only where a separator ends it. -/
theorem calm_taken {scan later : Scan} {c : Char} {rest : List Char}
    (hneeds : scan.argv ≠ .needsQuote) (hword : ¬(isSeparator c = true ∧ scan.argv = .needsWord))
    (h : scan.taken c rest = .ok later) : scan.calm.taken c rest = .ok later.calm := by
  have hamended : scan.calm.amended c = scan.amended c := by
    rw [amended, amended, if_neg hword, if_neg fun h ↦ scan.argv.calm_ne_needsWord h.2]
    rfl
  rcases taken_cases h with ⟨hcircumflex, rfl⟩ | ⟨hpassed, argv, slashes, hread, rfl⟩
  · simp [taken, hcircumflex, calm]
  · obtain ⟨-, -, hnot, -⟩ := ArgvState.read_ok hneeds hread
    rw [taken, calm_shell, if_neg hpassed, calm_argv, calm_slashes, ArgvState.calm_read, hread,
      hamended]
    simp [Except.map, calm, ArgvState.calm_of_ne hnot]

end Scan

namespace Emptied

/-! ### What is owed, and what has been gathered -/

/-- What is behind a macro ends no empty word behind a circumflex. -/
structure OwesWord (marked : Reader) (behind : List Char) : Prop where
  fresh : marked.fresh = false
  shell : marked.shell ≠ .quoted
  circumflex : marked.shell = .escaped ∨ behind.head? = some '^' →
    (nextPassed marked.shell behind).any isSeparator = false

/-- What a word has in front of the scan's place is told by the scan's state as well. -/
structure Fits (scan : Scan) (marked : Reader) (beginning : Beginning) (behind : List Char) :
    Prop where
  needsQuote : scan.argv ≠ .needsQuote
  hadQuote : scan.argv ≠ .hadQuote
  nothing : beginning = .nothing ↔ scan.argv = .between ∨ scan.argv = .needsWord
  bare : beginning = .nothing → scan.slashes = 0 ∧ scan.owed = 0
  owesWord : scan.argv = .needsWord → OwesWord marked behind
  backslash : scan.slashes ≠ 0 → scan.shell ≠ .escaped → ∃ before, scan.finished = '\\' :: before

/-- What has been gathered from the finished text and, with the marks taken away, from the line with
marks. Marks alone may have begun a word in the one that is still to begin in the other. -/
structure Gathers (argv : ArgvState) (marked : Reader) (beginning : Beginning)
    (behind : List Char) (written spelled : Gathered) : Prop where
  owed : argv = .needsWord → spelled = written.add .opening
  same : argv ≠ .needsWord →
    spelled = written ∨ spelled = written.add .opening ∧ GoesOn marked behind
  something : beginning = .something →
    written.current.isSome = true ∨ marked.runtime.slashes ≠ 0

variable {marked next last : Reader} {c : Char} {behind : List Char}
  {here more ending : List Piece} {macros : Macros} {scan later : Scan} {beginning : Beginning}
  {rest : List Char}

/-- A separator is none of the characters with a meaning of their own. -/
theorem ne_of_isSeparator (hseparator : isSeparator c = true) : c ≠ '\\' ∧ c ≠ '"' ∧ c ≠ '^' := by
  refine ⟨?_, ?_, ?_⟩ <;>
    · rintro rfl
      cases hseparator

/-- The readers are inside of a quotation at the same time. -/
theorem inside_iff (hagrees : Agrees marked scan.markedReader behind) :
    marked.runtime.quoting = .inside ↔ scan.argv.marked = .inside := by
  rcases hagrees.quoting with hquoting | ⟨-, houtside, hclosed, -⟩
  · rw [hquoting]
    rfl
  · have hargv : scan.argv.marked = .closed := hclosed
    simp [houtside, hargv]

theorem Fits.taken (h : Fits scan marked beginning (c :: behind))
    (hagrees : Agrees marked scan.markedReader (c :: behind))
    (hword : ¬(isSeparator c = true ∧ scan.argv = .needsWord))
    (hstep : marked.step c = .ok (here, next)) (htaken : scan.taken c rest = .ok later) :
    Fits later next (beginning.after marked c) behind := by
  have hshell : marked.shell = scan.shell := hagrees.shell
  rcases Scan.taken_cases htaken with ⟨⟨hplain, rfl⟩, rfl⟩ | ⟨hpassed, argv, slashes, hread, rfl⟩
  · have hsame : beginning.after marked '^' = beginning := by
      simp [Beginning.after, hshell, hplain]
    rw [hsame]
    refine ⟨h.needsQuote, h.hadQuote, h.nothing, h.bare, fun howes ↦ ?_, by simp⟩
    have hcircumflex := (h.owesWord howes).circumflex (.inr rfl)
    rw [hshell, hplain, nextPassed_circumflex] at hcircumflex
    rcases reader_cases hstep with ⟨⟨-, hc⟩, -⟩ | ⟨-, -, -, rfl⟩ | ⟨-, hnot, -⟩
    · cases hc
    · exact ⟨rfl, by simp, fun _ ↦ hcircumflex⟩
    · exact absurd ⟨hshell.trans hplain, rfl⟩ hnot
  · obtain ⟨hquote, hhad, hnot, -⟩ := ArgvState.read_ok h.needsQuote hread
    have hbetween := ArgvState.between_of_read h.needsQuote hread
    have hnothing : beginning.after marked c = .nothing ↔ argv = .between := by
      rw [hbetween, ne_eq, ← inside_iff hagrees]
      exact beginning.after_eq_nothing (by rwa [hshell])
    refine ⟨hquote, hhad, by simp [hnothing, hnot], fun hbare ↦ ?_, fun howes ↦ absurd howes hnot,
      fun hslashes _ ↦ ?_⟩
    · have hseparator := (hbetween.mp (hnothing.mp hbare)).2
      obtain ⟨hbackslash, -, -⟩ := ne_of_isSeparator hseparator
      rw [ArgvState.read, if_pos hseparator] at hread
      cases hread
      exact ⟨rfl, if_neg hbackslash⟩
    · by_cases hbackslash : c = '\\'
      · exact ⟨_, by rw [hbackslash]⟩
      · refine absurd ?_ hslashes
        unfold ArgvState.read at hread
        simp only [hbackslash, if_false] at hread
        split at hread
        · cases hread
          rfl
        · split at hread
          · obtain ⟨other, -, heq⟩ := exists_of_map_eq_ok hread
            cases heq
            rfl
          · cases hread
            rfl

/-- Before the at sign at the beginning of a line the same has been gathered. -/
theorem Gathers.eq_of_fresh {written spelled : Gathered}
    (h : Gathers scan.argv marked beginning behind written spelled)
    (hfits : Fits scan marked beginning behind) (hfresh : marked.fresh = true) :
    spelled = written := by
  have hnot {P : Prop} (hstale : marked.fresh = false) : P := by
    rw [hfresh] at hstale
    cases hstale
  by_cases howes : scan.argv = .needsWord
  · exact hnot (hfits.owesWord howes).fresh
  · rcases h.same howes with hsame | ⟨-, hgoes⟩
    · exact hsame
    · exact hnot hgoes.fresh

/-- Nothing more has been gathered from the line with marks behind a character that the C runtime
reads, unless that was a backslash. -/
theorem Gathers.same_addAll {written spelled : Gathered}
    (h : Gathers scan.argv marked beginning (c :: behind) written spelled)
    (hword : ¬(isSeparator c = true ∧ scan.argv = .needsWord))
    (hstep : marked.step c = .ok (here, next)) (hhere : here = (marked.runtime.step c).1)
    (hnext : next = ⟨false, marked.shell.after c, (marked.runtime.step c).2⟩) :
    spelled.addAll here = written.addAll here ∨
      spelled.addAll here = (written.addAll here).add .opening ∧ GoesOn next behind := by
  have hcases : spelled = written ∨ spelled = written.add .opening ∧
      (scan.argv = .needsWord ∨ GoesOn marked (c :: behind)) := by
    by_cases howes : scan.argv = .needsWord
    · exact .inr ⟨h.owed howes, .inl howes⟩
    · rcases h.same howes with hsame | ⟨hopening, hgoes⟩
      · exact .inl hsame
      · exact .inr ⟨hopening, .inr hgoes⟩
  rcases hcases with rfl | ⟨rfl, hgoes⟩
  · exact .inl rfl
  rcases runtime_cases marked.runtime c with
    ⟨-, hslash⟩ | ⟨-, hseparator, hgap⟩ | ⟨-, -, hnil, hgap⟩
  · refine .inr ⟨by simp [hhere, hslash], ?_⟩
    rw [hnext, hslash]
    exact ⟨rfl, .inl (Nat.succ_ne_zero _)⟩
  · have hgoes := hgoes.resolve_left fun howes ↦ hword ⟨hseparator, howes⟩
    rcases hgoes.step hstep with ⟨hnil, -⟩ | hcontinue
    · rw [hhere, hgap] at hnil
      simp at hnil
    · exact .inl (hcontinue.addAll_opening written)
  · rw [← hhere] at hnil hgap
    exact .inl ((continue_of_gap_notMem hnil hgap).addAll_opening written)

/-- A character that begins or continues a word has been gathered, or backslashes have been read. -/
theorem isSome_addAll_of_read (written : Gathered)
    (hplace : ¬(marked.runtime.quoting ≠ .inside ∧ isSeparator c = true))
    (hhere : here = (marked.runtime.step c).1)
    (hnext : next = ⟨false, marked.shell.after c, (marked.runtime.step c).2⟩) :
    (written.addAll here).current.isSome = true ∨ next.runtime.slashes ≠ 0 := by
  rcases runtime_cases marked.runtime c with
    ⟨-, hslash⟩ | ⟨hinside, hseparator, -⟩ | ⟨-, -, hnil, hgap⟩
  · rw [hnext, hslash]
    exact .inr (Nat.succ_ne_zero _)
  · exact absurd ⟨hinside, hseparator⟩ hplace
  · rw [← hhere] at hnil hgap
    exact .inl (written.isSome_addAll hgap (.inl hnil))

theorem Gathers.taken {written spelled : Gathered}
    (h : Gathers scan.argv marked beginning (c :: behind) written spelled)
    (hfits : Fits scan marked beginning (c :: behind)) (hshell : marked.shell = scan.shell)
    (hword : ¬(isSeparator c = true ∧ scan.argv = .needsWord))
    (hstep : marked.step c = .ok (here, next)) (htaken : scan.taken c rest = .ok later) :
    Gathers later.argv next (beginning.after marked c) behind (written.addAll here)
      (spelled.addAll here) := by
  have hargv : ¬(marked.shell = .plain ∧ c = '^') → later.argv ≠ .needsWord := by
    rw [hshell]
    intro hnot
    rcases Scan.taken_cases htaken with ⟨hcircumflex, -⟩ | ⟨-, argv, slashes, hread, rfl⟩
    · exact absurd hcircumflex hnot
    · exact (ArgvState.read_ok hfits.needsQuote hread).2.2.1
  rcases reader_cases hstep with
    ⟨⟨hfresh, rfl⟩, rfl, rfl⟩ | ⟨hat, ⟨hplain, rfl⟩, rfl, rfl⟩ | ⟨hat, hpassed, hhere, hnext⟩
  · exact ⟨fun howes ↦ absurd howes (hargv (by simp)), fun _ ↦ .inl (h.eq_of_fresh hfits hfresh),
      by simp [Beginning.after, hfresh]⟩
  · have hlater : later.argv = scan.argv := by
      rcases Scan.taken_cases htaken with ⟨-, rfl⟩ | ⟨hnot, -⟩
      · rfl
      · exact absurd ⟨hshell.symm.trans hplain, rfl⟩ hnot
    have hsame : beginning.after marked '^' = beginning := by simp [Beginning.after, hplain]
    rw [hlater, hsame]
    refine ⟨h.owed, fun hnot ↦ ?_, h.something⟩
    rcases h.same hnot with hsame | ⟨hopening, hgoes⟩
    · exact .inl hsame
    · rcases hgoes.step hstep with ⟨-, hgoes⟩ | hcontinue
      · exact .inr ⟨hopening, hgoes⟩
      · exact absurd hcontinue not_continue_nil
  · have hafter : beginning.after marked c =
        if marked.runtime.quoting ≠ .inside ∧ isSeparator c = true then .nothing
        else .something := by
      rw [Beginning.after, if_neg hat, if_neg hpassed]
    refine ⟨fun howes ↦ absurd howes (hargv hpassed),
      fun _ ↦ h.same_addAll hword hstep hhere hnext, fun hsomething ↦ ?_⟩
    refine isSome_addAll_of_read written (fun hplace ↦ ?_) hhere hnext
    rw [hafter, if_pos hplace] at hsomething
    cases hsomething

/-- An empty value writes nothing; between words it leaves an empty word to be written. -/
theorem written_nil {text : List Char} {argv : ArgvState} {owed : Nat}
    (h : scan.written [] = .ok (text, argv, owed)) :
    text = [] ∧ argv = (if scan.argv = .between then .needsWord else scan.argv) ∧
      owed = scan.owed + scan.slashes := by
  unfold Scan.written at h
  dsimp only at h
  split at h
  · rename_i hquoted
    have hbetween : scan.argv ≠ .between := by
      intro hbetween
      rw [hbetween] at hquoted
      cases hquoted
    cases h
    exact ⟨rfl, by rw [if_neg hbetween], rfl⟩
  · cases h
    exact ⟨rfl, rfl, rfl⟩

/-- The scan behind an empty value. A word that only the value begins is owed, and backslashes in
front of the value as well. -/
def behindEmpty (scan : Scan) (ahead : List Char) (next : Option Occurrence) : Scan :=
  { scan with
    rest := ahead, next
    argv := if scan.argv = .between then .needsWord else scan.argv
    slashes := 0, owed := scan.owed + scan.slashes }

theorem substitute_nil {found : Occurrence} (hvalue : found.value = [])
    (h : scan.substitute macros.finder found = .more later) :
    scan.shell ≠ .escaped ∧ (scan.shell = .quoted ↔ scan.argv = .quoted) ∧
      later = behindEmpty scan (scan.rest.drop found.length)
        (macros.find (scan.rest.drop found.length)) := by
  obtain ⟨hescaped, hagree, text, argv, owed, hwritten, rfl⟩ := Scan.substitute_more h
  rw [hvalue] at hwritten
  obtain ⟨rfl, rfl, rfl⟩ := written_nil hwritten
  exact ⟨hescaped, hagree, rfl⟩

section BehindEmpty

variable (ahead : List Char) (ahead? : Option Occurrence)

theorem marked_behindEmpty :
    (behindEmpty scan ahead ahead?).argv.marked = scan.argv.marked := by
  unfold behindEmpty
  dsimp only
  split
  · rename_i hbetween
    rw [hbetween]
    rfl
  · rfl

theorem calm_behindEmpty : (behindEmpty scan ahead ahead?).argv.calm = scan.argv.calm := by
  unfold behindEmpty
  dsimp only
  split
  · rename_i hbetween
    rw [hbetween]
    rfl
  · rfl

end BehindEmpty

/-- The reader of the line with marks behind a mark. -/
def behindMark (marked : Reader) : Reader :=
  ⟨false, marked.shell, ⟨marked.runtime.quoting.afterCharacter, 0⟩⟩

/-- The line with marks goes on behind a mark as the finished text does without it. -/
theorem Agrees.behindMark (h : Agrees marked scan.markedReader behind)
    (hapart : Apart marked beginning behind) (ahead : List Char) (next : Option Occurrence) :
    Agrees (behindMark marked) (behindEmpty scan ahead next).markedReader behind := by
  refine ⟨h.shell, rfl, ?_, ?_⟩
  · rcases h.fresh with hfresh | ⟨-, hhead⟩
    · cases hstart : marked.fresh with
      | false => exact .inl (hstart.symm.trans hfresh)
      | true => exact .inr ⟨rfl, hapart.start hstart⟩
    · exact .inr ⟨rfl, hhead⟩
  · have hplace : marked.runtime.quoting = scan.argv.marked ∨
        marked.runtime.quoting = .outside ∧ scan.argv.marked = .closed ∧
          nextPassed marked.shell behind ≠ some '"' := by
      rcases h.quoting with hsame | ⟨-, hdiffer⟩
      · exact .inl hsame
      · exact .inr hdiffer
    change marked.runtime.quoting.afterCharacter = (behindEmpty scan ahead next).argv.marked ∨
      false = false ∧ marked.runtime.quoting.afterCharacter = .outside ∧
        (behindEmpty scan ahead next).argv.marked = .closed ∧
        nextPassed marked.shell behind ≠ some '"'
    rw [marked_behindEmpty]
    rcases hplace with hsame | ⟨houtside, hclosed, hpassed⟩
    · have hquotes := hapart.quotes
      rw [hsame] at hquotes ⊢
      cases hquoting : scan.argv.marked with
      | outside | inside => exact .inl rfl
      | closed => exact .inr ⟨rfl, rfl, rfl, hquotes hquoting⟩
    · exact .inr ⟨rfl, by rw [houtside]; rfl, hclosed, hpassed⟩

/-- What is owed behind an empty value fits the reader behind the mark. -/
theorem Fits.behindMark (h : Fits scan marked beginning behind)
    (hapart : Apart marked beginning behind) (hshell : marked.shell = scan.shell)
    (hescaped : scan.shell ≠ .escaped) (hquoted : scan.shell = .quoted ↔ scan.argv = .quoted)
    (ahead : List Char) (next : Option Occurrence) :
    Fits (behindEmpty scan ahead next) (behindMark marked) beginning behind := by
  unfold behindEmpty
  refine ⟨?_, ?_, ?_, fun hnothing ↦ ?_, fun howes ↦ ?_, by simp⟩
  · split <;> simp [h.needsQuote]
  · split <;> simp [h.hadQuote]
  · rw [h.nothing]
    split <;> simp_all
  · obtain ⟨hnone, howed⟩ := h.bare hnothing
    exact ⟨rfl, by simp [hnone, howed]⟩
  · have hnothing : beginning = .nothing := by
      rw [h.nothing]
      split at howes
      · exact .inl ‹_›
      · exact .inr howes
    refine ⟨rfl, fun hinside ↦ ?_, fun hcircumflex ↦ ?_⟩
    · have hargv := hquoted.mp (hshell.symm.trans hinside)
      simp [hargv] at howes
    · rcases hcircumflex with hbehind | hhead
      · exact absurd (hshell.symm.trans hbehind) hescaped
      · exact hapart.circumflex hnothing hhead

theorem sound_behindEmpty (hsound : scan.calm.Sound) (hneeds : scan.argv ≠ .needsQuote)
    (ahead : List Char) (next : Option Occurrence) : (behindEmpty scan ahead next).calm.Sound := by
  have hcalm : (behindEmpty scan ahead next).argv.calm = scan.argv.calm :=
    calm_behindEmpty ahead next
  refine ⟨ArgvState.calm_ne_needsWord _, fun hcase ↦ ?_, fun hclosed ↦ ?_, fun hstart ↦ ?_⟩
  · exact absurd (ArgvState.calm_eq_needsQuote.mp (hcalm.symm.trans hcase)) hneeds
  · obtain ⟨hnone, howed⟩ := hsound.behindQuote (by rwa [Scan.calm_argv, ← hcalm])
    exact ⟨rfl, by simpa [behindEmpty] using ⟨howed, hnone⟩⟩
  · obtain ⟨hplain, hbetween, hnone, howed⟩ := hsound.start hstart
    exact ⟨hplain, hcalm.trans hbetween, rfl, by simpa [behindEmpty] using ⟨howed, hnone⟩⟩

/-- Backslashes that were read join the owed ones, at the end of the finished text. -/
theorem reads_behindEmpty {found : List Piece} (hreads : scan.calm.Reads found)
    (hsound : scan.calm.Sound) (hescaped : scan.shell ≠ .escaped)
    (hslashes : scan.slashes ≠ 0 → ∃ before, scan.finished = '\\' :: before)
    (ahead : List Char) (next : Option Occurrence) :
    (behindEmpty scan ahead next).calm.Reads found := by
  have hcalm : (behindEmpty scan ahead next).calm.argv = scan.argv.calm :=
    calm_behindEmpty ahead next
  have hreader (extra : Nat) (hsame : scan.slashes = 0 ∨ extra = 0) :
      (behindEmpty scan ahead next).calm.writtenReader extra = scan.calm.writtenReader extra := by
    rw [Scan.writtenReader, Scan.writtenReader, hcalm]
    simp [Scan.calm, behindEmpty]
  by_cases hnone : scan.slashes = 0
  · intro extra hextra
    rw [hreader extra (.inl hnone)]
    exact hreads extra (by simpa [Scan.calm, behindEmpty, hnone] using hextra)
  · obtain ⟨front, hfront⟩ := hslashes hnone
    refine .of_backslash hfront hescaped ?_ ?_
    · intro hclosed
      rw [hcalm] at hclosed
      refine hnone (hsound.behindQuote ?_).1
      rw [Scan.calm_argv]
      cases hplace : scan.argv.calm <;> simp_all [ArgvState.written]
    · rw [hreader 0 (.inr rfl)]
      exact hreads.finished

/-- A mark opens a word, which the backslashes in front of it do as well. -/
theorem Gathers.behindMark {written spelled : Gathered}
    (h : Gathers scan.argv marked beginning behind written spelled)
    (hapart : Apart marked beginning behind)
    (hnothing : beginning = .nothing ↔ scan.argv = .between ∨ scan.argv = .needsWord)
    (ahead : List Char) (next : Option Occurrence) :
    Gathers (behindEmpty scan ahead next).argv (behindMark marked) beginning
      behind (written.addAll (Piece.chars (backslashes marked.runtime.slashes)))
      ((spelled.addAll (Piece.chars (backslashes marked.runtime.slashes))).add .opening) := by
  have hgap : .gap ∉ Piece.chars (backslashes marked.runtime.slashes) := by simp
  have hopening :
      (spelled.addAll (Piece.chars (backslashes marked.runtime.slashes))).add .opening =
        (written.addAll (Piece.chars (backslashes marked.runtime.slashes))).add .opening := by
    have hcases : spelled = written ∨ spelled = written.add .opening := by
      by_cases howes : scan.argv = .needsWord
      · exact .inr (h.owed howes)
      · exact (h.same howes).imp id And.left
    rcases hcases with rfl | rfl
    · rfl
    · by_cases hslashes : marked.runtime.slashes = 0
      · simp [hslashes, Gathered.add_opening_add_opening]
      · have hcontinue := continue_slashes hslashes []
        rw [List.append_nil] at hcontinue
        rw [hcontinue.addAll_opening]
  have hword (hsomething : beginning = .something) :
      (written.addAll (Piece.chars (backslashes marked.runtime.slashes))).current.isSome = true :=
    written.isSome_addAll hgap <| (h.something hsomething).symm.imp
      (fun hslashes hnil ↦ hslashes (by simpa [Piece.chars, backslashes] using hnil)) id
  rw [hopening]
  refine ⟨fun _ ↦ rfl, fun hnot ↦ ?_, fun hsomething ↦ .inl (hword hsomething)⟩
  cases hbeginning : beginning with
  | nothing =>
    rcases hnothing.mp hbeginning with hargv | hargv <;> simp [behindEmpty, hargv] at hnot
  | something => exact .inl (Gathered.add_opening (hword hbeginning))
  | echo => exact .inr ⟨rfl, rfl, .inr (hapart.echo hbeginning)⟩

/-- Where no word is owed, the rest of a line adds the same to both. -/
theorem Gathers.addAll {argv : ArgvState} {written spelled : Gathered}
    (h : Gathers argv marked beginning behind written spelled) (hnot : argv ≠ .needsWord)
    (hadvance : advance Reader.step marked behind = .ok (more, last))
    (hending : last.finish = .ok ending) :
    spelled.addAll (more ++ ending) = written.addAll (more ++ ending) := by
  rcases h.same hnot with rfl | ⟨rfl, hgoes⟩
  · rfl
  · exact (hgoes.advance hadvance hending).addAll_opening written

end Emptied

end CommandLine.Macro.Windows
