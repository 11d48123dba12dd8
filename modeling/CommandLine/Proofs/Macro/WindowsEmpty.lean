import CommandLine.Proofs.Macro.WindowsOwed
import CommandLine.Proofs.Macro.WindowsSubstitution

/-!
Empty values in a line for Windows contribute nothing and lose no argument. A scan follows a reader
of the line with marks; what the reader of the finished text has gathered is what the other has
gathered with the marks taken away, but for words that marks alone have begun. The neighbours of
the macros have to stay apart; where they meet, words change or are lost.
-/

set_option autoImplicit false

namespace CommandLine.Macro.Windows.Emptied

open CommandLine.Windows (ShellMode Quoting Runtime Reader isSeparator backslashes backslashes_zero
  backslashes_add count_of_received_bind_arguments received arguments split_strict_eq)
open Piece (Gathered)
open Transducer

/-! ### The scan and the readers in step -/

/-- Marks that stand for empty values. -/
def legend (replacement : Char → List Char) : Legend := ⟨IsMark, (· = []), replacement⟩

/-- A scan and the part `passed` of the pieces of a line with marks, of which `more` are to come. -/
structure Follows (macros : Macros) (replacement : Char → List Char) (scan : Scan)
    (marked : Reader) (beginning : Beginning) (cells : List (Char × Part))
    (passed more : List Piece) (last : Reader) : Prop where
  upcoming : Upcoming macros (legend replacement) scan.next scan.rest cells
  sound : scan.calm.Sound
  reading : advance Reader.step marked (cells.map Prod.fst) = .ok (more, last)
  agrees : Agrees marked scan.markedReader (Template.literals (cells.map Prod.snd))
  apart : staysApart marked beginning (cells.map Prod.snd) = true
  fits : Fits scan marked beginning (Template.literals (cells.map Prod.snd))
  written : ∃ found, scan.calm.Reads found ∧
    Gathers scan.argv marked beginning (Template.literals (cells.map Prod.snd))
      ((Gathered.none.addAll found).addAll (Piece.chars (backslashes scan.owed)))
      ((Gathered.none.addAll passed).replace replacement)

variable {marked next last : Reader} {c : Char} {behind : List Char}
  {here more ending : List Piece} {macros : Macros} {replacement : Char → List Char}
  {scan later : Scan}
  {beginning : Beginning} {cells : List (Char × Part)} {passed : List Piece} {rest : List Char}

/-- At a separator the quotes of an empty word are written. -/
theorem taken_of_needsWord (hseparator : isSeparator c = true) (howes : scan.argv = .needsWord)
    (hshell : scan.shell = .plain) (htaken : scan.taken c rest = .ok later) :
    later =
      { finished := c :: '"' :: '"' :: scan.finished, rest, next := scan.next.map (·.nearer 1)
        shell := .plain, argv := .between, slashes := 0, owed := 0 } := by
  obtain ⟨hbackslash, hquote, hnot⟩ := ne_of_isSeparator hseparator
  rcases Scan.taken_cases htaken with ⟨⟨-, hc⟩, -⟩ | ⟨-, argv, slashes, hread, rfl⟩
  · exact absurd hc hnot
  · simp only [ArgvState.read, hseparator, if_true, howes, ArgvState.afterSeparator,
      ArgvState.isQuoted, Except.ok.injEq, Prod.mk.injEq, Bool.false_eq_true, if_false] at hread
    obtain ⟨rfl, rfl⟩ := hread
    simp [Scan.amended, hseparator, howes, hbackslash, hshell, ShellMode.after, hquote]

/-- The quotes and the separator are read as an empty word and a gap. -/
theorem advance_emptyWord (hseparator : isSeparator c = true) (howes : scan.argv = .needsWord)
    (hshell : scan.shell = .plain) (hslashes : scan.slashes = 0) (howed : scan.owed = 0) :
    advance Reader.step (scan.writtenReader 0) ['"', '"', c] =
      .ok ([.opening, .closing, .gap], ⟨false, .plain, ⟨.outside, 0⟩⟩) := by
  obtain rfl | rfl : c = ' ' ∨ c = '\t' := by simpa [isSeparator] using hseparator
  all_goals
    simp only [Scan.writtenReader, howes, hslashes, howed, hshell, ArgvState.written]
    cases scan.finished.isEmpty <;> rfl

namespace Follows

/-- What the pieces of the line with marks spell after a character that stands for itself. -/
theorem replace_here (hkeeps : Keeps replacement) (hself : replacement c = [c])
    (hstep : marked.step c = .ok (here, next)) (passed : List Piece) :
    (Gathered.none.addAll (passed ++ here)).replace replacement =
      ((Gathered.none.addAll passed).replace replacement).addAll here := by
  rw [Gathered.addAll_append]
  refine Gathered.replace_addAll _ fun d hd ↦ ?_
  rcases Reader.of_char_mem_step hstep hd with rfl | rfl | rfl
  · exact hself
  · exact hkeeps.backslash
  · exact hkeeps.quote

/-- The reader of the line with marks reads a character in front of the next macro. -/
theorem literal (h : Follows macros replacement scan marked beginning cells passed more last)
    (hrest : scan.rest = c :: rest) (hgap : ∀ found, scan.next = some found → found.gap ≠ 0) :
    ∃ remaining here next behind, cells = (c, .literal c) :: remaining ∧ more = here ++ behind ∧
      replacement c = [c] ∧ marked.step c = .ok (here, next) ∧
      advance Reader.step next (remaining.map Prod.fst) = .ok (behind, last) ∧
      Upcoming macros (legend replacement) (scan.next.map (·.nearer 1)) rest remaining ∧
      staysApart next (beginning.after marked c) (remaining.map Prod.snd) = true := by
  have hupcoming := h.upcoming
  rw [hrest] at hupcoming
  obtain ⟨remaining, rfl, hself, hbehind⟩ := hupcoming.literal hgap
  obtain ⟨here, next, behind, hstep, hmore, rfl⟩ := exists_of_advance_cons h.reading
  have hapart := h.apart
  rw [List.map_cons, staysApart, hstep] at hapart
  exact ⟨remaining, here, next, behind, rfl, rfl, hself, hstep, hmore, hbehind, hapart⟩

/-- An empty word ends at a separator: its quotes are written. -/
theorem taken_of_owed (hkeeps : Keeps replacement)
    (h : Follows macros replacement scan marked beginning cells passed more last)
    (hrest : scan.rest = c :: rest) (hgap : ∀ found, scan.next = some found → found.gap ≠ 0)
    (hseparator : isSeparator c = true) (howes : scan.argv = .needsWord)
    (htaken : scan.taken c rest = .ok later) :
    ∃ remaining here next behind, more = here ++ behind ∧
      Follows macros replacement later next (beginning.after marked c) remaining (passed ++ here)
        behind last := by
  obtain ⟨remaining, here, next, behind, rfl, rfl, hself, hstep, hmore, hupcoming, hapart⟩ :=
    h.literal hrest hgap
  obtain ⟨hfresh, hquoted, hcircumflex⟩ := h.fits.owesWord howes
  obtain ⟨hslashes, howed⟩ := h.fits.bare (h.fits.nothing.mpr (.inr howes))
  obtain ⟨hbackslash, hquote, hnot⟩ := ne_of_isSeparator hseparator
  have hplain : marked.shell = .plain := by
    cases hshell : marked.shell with
    | plain => rfl
    | quoted => exact absurd hshell hquoted
    | escaped =>
      rw [List.map_cons, Template.literals, hshell] at hcircumflex
      simp [nextPassed, hseparator] at hcircumflex
  have hscanShell : scan.shell = .plain := h.agrees.shell.symm.trans hplain
  have hplace : marked.runtime.quoting ≠ .inside := by
    rcases h.agrees.quoting with hquoting | ⟨-, houtside, -⟩
    · rw [hquoting]
      simp [Scan.markedReader, howes, ArgvState.marked]
    · simp [houtside]
  have hgapHere : marked.runtime.step c = ([.gap], ⟨.outside, 0⟩) := by
    rcases runtime_cases marked.runtime c with ⟨hc, -⟩ | ⟨-, -, hgap⟩ | ⟨hnone, -⟩
    · exact absurd hc hbackslash
    · rw [hgap, h.agrees.slashes]
      simp [Scan.markedReader, hslashes]
    · exact absurd ⟨hplace, hseparator⟩ hnone
  obtain ⟨rfl, rfl⟩ : here = [.gap] ∧ next = ⟨false, .plain, ⟨.outside, 0⟩⟩ := by
    rcases reader_cases hstep with ⟨⟨hstart, -⟩, -⟩ | ⟨-, ⟨-, hc⟩, -⟩ | ⟨-, -, rfl, rfl⟩
    · rw [hfresh] at hstart
      cases hstart
    · exact absurd hc hnot
    · simp [hgapHere, hplain, ShellMode.after, hquote]
  obtain rfl := taken_of_needsWord hseparator howes hscanShell htaken
  have hbeginning : beginning.after marked c = .nothing := by
    simp [Beginning.after, hfresh, hnot, hplace, hseparator]
  obtain ⟨found, hreads, hgathers⟩ := h.written
  refine ⟨remaining, [.gap], _, behind, rfl,
    { upcoming := hupcoming
      sound := ⟨by simp [ArgvState.calm], by simp [ArgvState.calm], by simp [ArgvState.calm],
        by simp⟩
      reading := hmore
      agrees := .refl _ _
      apart := hapart
      fits := ⟨by simp, by simp, by simp [hbeginning], fun _ ↦ ⟨rfl, rfl⟩, by simp, by simp⟩
      written := ⟨found ++ [.opening, .closing, .gap], .of_owed_eq_zero rfl ?_,
        ⟨by simp, fun _ ↦ .inl ?_, by simp [hbeginning]⟩⟩ }⟩
  · have hfinished := hreads.finished
    rw [Scan.calm_writtenReader] at hfinished
    have hquotes := advance_emptyWord hseparator howes hscanShell hslashes howed
    simpa [Scan.calm, Scan.writtenReader, ArgvState.calm, ArgvState.written] using
      advance_append_of_ok hfinished hquotes
  · rw [replace_here hkeeps hself hstep, hgathers.owed howes, howed]
    simp only [Gathered.addAll_append, Gathered.addAll_cons, Gathered.addAll_nil, backslashes_zero,
      Piece.chars_nil]
    rw [Gathered.add_closing rfl]

/-- Both readers read a character of the line. -/
theorem taken (hkeeps : Keeps replacement)
    (h : Follows macros replacement scan marked beginning cells passed more last)
    (hrest : scan.rest = c :: rest) (hgap : ∀ found, scan.next = some found → found.gap ≠ 0)
    (hword : ¬(isSeparator c = true ∧ scan.argv = .needsWord))
    (htaken : scan.taken c rest = .ok later) :
    ∃ remaining here next behind, more = here ++ behind ∧
      Follows macros replacement later next (beginning.after marked c) remaining (passed ++ here)
        behind last := by
  obtain ⟨remaining, here, next, behind, rfl, rfl, hself, hstep, hmore, hupcoming, hapart⟩ :=
    h.literal hrest hgap
  have hneeds : scan.calm.argv ≠ .needsQuote := by simpa using h.fits.needsQuote
  have hcalm := Scan.calm_taken h.fits.needsQuote hword htaken
  obtain ⟨hsound, -, -, hlaterRest, hlaterNext⟩ := h.sound.taken hneeds hcalm
  obtain ⟨other, hother, hagrees⟩ := h.agrees.step hstep
  rw [← Scan.calm_markedReader] at hother
  obtain ⟨rfl, hereWritten, hwritten, hpieces⟩ := h.sound.step_taken hneeds hcalm hother
  rw [Scan.calm_markedReader] at hagrees
  obtain ⟨found, hreads, hgathers⟩ := h.written
  have hgathered : (Gathered.none.addAll (found ++ hereWritten)).addAll
        (Piece.chars (backslashes later.owed)) =
      ((Gathered.none.addAll found).addAll (Piece.chars (backslashes scan.owed))).addAll here := by
    rw [Scan.calm_owed, Scan.calm_owed] at hpieces
    rw [Gathered.addAll_append, ← Gathered.addAll_append, hpieces, Gathered.addAll_append]
  refine ⟨remaining, here, next, behind, rfl,
    { upcoming := ?_
      sound := hsound
      reading := hmore
      agrees := hagrees
      apart := hapart
      fits := h.fits.taken h.agrees hword hstep htaken
      written := ⟨found ++ hereWritten, hreads.taken h.sound hneeds hcalm hwritten, ?_⟩ }⟩
  · have hsame : later.rest = rest ∧ later.next = scan.next.map (·.nearer 1) :=
      ⟨hlaterRest, hlaterNext⟩
    rwa [hsame.1, hsame.2]
  · rw [hgathered, replace_here hkeeps hself hstep]
    exact hgathers.taken h.fits h.agrees.shell hword hstep htaken

/-- A mark is read, and an empty value is put in. -/
theorem substitute (hkeeps : Keeps replacement) {found : Occurrence}
    (h : Follows macros replacement scan marked beginning cells passed more last)
    (hnext : scan.next = some found) (hgap : found.gap = 0)
    (hmore : scan.substitute macros.finder found = .more later) :
    ∃ remaining here next behind, more = here ++ behind ∧
      Follows macros replacement later next beginning remaining (passed ++ here) behind last := by
  have hupcoming := h.upcoming
  rw [hnext] at hupcoming
  obtain ⟨c, text, remaining, rfl, hmark, hvalue, hreplacement, hbehind⟩ := hupcoming.hole hgap
  obtain ⟨hescaped, hquoted, rfl⟩ := substitute_nil hvalue hmore
  obtain ⟨here, next, behind, hstep, hremaining, rfl⟩ := exists_of_advance_cons h.reading
  have hshell : marked.shell = scan.shell := h.agrees.shell
  have hslashes : marked.runtime.slashes = scan.slashes := h.agrees.slashes
  have hread := Reader.step_of_isQuoteWorthy_eq_false hmark.quoteWorthy hmark.at_sign
    hmark.backslash (fun h ↦ hescaped (hshell.symm.trans h)) marked.fresh marked.runtime
  obtain ⟨rfl, rfl⟩ := Prod.mk.inj (Except.ok.inj (hstep.symm.trans hread))
  have hparts := h.apart
  rw [List.map_cons, staysApart, Bool.and_eq_true, decide_eq_true_eq] at hparts
  obtain ⟨hapart, hlater⟩ := hparts
  obtain ⟨before, hreads, hgathers⟩ := h.written
  have hwritten : (behindEmpty scan (scan.rest.drop found.length)
      (macros.find (scan.rest.drop found.length))).calm.Reads before :=
    reads_behindEmpty hreads h.sound hescaped (fun hnone ↦ h.fits.backslash hnone hescaped) _ _
  refine ⟨remaining, _, behindMark marked, behind, rfl,
    { upcoming := hbehind
      sound := sound_behindEmpty h.sound h.fits.needsQuote _ _
      reading := hremaining
      agrees := h.agrees.behindMark hapart _ _
      apart := hlater
      fits := h.fits.behindMark hapart hshell hescaped hquoted _ _
      written := ⟨before, hwritten, ?_⟩ }⟩
  have hempty : replacement c = [] := hreplacement.trans hvalue
  have hspelled : (Gathered.none.addAll (passed ++
        (Piece.chars (backslashes marked.runtime.slashes) ++ [.char c]))).replace replacement =
      (((Gathered.none.addAll passed).replace replacement).addAll
        (Piece.chars (backslashes marked.runtime.slashes))).add .opening := by
    rw [← List.append_assoc, Gathered.addAll_append, Gathered.addAll_append, Gathered.addAll_cons,
      Gathered.addAll_nil, Gathered.replace_add_of_eq_nil hempty,
      hkeeps.replace_backslashes]
  have howed : (behindEmpty scan (scan.rest.drop found.length)
      (macros.find (scan.rest.drop found.length))).owed = scan.owed + scan.slashes := rfl
  rw [hspelled, howed, backslashes_add, Piece.chars_append, Gathered.addAll_append, ← hslashes]
  exact hgathers.behindMark hapart h.fits.nothing _ _

/-- Where no macro is ahead and nothing is owed the readers read the rest of the line alike. -/
theorem finish (hkeeps : Keeps replacement) (hnext : scan.next = none)
    (h : Follows macros replacement scan marked beginning cells passed more last)
    (howed : scan.owed = 0) (hword : scan.argv ≠ .needsWord)
    (hending : last.finish = .ok ending) :
    Spelled replacement (passed ++ more ++ ending) (scan.finished.reverse ++ scan.rest) := by
  have hupcoming := h.upcoming
  rw [hnext] at hupcoming
  obtain ⟨hcells, hself⟩ := hupcoming.of_next_eq_none
  have hliterals : Template.literals (cells.map Prod.snd) = scan.rest := by
    rw [hupcoming.parts]
    exact Template.literals_map_literal scan.rest
  have hmarked := h.reading
  rw [hcells] at hmarked
  have hagrees := h.agrees
  rw [hliterals] at hagrees
  obtain ⟨other, hother, hfinish⟩ := hagrees.advance hmarked hending
  obtain ⟨found, hreads, hgathers⟩ := h.written
  rw [hliterals, howed, backslashes_zero, Piece.chars_nil, Gathered.addAll_nil] at hgathers
  have hsame : scan.writtenReader 0 = scan.markedReader := by
    simp [Scan.writtenReader, Scan.markedReader, h.fits.needsQuote, howed,
      ArgvState.written_eq_marked h.fits.needsQuote h.fits.hadQuote]
  have hread := hreads.finished
  rw [Scan.calm_writtenReader, hsame] at hread
  refine ⟨found ++ more, other, ending, advance_append_of_ok hread hother, hfinish, ?_⟩
  have hfixed : ∀ d, Piece.char d ∈ more ++ ending → replacement d = [d] := by
    intro d hd
    rcases List.mem_append.mp hd with hd | hd
    · rcases Reader.of_char_mem_advance hmarked hd with hmem | rfl | rfl
      · exact hself d hmem
      · exact hkeeps.backslash
      · exact hkeeps.quote
    · rw [Reader.eq_backslash_of_mem_finish hending hd]
      exact hkeeps.backslash
  rw [List.append_assoc, List.append_assoc, Gathered.addAll_append _ found,
    Gathered.addAll_append _ passed, Gathered.replace_addAll _ hfixed]
  exact (hgathers.addAll hword hmarked hending).symm

/-- At the end of the line a word that is owed is written, and the backslashes stay as they are. -/
theorem atEnd (hkeeps : Keeps replacement) (hrest : scan.rest = [])
    (h : Follows macros replacement scan marked beginning cells passed more last)
    (hending : last.finish = .ok ending) :
    Spelled replacement (passed ++ more ++ ending) scan.ending := by
  have hupcoming := h.upcoming
  rw [hrest] at hupcoming
  rw [hupcoming.next_eq_none] at hupcoming
  have hmarked := h.reading
  rw [hupcoming.of_next_eq_none.1] at hmarked
  cases hmarked
  have hslashes : marked.runtime.slashes = scan.slashes := h.agrees.slashes
  have hshell : marked.shell = scan.shell := h.agrees.shell
  obtain ⟨hplace, rfl⟩ : marked.runtime.quoting ≠ .inside ∧
      ending = Piece.chars (backslashes scan.slashes) := by
    rw [Reader.finish, Runtime.finish, hslashes] at hending
    split at hending
    · cases hending
    · rename_i hplace
      cases hending
      exact ⟨hplace, rfl⟩
  obtain ⟨found, hreads, hgathers⟩ := h.written
  have hfinished := hreads.finished
  rw [Scan.calm_writtenReader, Scan.calm_finished] at hfinished
  by_cases howes : scan.argv = .needsWord
  · obtain ⟨hnone, howed⟩ := h.fits.bare (h.fits.nothing.mpr (.inr howes))
    have hquoted : scan.shell ≠ .quoted := by
      rw [← hshell]
      exact (h.fits.owesWord howes).shell
    have hquotes : ∃ final, advance Reader.step (scan.writtenReader 0) ['"', '"'] =
        .ok ([.opening, .closing], final) ∧ final.finish = .ok [] := by
      simp only [Scan.writtenReader, howes, hnone, howed, ArgvState.written]
      cases hmode : scan.shell with
      | quoted => exact absurd hmode hquoted
      | plain | escaped => cases scan.finished.isEmpty <;> exact ⟨_, rfl, rfl⟩
    obtain ⟨final, hread, hfinish⟩ := hquotes
    refine ⟨found ++ [.opening, .closing], final, [], ?_, hfinish, ?_⟩
    · rw [Scan.ending, if_pos howes]
      simpa using advance_append_of_ok hfinished hread
    · have hgathered := hgathers.owed howes
      rw [howed, backslashes_zero, Piece.chars_nil, Gathered.addAll_nil] at hgathered
      simp only [hnone, backslashes_zero, Piece.chars_nil, List.append_nil, hgathered,
        Gathered.addAll_append, Gathered.addAll_cons, Gathered.addAll_nil]
      rw [Gathered.add_closing rfl]
  · have hwritten : scan.argv.written ≠ .inside := by
      have hsame := ArgvState.written_eq_marked h.fits.needsQuote h.fits.hadQuote
      rw [hsame]
      exact fun hinside ↦ hplace ((inside_iff h.agrees).mpr hinside)
    refine ⟨found, scan.writtenReader 0, Piece.chars (backslashes (scan.owed + scan.slashes)), ?_,
      ?_, ?_⟩
    · rw [Scan.ending, if_neg howes]
      exact hfinished
    · rw [Reader.finish, Runtime.finish, Scan.writtenReader, if_neg hwritten, Nat.add_zero]
    · have hnil : Template.literals (cells.map Prod.snd) = [] := by
        rw [hupcoming.parts]
        rfl
      rw [hnil] at hgathers
      have hsame := hgathers.addAll howes rfl hending
      rw [List.nil_append] at hsame
      rw [backslashes_add, Piece.chars_append, ← List.append_assoc, Gathered.addAll_append,
        Gathered.addAll_append, ← hsame, List.append_nil, Gathered.addAll_append,
        hkeeps.replace_backslashes]

end Follows

/-- A scan in step with a reader of the line with marks, whose pieces to its end are `all`. -/
def InStep (macros : Macros) (replacement : Char → List Char) (all : List Piece) (scan : Scan) :
    Prop :=
  ∃ marked beginning cells passed more last ending,
    Follows macros replacement scan marked beginning cells passed more last ∧
      last.finish = .ok ending ∧ passed ++ more ++ ending = all

theorem rest_of_taken (htaken : scan.taken c rest = .ok later) :
    later.rest = rest ∧ later.next = scan.next.map (·.nearer 1) := by
  rcases Scan.taken_cases htaken with ⟨-, rfl⟩ | ⟨-, argv, slashes, -, rfl⟩ <;> exact ⟨rfl, rfl⟩

/-- A scan ends behind a character that belongs to a word or separates words. -/
theorem ne_needsWord_of_done {text : List Char} (hneeds : scan.argv ≠ .needsQuote)
    (hdone : scan.read c rest = .done text) (htaken : scan.taken c rest = .ok later) :
    later.argv ≠ .needsWord := by
  rcases Scan.taken_cases htaken with ⟨hcircumflex, -⟩ | ⟨-, argv, slashes, hread, rfl⟩
  · simp [Scan.read, hcircumflex] at hdone
  · exact (ArgvState.read_ok hneeds hread).2.2.1

namespace InStep

variable {all : List Piece}

/-- A character in front of the next macro. -/
theorem read (hkeeps : Keeps replacement) (h : InStep macros replacement all scan)
    (hrest : scan.rest = c :: rest) (hgap : ∀ found, scan.next = some found → found.gap ≠ 0) :
    (∃ next, scan.settle.read c rest = .more next ∧ InStep macros replacement all next) ∨
      (∃ text, scan.settle.read c rest = .done text ∧ Spelled replacement all text) ∨
      ∃ failure, scan.settle.read c rest = .failed failure := by
  obtain ⟨marked, beginning, cells, passed, more, last, ending, hfollows, hending, rfl⟩ := h
  have hsettle : scan.settle = scan := if_neg hfollows.fits.needsQuote
  rw [hsettle]
  rcases Scan.read_cases hfollows.fits.needsQuote c rest with hfailed | ⟨later, htaken, hread⟩
  · exact .inr (.inr hfailed)
  · have hlater : ∃ remaining here next behind, more = here ++ behind ∧
        Follows macros replacement later next (beginning.after marked c) remaining (passed ++ here)
          behind last := by
      by_cases howed : isSeparator c = true ∧ scan.argv = .needsWord
      · exact hfollows.taken_of_owed hkeeps hrest hgap howed.1 howed.2 htaken
      · exact hfollows.taken hkeeps hrest hgap howed htaken
    obtain ⟨remaining, here, next, behind, rfl, hlater⟩ := hlater
    rcases hread with hmore | ⟨hdone, hnone, howed, -, -⟩
    · exact .inl ⟨later, hmore, next, _, remaining, passed ++ here, behind, last, ending, hlater,
        hending, by simp⟩
    · refine .inr (.inl ⟨_, hdone, ?_⟩)
      obtain ⟨hlaterRest, hlaterNext⟩ := rest_of_taken htaken
      have hfinish := hlater.finish hkeeps (by rw [hlaterNext, hnone]; rfl) howed
        (ne_needsWord_of_done hfollows.fits.needsQuote hdone htaken) hending
      rw [hlaterRest] at hfinish
      simpa using hfinish

/-- A step of a scan leaves it in step with the reader, or ends with a text in which the marks are
replaced, or fails. -/
theorem step (hkeeps : Keeps replacement) (h : InStep macros replacement all scan) :
    (∃ next, scan.step macros.finder = .more next ∧ InStep macros replacement all next) ∨
      (∃ text, scan.step macros.finder = .done text ∧ Spelled replacement all text) ∨
      ∃ failure, scan.step macros.finder = .failed failure := by
  cases hrest : scan.rest with
  | nil =>
    obtain ⟨marked, beginning, cells, passed, more, last, ending, hfollows, hending, rfl⟩ := h
    have hsettle : scan.settle = scan := if_neg hfollows.fits.needsQuote
    refine .inr (.inl ⟨scan.settle.ending, by simp [Scan.step, hrest], ?_⟩)
    rw [hsettle]
    exact hfollows.atEnd hkeeps hrest hending
  | cons c rest =>
    cases hnext : scan.next with
    | none =>
      have hstep : scan.step macros.finder = scan.settle.read c rest := by
        simp [Scan.step, hrest, hnext]
      rw [hstep]
      exact h.read hkeeps hrest (by simp [hnext])
    | some found =>
      by_cases hgap : found.gap = 0
      · have hstep : scan.step macros.finder = scan.substitute macros.finder found := by
          simp [Scan.step, hrest, hnext, hgap]
        rw [hstep]
        rcases Scan.substitute_cases macros.finder scan found with ⟨later, hmore⟩ | hfailed
        · obtain ⟨marked, beginning, cells, passed, more, last, ending, hfollows, hending, rfl⟩ := h
          obtain ⟨remaining, here, next, behind, rfl, hlater⟩ :=
            hfollows.substitute hkeeps hnext hgap hmore
          exact .inl ⟨later, hmore, next, beginning, remaining, passed ++ here, behind, last,
            ending, hlater, hending, by simp⟩
        · exact .inr (.inr hfailed)
      · have hstep : scan.step macros.finder = scan.settle.read c rest := by
          simp [Scan.step, hrest, hnext, hgap]
        rw [hstep]
        refine h.read hkeeps hrest fun other hother ↦ ?_
        rw [hnext, Option.some.injEq] at hother
        rwa [← hother]

/-- The text that a scan in step ends with holds nothing in place of marks. -/
theorem run (hkeeps : Keeps replacement) (h : InStep macros replacement all scan)
    {text : List Char} (hrun : scan.run macros.finder = .ok text) :
    Spelled replacement all text := by
  fun_induction Scan.run macros.finder scan with
  | case1 scan next hstep ih =>
    rcases h.step hkeeps with ⟨other, hother, hnext⟩ | ⟨last, hdone, -⟩ | ⟨failure, hfailed⟩
    · rw [hstep, Progress.more.injEq] at hother
      subst hother
      exact ih hnext hrun
    · exact absurd (hstep.symm.trans hdone) (by simp)
    · exact absurd (hstep.symm.trans hfailed) (by simp)
  | case2 scan last hstep =>
    cases hrun
    rcases h.step hkeeps with ⟨other, hother, -⟩ | ⟨last, hdone, hspelled⟩ | ⟨failure, hfailed⟩
    · exact absurd (hstep.symm.trans hother) (by simp)
    · rw [hstep, Progress.done.injEq] at hdone
      rwa [hdone]
    · exact absurd (hstep.symm.trans hfailed) (by simp)
  | case3 => cases hrun

end InStep

/-! ### Empty values leave nothing behind -/

/-- The text without its macros reads as the marked text without its marks. -/
theorem spelled_expand (hkeeps : Keeps replacement) {text : List Char}
    (hupcoming : Upcoming macros (legend replacement) (macros.find text) text cells)
    (hapart : staysApart .start .nothing (cells.map Prod.snd) = true)
    (hmarked : advance Reader.step .start (cells.map Prod.fst) = .ok (more, last))
    (hending : last.finish = .ok ending) {expanded : List Char}
    (hexpand : expand macros.finder text = .ok expanded) :
    Spelled replacement (more ++ ending) expanded := by
  have hfollows : Follows macros replacement ⟨[], text, macros.find text, .plain, .between, 0, 0⟩
      .start .nothing cells [] more last :=
    { upcoming := hupcoming
      sound := ⟨by simp [ArgvState.calm], by simp [ArgvState.calm], by simp [ArgvState.calm],
        fun _ ↦ ⟨rfl, rfl, rfl, rfl⟩⟩
      reading := hmarked
      agrees := .refl _ _
      apart := hapart
      fits := ⟨by simp, by simp, by simp, fun _ ↦ ⟨rfl, rfl⟩, by simp, by simp⟩
      written := ⟨[], .of_owed_eq_zero rfl rfl, by simp, fun _ ↦ .inl rfl, by simp⟩ }
  have hfinder : macros.finder [] text = macros.find text := rfl
  rw [expand, hfinder] at hexpand
  cases hfind : macros.find text with
  | none =>
    rw [hfind] at hexpand hfollows
    cases hexpand
    exact hfollows.finish hkeeps rfl rfl (by simp) hending
  | some found =>
    rw [hfind] at hexpand hfollows
    have hstart : InStep macros replacement (more ++ ending) (.start text found) :=
      ⟨_, _, cells, [], more, last, ending, hfollows, hending, rfl⟩
    exact hstart.run hkeeps hexpand

/-- A line that reads as another one with its characters replaced is split into the words of the
other one with their characters replaced. -/
theorem split_of_spelled {line expanded home : List Char} {directory : Option (List Char)}
    {words : List Word}
    (hspelled : ∀ more last ending, advance Reader.step .start line = .ok (more, last) →
      last.finish = .ok ending → Spelled replacement (more ++ ending) expanded)
    (hpercent : '%' ∉ words.flatten → '%' ∉ (words.map (List.flatMap replacement)).flatten)
    (hsplit : Dialect.windows.split true ⟨none, directory, home⟩ line = .ok words) :
    Dialect.windows.split true ⟨none, directory, home⟩ expanded =
      .ok (words.map (List.flatMap replacement)) := by
  rw [Dialect.split, split_strict_eq] at hsplit
  split at hsplit
  · cases hsplit
  · rename_i hnone
    obtain ⟨more, last, ending, hadvance, hending, rfl⟩ :=
      Reader.exists_of_received_bind_arguments hsplit
    obtain ⟨found, final, behind, hread, hbehind, hgathered⟩ :=
      hspelled more last ending hadvance hending
    have hwords : Piece.words (found ++ behind) = (Piece.words (more ++ ending)).map
        (List.flatMap replacement) := by
      rw [← Gathered.words_addAll_none, ← Gathered.words_addAll_none, hgathered,
        Gathered.words_replace]
    have hexpanded : (received expanded >>= arguments) = .ok (Piece.words (found ++ behind)) := by
      rw [Reader.received_bind_arguments, hread]
      simp [bind, Except.bind, hbehind, Except.map]
    -- percent signs are characters of words, on both sides
    have hcount {line : List Char} {words : List Word}
        (h : (received line >>= arguments) = .ok words) :
        '%' ∉ line ↔ '%' ∉ words.flatten := by
      rw [← List.count_eq_zero, ← List.count_eq_zero,
        count_of_received_bind_arguments h (by decide) (by decide) (by decide) (by decide)
          (by decide)]
    have hfree : '%' ∉ expanded := by
      rw [hcount hexpanded, hwords]
      exact hpercent ((hcount hsplit).mp hnone)
    rw [Dialect.split, split_strict_eq, if_neg hfree, hexpanded, hwords]

/-- Where all values are empty a mark stands for nothing. -/
theorem unmark_eq_nil {template : Template} {marks : List Char}
    (hvalues : ∀ value ∈ template.values, value = []) (hmarks : template.Marks marks)
    (hc : c ∈ marks) : template.unmark marks c = [] := by
  obtain ⟨place, hplace, rfl⟩ := List.mem_iff_getElem.mp hc
  have hvalue : place < template.values.length := hmarks.length_eq ▸ hplace
  have hzip : (marks[place], template.values[place]) ∈ marks.zip template.values := by
    have hboth : place < (marks.zip template.values).length := by
      rw [List.length_zip]
      omega
    exact List.mem_iff_getElem.mpr ⟨place, hboth, List.getElem_zip⟩
  rw [hmarks.unmark_eq hzip]
  exact hvalues _ (List.getElem_mem hvalue)

/-- Taking the marks away is replacing each by its empty value. -/
theorem flatMap_unmark {template : Template} {marks : List Char}
    (hvalues : ∀ value ∈ template.values, value = []) (hmarks : template.Marks marks)
    (word : Word) : word.flatMap (template.unmark marks) = word.filter (· ∉ marks) := by
  induction word with
  | nil => rfl
  | cons c rest ih =>
    rw [List.flatMap_cons, ih]
    by_cases hc : c ∈ marks
    · simp [unmark_eq_nil hvalues hmarks hc, hc]
    · simp [Template.unmark_of_notMem hc, hc]

/-- Empty values contribute nothing and lose no argument. Put a mark at the place of every macro: if
the empty values can be put in, both readers take the marked line, and the neighbours of the macros
stay apart, then they take the expanded line, and its words are those of the marked line without the
marks. A word of marks alone becomes an empty argument. -/
theorem split_windows_expand_empty {text marks home : List Char} {directory : Option (List Char)}
    {words : List Word} (hvalues : ∀ value ∈ (macros.template text).values, value = [])
    (hmarks : (macros.template text).Marks marks) (hfree : ∀ c ∈ marks, IsMark c)
    (hapart : staysApart .start .nothing (macros.template text) = true)
    (hok : (Macro.expand .windows macros.finder text).ok = true)
    (hsplit : Dialect.windows.split true ⟨none, directory, home⟩
      ((macros.template text).marked marks) = .ok words) :
    Dialect.windows.split true ⟨none, directory, home⟩
        (Macro.expand .windows macros.finder text).text =
      .ok (words.map (List.filter (· ∉ marks))) := by
  have hself {c : Char} (hc : c ∉ marks) : (macros.template text).unmark marks c = [c] :=
    Template.unmark_of_notMem hc
  have hkeeps : Keeps ((macros.template text).unmark marks) :=
    { backslash := hself fun hmem ↦ (hfree _ hmem).backslash rfl
      quote := hself fun hmem ↦ absurd (hfree _ hmem).quoteWorthy (by decide) }
  have hwords : words.map (List.filter (· ∉ marks)) =
      words.map (List.flatMap ((macros.template text).unmark marks)) :=
    List.map_congr_left fun word _ ↦ (flatMap_unmark hvalues hmarks word).symm
  have hupcoming := Upcoming.ofTemplate hmarks hfree hvalues
  cases hexpand : expand macros.finder text with
  | error failure => simp [Macro.expand, hexpand, Expansion.ok, Except.map] at hok
  | ok expanded =>
    have htext : (Macro.expand .windows macros.finder text).text = expanded := by
      simp [Macro.expand, hexpand, Except.map]
    rw [htext, hwords]
    refine split_of_spelled (fun more last ending hadvance hending ↦ ?_) (fun hnone hmem ↦ ?_)
      hsplit
    · refine spelled_expand hkeeps hupcoming ?_ hadvance hending hexpand
      rwa [Template.map_snd_mark hmarks.length_eq]
    · rw [← hwords] at hmem
      obtain ⟨word, hword, hin⟩ := List.mem_flatten.mp hmem
      obtain ⟨other, hother, rfl⟩ := List.mem_map.mp hword
      exact hnone (List.mem_flatten.mpr ⟨other, hother, (List.mem_filter.mp hin).1⟩)

/-- An empty value between a backslash and a quote, and one that is a word of its own. -/
theorem split_windows_expand_empty_behind_backslash :
    Dialect.windows.split true ⟨none, none, []⟩
        (Macro.expand .windows (Macros.mk [(['X'], [])] .default).finder
          "\\%\x7bX\x7d\"b\" %\x7bX\x7d".toList).text =
      .ok ["\\b".toList, []] := by
  have hmarked : Dialect.windows.split true ⟨none, none, []⟩
      (((Macros.mk [(['X'], [])] .default).template
        "\\%\x7bX\x7d\"b\" %\x7bX\x7d".toList).marked ['x', 'y']) =
      .ok ["\\xb".toList, ['y']] := by
    decide +kernel
  have hfree : ∀ c ∈ ['x', 'y'], IsMark c := by
    simp only [List.mem_cons, List.not_mem_nil, or_false, forall_eq_or_imp, forall_eq]
    decide
  have hsplit := split_windows_expand_empty (by decide +kernel) (by decide +kernel) hfree
    (by decide +kernel) (by decide +kernel) hmarked
  rw [hsplit]
  decide +kernel

/-- Neighbours that meet change the words. A quote that opens behind one that closed is literal, an
at sign comes to stand at the beginning of the line, the quotes of an empty word are written behind
a circumflex, and an empty word behind the at sign of the line is lost. -/
theorem not_split_windows_expand_empty :
    ¬∃ text ∈ ["\"a\"%\x7bX\x7d\"b\"", "%\x7bX\x7d@a", "%\x7bX\x7d^ a^b", "@%\x7bX\x7d"].map
        String.toList,
      ∀ (marks : List Char) (words : List Word),
        ((Macros.mk [(['X'], [])] .default).template text).Marks marks →
        (∀ c ∈ marks, IsMark c) →
        (Macro.expand .windows (Macros.mk [(['X'], [])] .default).finder text).ok = true →
        Dialect.windows.split true ⟨none, none, []⟩
          (((Macros.mk [(['X'], [])] .default).template text).marked marks) = .ok words →
        Dialect.windows.split true ⟨none, none, []⟩
            (Macro.expand .windows (Macros.mk [(['X'], [])] .default).finder text).text =
          .ok (words.map (List.filter (· ∉ marks))) := by
  have hfree : ∀ c ∈ ['x'], IsMark c := List.forall_mem_singleton.mpr (by decide)
  rintro ⟨text, htext, h⟩
  simp only [List.map_cons, List.map_nil, List.mem_cons, List.not_mem_nil, or_false] at htext
  rcases htext with rfl | rfl | rfl | rfl
  · exact absurd (h ['x'] ["axb".toList] (by decide +kernel) hfree (by decide +kernel)
      (by decide +kernel)) (by decide +kernel)
  · exact absurd (h ['x'] ["x@a".toList] (by decide +kernel) hfree (by decide +kernel)
      (by decide +kernel)) (by decide +kernel)
  · exact absurd (h ['x'] ["x".toList, "ab".toList] (by decide +kernel) hfree (by decide +kernel)
      (by decide +kernel)) (by decide +kernel)
  · exact absurd (h ['x'] ["x".toList] (by decide +kernel) hfree (by decide +kernel)
      (by decide +kernel)) (by decide +kernel)

end CommandLine.Macro.Windows.Emptied
