import CommandLine.Line
import CommandLine.Proofs.Macro.Template
import CommandLine.Proofs.Macro.WindowsScan
import Mathlib.Data.List.Basic

/-!
Values put into a line for Windows stay literal. The reader of the line with marks and the reader of
the finished text are kept where the scan's state says they are; what the second has gathered is
what the first has gathered, with each mark replaced by its value.
-/

set_option autoImplicit false

namespace CommandLine.Macro.Windows

open CommandLine.Windows (ShellMode Quoting Runtime Reader arguments backslashes backslashes_zero
  backslashes_add count_of_received_bind_arguments received split_strict_eq)
open Piece (Gathered)
open Transducer

/-- A character that can stand for a value: a word may hold it without quotes, and it means nothing
at the beginning of a line or in front of a quote. -/
structure IsMark (c : Char) : Prop where
  quoteWorthy : Dialect.windows.isQuoteWorthy c = false
  at_sign : c ≠ '@'
  backslash : c ≠ '\\'

instance (c : Char) : Decidable (IsMark c) :=
  decidable_of_iff
    (Dialect.windows.isQuoteWorthy c = false ∧ c ≠ '@' ∧ c ≠ '\\')
    ⟨fun ⟨quoteWorthy, at_sign, backslash⟩ ↦ ⟨quoteWorthy, at_sign, backslash⟩,
      fun ⟨quoteWorthy, at_sign, backslash⟩ ↦ ⟨quoteWorthy, at_sign, backslash⟩⟩

/-- Marks that stand for safe values. -/
def legend (replacement : Char → List Char) : Legend := ⟨IsMark, IsSafe, replacement⟩

variable {macros : Macros} {replacement : Char → List Char} {scan later : Scan}

/-! ### The scan and the readers in step -/

/-- A scan and the part `passed` of a marked text's pieces: both readers are where the scan's state
says, and what has been gathered holds values in the one text where it holds marks in the other. The
pieces `more` of the marked text are still to come. -/
structure Follows (macros : Macros) (replacement : Char → List Char) (scan : Scan)
    (cells : List (Char × Part)) (passed more : List Piece) (last : Reader) : Prop where
  upcoming : Upcoming macros (legend replacement) scan.next scan.rest cells
  sound : scan.Sound
  marked : advance Reader.step scan.markedReader (cells.map Prod.fst) = .ok (more, last)
  inWord : scan.argv = .needsQuote → (Gathered.none.addAll passed).current.isSome = true
  written : ∃ found, scan.Reads found ∧
    (Gathered.none.addAll found).addAll (Piece.chars (backslashes scan.owed)) =
      (Gathered.none.addAll passed).replace replacement

/-- Backslashes and quotes stand for themselves. -/
structure Keeps (replacement : Char → List Char) : Prop where
  backslash : replacement '\\' = ['\\']
  quote : replacement '"' = ['"']

theorem Keeps.replace_backslashes (hkeeps : Keeps replacement) (gathered : Gathered)
    (count : Nat) :
    (gathered.addAll (Piece.chars (backslashes count))).replace replacement =
      (gathered.replace replacement).addAll (Piece.chars (backslashes count)) := by
  refine Gathered.replace_addAll gathered fun c hc ↦ ?_
  have hmem : c ∈ backslashes count := by simpa [Piece.chars] using hc
  rw [List.eq_of_mem_replicate hmem]
  exact hkeeps.backslash

/-- A text reads to its end, and what is gathered from it are the pieces `all` of a marked text,
with each mark replaced. -/
def Spelled (replacement : Char → List Char) (all : List Piece) (text : List Char) : Prop :=
  ∃ found last ending, advance Reader.step .start text = .ok (found, last) ∧
    last.finish = .ok ending ∧
    Gathered.none.addAll (found ++ ending) = (Gathered.none.addAll all).replace replacement

namespace Follows

variable {cells : List (Char × Part)} {passed more : List Piece} {last : Reader}

/-- The quotation of a value closes for the C runtime alone, and the command processor with it. -/
theorem settle (h : Follows macros replacement scan cells passed more last) :
    Follows macros replacement scan.settle cells passed more last ∧
      scan.settle.argv ≠ .needsQuote ∧ scan.settle.rest = scan.rest ∧
        scan.settle.next = scan.next := by
  by_cases hneeds : scan.argv = .needsQuote
  · obtain ⟨found, hreads, hgathered⟩ := h.written
    obtain ⟨hshell, hslashes⟩ := h.sound.needsQuote hneeds
    have hnonempty : scan.finished.isEmpty = false := by
      cases hempty : scan.finished with
      | nil =>
        have hbetween := (h.sound.start hempty).2.1
        rw [hneeds] at hbetween
        cases hbetween
      | cons => rfl
    rw [Scan.settle, if_pos hneeds]
    have hreader : Scan.markedReader
        { scan with
          finished := '"' :: backslashes scan.owed ++ scan.finished
          argv := .hadQuote
          owed := 0 } = scan.markedReader := by
      simp [Scan.markedReader, hnonempty, hneeds, ArgvState.marked]
    refine ⟨⟨h.upcoming, ⟨by simp, by simp, fun _ ↦ ⟨hslashes, rfl⟩, by simp⟩, ?_, by simp,
      found ++ (Piece.chars (backslashes scan.owed) ++ [.closing]), ?_, ?_⟩, by simp, rfl, rfl⟩
    · rw [hreader]
      exact h.marked
    · -- the backslashes stand in front of the quote that closes, and there are twice as many
      have hread := hreads.finished
      have hbackslashes : advance Reader.step ⟨false, .quoted, ⟨.inside, scan.owed⟩⟩
          (backslashes scan.owed) =
          .ok ([], ⟨false, .quoted, ⟨.inside, scan.owed + scan.owed⟩⟩) :=
        Reader.advance_backslashes (by simp) (by simp) _ _
      have hclosing : Reader.step ⟨false, .quoted, ⟨.inside, scan.owed + scan.owed⟩⟩ '"' =
          .ok (Piece.chars (backslashes scan.owed) ++ [.closing],
            ⟨false, .plain, ⟨.closed, 0⟩⟩) := by
        have hquote : ShellMode.quoted.step '"' = .ok (['"'], .plain) := rfl
        have heven : (scan.owed + scan.owed) % 2 = 0 := by omega
        have hhalf : (scan.owed + scan.owed) / 2 = scan.owed := by omega
        rw [Reader.step_passed hquote, Runtime.step_quote_of_even heven, hhalf]
        rfl
      simp only [Scan.writtenReader, hnonempty, hneeds, if_true, ArgvState.written, hslashes,
        Nat.add_zero] at hread
      have hall := advance_append_of_ok hread
        (advance_append_of_ok hbackslashes (advance_singleton hclosing))
      refine .of_owed_eq_zero rfl ?_
      simpa [Scan.writtenReader, hnonempty, hshell, hslashes, ArgvState.written, backslashes]
        using hall
    · have hword : ((Gathered.none.addAll passed).replace replacement).current.isSome = true := by
        simpa [Gathered.replace] using h.inWord hneeds
      rw [Gathered.addAll_append, Gathered.addAll_append, hgathered]
      exact Gathered.add_closing hword
  · rw [Scan.settle, if_neg hneeds]
    exact ⟨h, hneeds, rfl, rfl⟩

/-- Both readers read a character of the line. -/
theorem taken (hkeeps : Keeps replacement) {c : Char} {rest : List Char}
    (h : Follows macros replacement scan cells passed more last) (hneeds : scan.argv ≠ .needsQuote)
    (hrest : scan.rest = c :: rest) (hgap : ∀ found, scan.next = some found → found.gap ≠ 0)
    (htaken : scan.taken c rest = .ok later) :
    ∃ remaining here behind, more = here ++ behind ∧
      Follows macros replacement later remaining (passed ++ here) behind last := by
  have hupcoming := h.upcoming
  rw [hrest] at hupcoming
  obtain ⟨remaining, rfl, hself, hbehind⟩ := hupcoming.literal hgap
  obtain ⟨here, next, behind, hstep, hmore, rfl⟩ := exists_of_advance_cons h.marked
  obtain ⟨hsound, hargv, -, hlater, hnext⟩ := h.sound.taken hneeds htaken
  obtain ⟨rfl, hereWritten, hwritten, hpieces⟩ := h.sound.step_taken hneeds htaken hstep
  obtain ⟨found, hreads, hgathered⟩ := h.written
  refine ⟨remaining, here, behind, rfl, ⟨by rwa [hlater, hnext], hsound, hmore,
    fun h ↦ absurd h hargv, found ++ hereWritten,
    hreads.taken h.sound hneeds htaken hwritten, ?_⟩⟩
  have hfixed : ∀ d, Piece.char d ∈ here → replacement d = [d] := by
    intro d hd
    rcases Reader.of_char_mem_step hstep hd with rfl | rfl | rfl
    · exact hself
    · exact hkeeps.backslash
    · exact hkeeps.quote
  calc (Gathered.none.addAll (found ++ hereWritten)).addAll (Piece.chars (backslashes later.owed))
      = (Gathered.none.addAll found).addAll
          (hereWritten ++ Piece.chars (backslashes later.owed)) := by simp
    _ = ((Gathered.none.addAll found).addAll
          (Piece.chars (backslashes scan.owed))).addAll here := by
        rw [hpieces, Gathered.addAll_append]
    _ = (Gathered.none.addAll (passed ++ here)).replace replacement := by
        rw [hgathered, Gathered.addAll_append, Gathered.replace_addAll _ hfixed]

/-- One reader reads a mark and the other the value that the scan puts there. -/
theorem substitute (hkeeps : Keeps replacement) {found : Occurrence}
    (h : Follows macros replacement scan cells passed more last)
    (hhad : scan.argv = .hadQuote → scan.shell = .escaped) (hnext : scan.next = some found)
    (hgap : found.gap = 0) (hmore : scan.substitute macros.finder found = .more later) :
    ∃ remaining here behind, more = here ++ behind ∧ later.argv ≠ .hadQuote ∧
      Follows macros replacement later remaining (passed ++ here) behind last := by
  have hupcoming := h.upcoming
  rw [hnext] at hupcoming
  obtain ⟨c, text, remaining, rfl, hmark, hvalue, hreplacement, hbehind⟩ := hupcoming.hole hgap
  obtain ⟨here, next, behind, hstep, hremaining, rfl⟩ := exists_of_advance_cons h.marked
  obtain ⟨before, hreads, hgathered⟩ := h.written
  obtain ⟨hsound, hnot, hrest, hlater, hescaped, hreader, spelled, hspelled, hnone, htext⟩ :=
    h.sound.substitute hhad hvalue hmore hreads
  have hread := Reader.step_of_isQuoteWorthy_eq_false hmark.quoteWorthy hmark.at_sign
    hmark.backslash hescaped scan.finished.isEmpty ⟨scan.argv.marked, scan.slashes⟩
  rw [Scan.markedReader] at hstep
  obtain ⟨rfl, rfl⟩ := Prod.mk.inj (Except.ok.inj (hstep.symm.trans hread))
  refine ⟨remaining, _, behind, rfl, hnot, ⟨by rwa [hrest, hlater], hsound, by rwa [hreader],
    fun _ ↦ ?_, before ++ spelled, hspelled, ?_⟩⟩
  · rw [Gathered.addAll_append, Gathered.addAll_append]
    rfl
  · have hne : found.value ≠ [] := hvalue.ne_nil
    have hspells : Piece.text (Piece.chars found.value) = replacement c := by
      rw [Piece.text_chars]
      exact hreplacement.symm
    have hlast (gathered : Gathered) : (gathered.replace replacement).addAll
        (Piece.chars found.value) = (gathered.add (.char c)).replace replacement :=
      gathered.addAll_replace (by simp) hspells fun h ↦ absurd (List.map_eq_nil_iff.mp h) hne
    calc (Gathered.none.addAll (before ++ spelled)).addAll (Piece.chars (backslashes later.owed))
        = (Gathered.none.addAll before).addAll
            (spelled ++ Piece.chars (backslashes later.owed)) := by simp
      _ = (Gathered.none.addAll before).addAll
            (Piece.chars (backslashes (scan.owed + scan.slashes) ++ found.value)) :=
          Gathered.addAll_eq_of_text_eq _ (by simpa using hnone) (by simp) (by simpa using htext)
            (by simp [hne])
      _ = (((Gathered.none.addAll before).addAll (Piece.chars (backslashes scan.owed))).addAll
            (Piece.chars (backslashes scan.slashes))).addAll (Piece.chars found.value) := by
          simp [backslashes_add]
      _ = (((Gathered.none.addAll passed).addAll
            (Piece.chars (backslashes scan.slashes))).add (.char c)).replace replacement := by
          rw [hgathered, ← hkeeps.replace_backslashes, hlast]
      _ = (Gathered.none.addAll
            (passed ++ (Piece.chars (backslashes scan.slashes) ++ [.char c]))).replace
              replacement := by simp

/-- Where nothing is owed the readers are at the same place, and read the rest of the line alike. -/
theorem finish (hkeeps : Keeps replacement) (hnext : scan.next = none)
    (h : Follows macros replacement scan cells passed more last) (howed : scan.owed = 0)
    (hneeds : scan.argv ≠ .needsQuote) (hhad : scan.argv ≠ .hadQuote) {ending : List Piece}
    (hending : last.finish = .ok ending) :
    Spelled replacement (passed ++ more ++ ending) (scan.finished.reverse ++ scan.rest) := by
  have hupcoming := h.upcoming
  rw [hnext] at hupcoming
  obtain ⟨hcells, hself⟩ := hupcoming.of_next_eq_none
  have hmarked := h.marked
  rw [hcells] at hmarked
  obtain ⟨found, hreads, hgathered⟩ := h.written
  have hsame : scan.writtenReader 0 = scan.markedReader := by
    simp [Scan.writtenReader, Scan.markedReader, hneeds, howed,
      ArgvState.written_eq_marked hneeds hhad]
  have hread := hreads.finished
  rw [hsame] at hread
  refine ⟨found ++ more, last, ending, advance_append_of_ok hread hmarked, hending, ?_⟩
  rw [howed, backslashes_zero, Piece.chars_nil, Gathered.addAll_nil] at hgathered
  have hfixed : ∀ d, Piece.char d ∈ more → replacement d = [d] := by
    intro d hd
    rcases Reader.of_char_mem_advance hmarked hd with hmem | rfl | rfl
    · exact hself d hmem
    · exact hkeeps.backslash
    · exact hkeeps.quote
  have hend : ∀ d, Piece.char d ∈ ending → replacement d = [d] := by
    intro d hd
    rw [Reader.eq_backslash_of_mem_finish hending hd]
    exact hkeeps.backslash
  rw [Gathered.addAll_append, Gathered.addAll_append, hgathered, Gathered.addAll_append,
    Gathered.addAll_append, Gathered.replace_addAll _ hend, Gathered.replace_addAll _ hfixed]

/-- At the end of the line nothing is ahead, and the backslashes that are owed stay as they are. -/
theorem atEnd (hkeeps : Keeps replacement) (hrest : scan.rest = [])
    (h : Follows macros replacement scan cells passed more last)
    (hneeds : scan.argv ≠ .needsQuote) {ending : List Piece}
    (hending : last.finish = .ok ending) :
    Spelled replacement (passed ++ more ++ ending) scan.ending := by
  have hupcoming := h.upcoming
  rw [hrest] at hupcoming
  rw [hupcoming.next_eq_none] at hupcoming
  have hmarked := h.marked
  rw [hupcoming.of_next_eq_none.1] at hmarked
  cases hmarked
  obtain ⟨found, hreads, hgathered⟩ := h.written
  have htext : scan.ending = scan.finished.reverse := by
    rw [Scan.ending, if_neg h.sound.needsWord]
  have hplaces : scan.argv.marked ≠ .inside ∧ ending = Piece.chars (backslashes scan.slashes) := by
    rw [Reader.finish, Runtime.finish] at hending
    split at hending
    · cases hending
    · rename_i hplace
      cases hending
      exact ⟨hplace, rfl⟩
  have hplace : scan.argv.written ≠ .inside := by
    have hmarked := hplaces.1
    cases hargv : scan.argv <;> simp_all [ArgvState.written, ArgvState.marked]
  refine ⟨found, scan.writtenReader 0, Piece.chars (backslashes (scan.owed + scan.slashes)), ?_, ?_,
    ?_⟩
  · rw [htext]
    exact hreads.finished
  · rw [Reader.finish, Runtime.finish, Scan.writtenReader, if_neg hplace, Nat.add_zero]
  · have hrun : Piece.chars (backslashes (scan.owed + scan.slashes)) =
        Piece.chars (backslashes scan.owed) ++ Piece.chars (backslashes scan.slashes) := by
      rw [backslashes_add, Piece.chars_append]
    rw [hrun, ← List.append_assoc, Gathered.addAll_append, Gathered.addAll_append, hgathered,
      hplaces.2, List.append_nil, Gathered.addAll_append, hkeeps.replace_backslashes]

end Follows

/-- A scan in step with a reader of the marked text, whose pieces to its end are `all`. -/
def InStep (macros : Macros) (replacement : Char → List Char) (all : List Piece) (scan : Scan) :
    Prop :=
  ∃ cells passed more last ending, Follows macros replacement scan cells passed more last ∧
    (scan.argv = .hadQuote → scan.shell = .escaped) ∧ last.finish = .ok ending ∧
      passed ++ more ++ ending = all

namespace InStep

variable {all : List Piece}

/-- A character in front of the next macro. -/
theorem read (hkeeps : Keeps replacement) {c : Char} {rest : List Char}
    (h : InStep macros replacement all scan) (hrest : scan.rest = c :: rest)
    (hgap : ∀ found, scan.next = some found → found.gap ≠ 0) :
    (∃ next, scan.settle.read c rest = .more next ∧ InStep macros replacement all next) ∨
      (∃ text, scan.settle.read c rest = .done text ∧ Spelled replacement all text) ∨
      ∃ failure, scan.settle.read c rest = .failed failure := by
  obtain ⟨cells, passed, more, last, ending, hfollows, -, hending, rfl⟩ := h
  obtain ⟨hsettled, hneeds, hsame, hnext⟩ := hfollows.settle
  rw [← hsame] at hrest
  rw [← hnext] at hgap
  rcases Scan.read_cases hneeds c rest with hfailed | ⟨later, htaken, hread⟩
  · exact .inr (.inr hfailed)
  · obtain ⟨remaining, here, behind, rfl, hlater⟩ :=
      hsettled.taken hkeeps hneeds hrest hgap htaken
    obtain ⟨-, -, hhad, hlaterRest, hlaterNext⟩ := hsettled.sound.taken hneeds htaken
    rcases hread with hmore | ⟨hdone, hnone, howed, hlaterNeeds, hlaterHad⟩
    · exact .inl ⟨later, hmore, remaining, passed ++ here, behind, last, ending, hlater, hhad,
        hending, by simp⟩
    · refine .inr (.inl ⟨_, hdone, ?_⟩)
      have hfinish := hlater.finish hkeeps (by rw [hlaterNext, hnone]; rfl) howed hlaterNeeds
        hlaterHad hending
      rw [hlaterRest] at hfinish
      simpa using hfinish

/-- A step of a scan leaves it in step with the reader, or ends with a text in which the marks are
replaced, or fails. -/
theorem step (hkeeps : Keeps replacement) (h : InStep macros replacement all scan) :
    (∃ next, scan.step macros.finder = .more next ∧ InStep macros replacement all next) ∨
      (∃ text, scan.step macros.finder = .done text ∧ Spelled replacement all text) ∨
      ∃ failure, scan.step macros.finder = .failed failure := by
  cases hrest : scan.rest with
  | nil =>
    obtain ⟨cells, passed, more, last, ending, hfollows, -, hending, rfl⟩ := h
    obtain ⟨hsettled, hneeds, hsame, -⟩ := hfollows.settle
    refine .inr (.inl ⟨scan.settle.ending, by simp [Scan.step, hrest], ?_⟩)
    exact hsettled.atEnd hkeeps (by rw [hsame, hrest]) hneeds hending
  | cons c rest =>
    cases hnext : scan.next with
    | none =>
      have hstep : scan.step macros.finder = scan.settle.read c rest := by
        simp [Scan.step, hrest, hnext]
      rw [hstep]
      exact h.read hkeeps hrest (by simp [hnext])
    | some found =>
      by_cases hgap : found.gap = 0
      · have hstep : scan.step macros.finder = scan.substitute macros.finder found := by
          simp [Scan.step, hrest, hnext, hgap]
        rw [hstep]
        rcases Scan.substitute_cases macros.finder scan found with ⟨later, hmore⟩ | hfailed
        · obtain ⟨cells, passed, more, last, ending, hfollows, hhad, hending, rfl⟩ := h
          obtain ⟨remaining, here, behind, rfl, hnot, hlater⟩ :=
            hfollows.substitute hkeeps hhad hnext hgap hmore
          exact .inl ⟨later, hmore, remaining, passed ++ here, behind, last, ending, hlater,
            fun h ↦ absurd h hnot, hending, by simp⟩
        · exact .inr (.inr hfailed)
      · have hstep : scan.step macros.finder = scan.settle.read c rest := by
          simp [Scan.step, hrest, hnext, hgap]
        rw [hstep]
        refine h.read hkeeps hrest fun other hother ↦ ?_
        rw [hnext, Option.some.injEq] at hother
        rwa [← hother]

/-- The text that a scan in step ends with holds values in place of marks. -/
theorem run (hkeeps : Keeps replacement) (h : InStep macros replacement all scan)
    {text : List Char} (hrun : scan.run macros.finder = .ok text) :
    Spelled replacement all text := by
  fun_induction Scan.run macros.finder scan with
  | case1 scan next hstep ih =>
    rcases h.step hkeeps with ⟨other, hother, hnext⟩ | ⟨last, hdone, -⟩ | ⟨failure, hfailed⟩
    · rw [hstep, Progress.more.injEq] at hother
      subst hother
      exact ih hnext hrun
    · exact absurd (hstep.symm.trans hdone) (by simp)
    · exact absurd (hstep.symm.trans hfailed) (by simp)
  | case2 scan last hstep =>
    cases hrun
    rcases h.step hkeeps with ⟨other, hother, -⟩ | ⟨last, hdone, hspelled⟩ | ⟨failure, hfailed⟩
    · exact absurd (hstep.symm.trans hother) (by simp)
    · rw [hstep, Progress.done.injEq] at hdone
      rwa [hdone]
    · exact absurd (hstep.symm.trans hfailed) (by simp)
  | case3 => cases hrun

end InStep

/-! ### Values stay literal -/

/-- The text with the values put in reads as the marked text, with each mark replaced. -/
theorem spelled_expand (hkeeps : Keeps replacement) {text : List Char}
    {cells : List (Char × Part)}
    (hupcoming : Upcoming macros (legend replacement) (macros.find text) text cells)
    {more ending : List Piece} {last : Reader}
    (hmarked : advance Reader.step .start (cells.map Prod.fst) = .ok (more, last))
    (hending : last.finish = .ok ending) {expanded : List Char}
    (hexpand : expand macros.finder text = .ok expanded) :
    Spelled replacement (more ++ ending) expanded := by
  have hsound (next : Option Occurrence) : (Scan.mk [] text next .plain .between 0 0).Sound :=
    ⟨by simp, by simp, by simp, fun _ ↦ ⟨rfl, rfl, rfl, rfl⟩⟩
  have hfollows : Follows macros replacement ⟨[], text, macros.find text, .plain, .between, 0, 0⟩
      cells [] more last :=
    { upcoming := hupcoming
      sound := hsound _
      marked := hmarked
      inWord := by simp
      written := ⟨[], .of_owed_eq_zero rfl rfl, rfl⟩ }
  have hfinder : macros.finder [] text = macros.find text := rfl
  rw [expand, hfinder] at hexpand
  cases hfind : macros.find text with
  | none =>
    rw [hfind] at hexpand hfollows
    cases hexpand
    exact hfollows.finish hkeeps rfl rfl (by simp) (by simp) hending
  | some found =>
    rw [hfind] at hexpand hfollows
    have hstart : InStep macros replacement (more ++ ending) (.start text found) :=
      ⟨cells, [], more, last, ending, hfollows, by simp [Scan.start], hending, rfl⟩
    exact hstart.run hkeeps hexpand

/-- No percent sign gets into the words with the values. -/
theorem percent_notMem_unmarked {text marks : List Char}
    (hvalues : ∀ entry ∈ macros.values, IsSafe entry.2) {words : List Word}
    (hwords : '%' ∉ words.flatten) :
    '%' ∉ (words.map (List.flatMap ((macros.template text).unmark marks))).flatten := by
  intro hmem
  obtain ⟨word, hword, hpercent⟩ := List.mem_flatten.mp hmem
  obtain ⟨other, hother, rfl⟩ := List.mem_map.mp hword
  obtain ⟨c, hc, hin⟩ := List.mem_flatMap.mp hpercent
  rcases (macros.template text).unmark_cases marks c with hself | hvalue
  · rw [hself, List.mem_singleton] at hin
    subst hin
    exact hwords (List.mem_flatten.mpr ⟨other, hother, hc⟩)
  · obtain ⟨entry, hentry, heq⟩ := macros.mem_values_of_mem_template hvalue
    rw [← heq] at hin
    exact (hvalues entry hentry).percent hin

/-- Putting macros into a line injects nothing. Put a mark at the place of every macro: if the
values can be put in, and both readers take the marked line, then they take the expanded line, and
its words are those of the marked line with each mark replaced by its value. -/
theorem split_windows_expand {macros : Macros} {text marks home : List Char}
    {directory : Option (List Char)} {words : List Word}
    (hvalues : ∀ entry ∈ macros.values, IsSafe entry.2)
    (hmarks : (macros.template text).Marks marks) (hfree : ∀ c ∈ marks, IsMark c)
    (hok : (Macro.expand .windows macros.finder text).ok = true)
    (hsplit : Dialect.windows.split true ⟨none, directory, home⟩
      ((macros.template text).marked marks) = .ok words) :
    Dialect.windows.split true ⟨none, directory, home⟩
        (Macro.expand .windows macros.finder text).text =
      .ok (words.map (List.flatMap ((macros.template text).unmark marks))) := by
  have hself {c : Char} (hc : c ∉ marks) : (macros.template text).unmark marks c = [c] :=
    Template.unmark_of_notMem hc
  have hkeeps : Keeps ((macros.template text).unmark marks) :=
    { backslash := hself fun hmem ↦ (hfree _ hmem).backslash rfl
      quote := hself fun hmem ↦ absurd (hfree _ hmem).quoteWorthy (by decide) }
  have hupcoming := Upcoming.start hmarks hfree hvalues
  rw [Dialect.split, split_strict_eq] at hsplit
  split at hsplit
  · cases hsplit
  · rename_i hpercent
    obtain ⟨more, last, ending, hadvance, hending, rfl⟩ :=
      Reader.exists_of_received_bind_arguments hsplit
    cases hexpand : expand macros.finder text with
    | error failure => simp [Macro.expand, hexpand, Expansion.ok, Except.map] at hok
    | ok expanded =>
      have htext : (Macro.expand .windows macros.finder text).text = expanded := by
        simp [Macro.expand, hexpand, Except.map]
      obtain ⟨found, final, behind, hread, hbehind, hgathered⟩ :=
        spelled_expand hkeeps hupcoming hadvance hending hexpand
      have hwords : Piece.words (found ++ behind) = (Piece.words (more ++ ending)).map
          (List.flatMap ((macros.template text).unmark marks)) := by
        rw [← Gathered.words_addAll_none, ← Gathered.words_addAll_none, hgathered,
          Gathered.words_replace]
      have hexpanded : (received expanded >>= arguments) =
          .ok (Piece.words (found ++ behind)) := by
        rw [Reader.received_bind_arguments, hread]
        simp [bind, Except.bind, hbehind, Except.map]
      -- a percent sign of the expanded line would be one of a value or of the marked line
      have hcount {line : List Char} {words : List Word}
          (h : (received line >>= arguments) = .ok words) :
          words.flatten.count '%' = line.count '%' :=
        count_of_received_bind_arguments h (by decide) (by decide) (by decide) (by decide)
          (by decide)
      have hnone : '%' ∉ expanded := by
        rw [← List.count_eq_zero, hcount hsplit |>.symm, List.count_eq_zero] at hpercent
        rw [← List.count_eq_zero, ← hcount hexpanded, List.count_eq_zero, hwords]
        exact percent_notMem_unmarked hvalues hpercent
      rw [htext, Dialect.split, split_strict_eq, if_neg hnone, hexpanded, hwords]

/-- A value with a blank, quotes and a backslash at its end, outside of quotes and inside. -/
theorem split_windows_expand_in_quotes :
    Dialect.windows.split true ⟨none, none, []⟩
        (Macro.expand .windows (Macros.mk [(['X'], "a \"b\\".toList)] .default).finder
          "%\x7bX\x7d \"-%\x7bX\x7d\"".toList).text =
      .ok ["a \"b\\".toList, "-a \"b\\".toList] := by
  have hmarked : Dialect.windows.split true ⟨none, none, []⟩
      (((Macros.mk [(['X'], "a \"b\\".toList)] .default).template
        "%\x7bX\x7d \"-%\x7bX\x7d\"".toList).marked ['x', 'y']) =
      .ok [['x'], ['-', 'y']] := by
    decide +kernel
  have hfree : ∀ c ∈ ['x', 'y'], IsMark c := by
    simp only [List.mem_cons, List.not_mem_nil, or_false, forall_eq_or_imp, forall_eq]
    decide
  have hsplit := split_windows_expand (by decide) (by decide +kernel) hfree (by decide +kernel)
    hmarked
  rw [hsplit]
  decide +kernel

/-- Backslashes and at signs may not mark values: the one escapes a quote behind it, and the other
is lost at the beginning of a line. -/
theorem not_split_windows_expand_of_backslash_or_at :
    (¬ ∀ (macros : Macros) (text marks home : List Char) (words : List Word),
      macros.pattern = .default → (∀ entry ∈ macros.values, IsSafe entry.2) →
      (macros.template text).Marks marks →
      (∀ c ∈ marks, Text.isBlank c = false ∧ Dialect.windows.isQuoteWorthy c = false ∧
        c ≠ '@' ∧ ∀ entry ∈ macros.values, c ∉ entry.2) →
      (Macro.expand .windows macros.finder text).ok = true →
      Dialect.windows.split true (.bare home) ((macros.template text).marked marks) = .ok words →
      Dialect.windows.split true (.bare home) (Macro.expand .windows macros.finder text).text =
        .ok (words.map (List.flatMap ((macros.template text).unmark marks)))) ∧
    ¬ ∀ (macros : Macros) (text marks home : List Char) (words : List Word),
      macros.pattern = .default → (∀ entry ∈ macros.values, IsSafe entry.2) →
      (macros.template text).Marks marks →
      (∀ c ∈ marks, Text.isBlank c = false ∧ Dialect.windows.isQuoteWorthy c = false ∧
        c ≠ '\\' ∧ ∀ entry ∈ macros.values, c ∉ entry.2) →
      (Macro.expand .windows macros.finder text).ok = true →
      Dialect.windows.split true (.bare home) ((macros.template text).marked marks) = .ok words →
      Dialect.windows.split true (.bare home) (Macro.expand .windows macros.finder text).text =
        .ok (words.map (List.flatMap ((macros.template text).unmark marks))) := by
  constructor
  · intro h
    have hbackslash := h ⟨[(['X'], ['v'])], .default⟩ "%\x7bX\x7d\"".toList ['\\'] []
      [['"']] rfl (by decide) (by decide +kernel)
      (List.forall_mem_singleton.mpr (by decide)) (by decide +kernel) (by decide +kernel)
    have hrefused : Dialect.windows.split true (.bare [])
        (Macro.expand .windows (Macros.mk [(['X'], ['v'])] .default).finder
          "%\x7bX\x7d\"".toList).text = .error .badQuoting := by
      decide +kernel
    rw [hrefused] at hbackslash
    cases hbackslash
  · intro h
    have hat := h ⟨[(['X'], ['v'])], .default⟩ "%\x7bX\x7d".toList ['@'] [] [] rfl
      (by decide) (by decide +kernel)
      (List.forall_mem_singleton.mpr (by decide)) (by decide +kernel) (by decide +kernel)
    have hword : Dialect.windows.split true (.bare [])
        (Macro.expand .windows (Macros.mk [(['X'], ['v'])] .default).finder
          "%\x7bX\x7d".toList).text = .ok [['v']] := by
      decide +kernel
    rw [hword] at hat
    cases hat

end CommandLine.Macro.Windows
