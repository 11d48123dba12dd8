import CommandLine.Line
import CommandLine.Macro.Expansion
import CommandLine.Proofs.Macro.Template
import CommandLine.Proofs.Unix.Strict
import Mathlib.Data.List.Basic

/-!
Values put into a line for a POSIX shell stay literal. Two strict readers are kept in step with the
scan that puts the values in: one of the line with a mark at the place of each value, and one of the
text that the scan has finished. What the second has gathered is what the first has gathered, with
each mark replaced by its value; what the shell has open there is the scan's context.
-/

set_option autoImplicit false

namespace CommandLine.Macro.Unix

open CommandLine.Unix (Mode Reading)
open CommandLine.Unix.Reading
open Piece (Gathered)
open Transducer

/-- A character that can stand for a value: a word may hold it without quotes, and it ends no home
directory. -/
structure IsMark (c : Char) : Prop where
  blank : Text.isBlank c = false
  quoteWorthy : Dialect.unix.isQuoteWorthy c = false
  slash : c ≠ '/'

/-- A value that is quoted if it holds a blank. -/
def IsSafe (value : List Char) : Prop := ∀ c ∈ value, Text.isBlank c = true → c.toNat ≤ 0x20

instance (c : Char) : Decidable (IsMark c) :=
  decidable_of_iff
    (Text.isBlank c = false ∧ Dialect.unix.isQuoteWorthy c = false ∧ c ≠ '/')
    ⟨fun ⟨blank, quoteWorthy, slash⟩ ↦ ⟨blank, quoteWorthy, slash⟩,
      fun ⟨blank, quoteWorthy, slash⟩ ↦ ⟨blank, quoteWorthy, slash⟩⟩

instance (value : List Char) : Decidable (IsSafe value) := List.decidableBAll _ value

/-- Marks that stand for safe values. -/
def legend (replacement : Char → List Char) : Legend := ⟨IsMark, IsSafe, replacement⟩

theorem IsSafe.needsQuotes {value : List Char} (h : IsSafe value)
    (hblank : value.any Text.isBlank = true) : Dialect.unix.needsQuotes value = true := by
  obtain ⟨c, hc, hcblank⟩ := List.any_eq_true.mp hblank
  have hcontrol : c.toNat ≤ 0x20 := h c hc hcblank
  exact List.any_eq_true.mpr ⟨c, hc, by simp [Dialect.isQuoteWorthy, hcontrol]⟩

/-- The scan's contexts are what a reader in the mode has open. -/
inductive Opened : Mode → Context → List Context → Prop
  | outside {mode : Mode} (h : IsOutside mode) : Opened mode .basic []
  | single : Opened .single ⟨.singleQuote, false⟩ [.basic]
  | double : Opened .double .doubleQuotation [.basic]

variable {macros : Macros} {home : List Char} {replacement : Char → List Char}

/-! ### Values -/

/-- Where a mark can be read, a value reads as its characters and leaves the same mode behind. -/
theorem advance_value {mode next : Mode} {context : Context} {stack : List Context}
    (hopened : Opened mode context stack) {c : Char} (hc : IsMark c) {found : List Piece}
    (hstep : (literally home).step mode c = .ok (found, next)) {value : List Char}
    (hvalue : IsSafe value) :
    ∃ written,
      advance (literally home).step mode ((Protection.inContext context).apply value) =
          .ok (written, next) ∧
        .gap ∉ written ∧ Piece.text written = value ∧ (written = [] → IsQuoting mode) ∧
        found = [.char c] ∧ Opened next context stack := by
  have hne (d : Char) (hd : Dialect.unix.isQuoteWorthy d = true) : c ≠ d :=
    Dialect.ne_of_isQuoteWorthy hc.quoteWorthy hd
  have hquote := hne '\'' (by decide)
  cases hopened with
  | outside hmode =>
    have hbare : IsBare mode := by
      rcases hmode with rfl | rfl | rfl
      · exact .inl rfl
      · simp [Reading.step, hc.blank, hc.slash] at hstep
      · exact .inr rfl
    obtain ⟨last, hlast, -, hend⟩ :=
      step_of_not_isQuoteWorthy (literally home) hbare hc.quoteWorthy
    rw [hend hc.blank, hstep] at hlast
    cases hlast
    obtain ⟨written, hwritten, hgap, hnil, htext⟩ :=
      advance_quote (literally home) hbare hvalue.needsQuotes
    exact ⟨written, hwritten, hgap, htext, fun h ↦ absurd h hnil, by simp [plainPiece, hc.blank],
      .outside (.inr (.inr rfl))⟩
  | single =>
    have hplain : (literally home).step .single c = .ok ([.char c], .single) := by
      simp [Reading.step, hquote]
    rw [hplain] at hstep
    cases hstep
    obtain ⟨written, hwritten, hgap, htext⟩ := advance_singleQuoted (literally home) value
    exact ⟨written, hwritten, hgap, htext, fun _ ↦ .inl rfl, rfl, .single⟩
  | double =>
    rcases doubleStep_cases hstep with ⟨heq, -, -⟩ | ⟨heq, -, -⟩ | ⟨-, -, -, -, rfl, rfl⟩
    · exact absurd heq (hne '"' (by decide))
    · exact absurd heq (hne '\\' (by decide))
    · exact ⟨Piece.chars value, advance_doubleQuoted value, by simp, by simp,
        fun _ ↦ .inr (.inl rfl), rfl, .double⟩

/-! ### Characters -/

/-- Outside of quotes a character that calls for no shell changes nothing. -/
theorem read_of_isMeta_eq_false {scan : Scan} (hcontext : scan.context = .basic) {c : Char}
    (hc : Dialect.unix.isMeta c = false) : scan.read c = .more (scan.skip 1) := by
  have hne (d : Char) (hd : Dialect.unix.isMeta d = true) : c ≠ d := Dialect.ne_of_isMeta hc hd
  simp [Scan.read, Scan.readPlain, hcontext, Context.basic, hne '\\' (by decide),
    hne '$' (by decide), hne '`' (by decide), hne '\'' (by decide), hne '"' (by decide),
    hne ')' (by decide), hne '}' (by decide), hne '(' (by decide), hne '{' (by decide)]

/-- A backslash takes the next character with it. -/
def readEscape (scan : Scan) : Progress :=
  if scan.reaches 2 then .failed .afterBackslash else .more (scan.skip 2)

/-- The scan opens and closes what a reader opens and closes at the same character. -/
theorem read_of_opened {scan : Scan} {mode next : Mode}
    (hopened : Opened mode scan.context scan.stack) {c : Char} {found : List Piece}
    (hstep : (literally home).step mode c = .ok (found, next)) :
    (∃ context stack, scan.read c = .more { scan.skip 1 with context, stack } ∧
        Opened next context stack) ∨
      scan.read c = readEscape scan ∧ (literally home).finish next = .error .badQuoting ∧
        ∀ d here last, (literally home).step next d = .ok (here, last) →
          Opened last scan.context scan.stack := by
  obtain ⟨finished, rest, ahead, context, stack, saves⟩ := scan
  dsimp only at hopened
  cases hopened with
  | outside hmode =>
    have hplain (hmeta : Dialect.unix.isMeta c = false) (hnext : IsOutside next) :
        ∃ context stack, Scan.read ⟨finished, rest, ahead, .basic, [], saves⟩ c =
          .more { Scan.skip ⟨finished, rest, ahead, .basic, [], saves⟩ 1 with context, stack } ∧
          Opened next context stack :=
      ⟨.basic, [], read_of_isMeta_eq_false rfl hmeta, .outside hnext⟩
    rcases step_of_isOutside hmode hstep with ⟨rfl, -, rfl⟩ | ⟨-, after, -, -, hbare⟩
    · exact .inl (hplain (by decide) (.inr (.inl rfl)))
    · rcases bareStep_cases hbare with
        ⟨hblank, -, rfl⟩ | ⟨rfl, -, rfl⟩ | ⟨rfl, -, rfl⟩ | ⟨rfl, -, rfl⟩ | ⟨hmeta, -, rfl⟩
      · exact .inl (hplain (Dialect.unix_isMeta_eq_false_of_isBlank hblank) (.inl rfl))
      · exact .inl ⟨_, _, rfl, .single⟩
      · exact .inl ⟨_, _, rfl, .double⟩
      · refine .inr ⟨rfl, rfl, fun d here last h ↦ ?_⟩
        cases h
        exact .outside (.inr (.inr rfl))
      · exact .inl (hplain hmeta (.inr (.inr rfl)))
  | single =>
    by_cases hquote : c = '\''
    · subst hquote
      cases hstep
      exact .inl ⟨_, _, rfl, .outside (.inr (.inr rfl))⟩
    · have hsame : (literally home).step .single c = .ok ([.char c], .single) := by
        simp [Reading.step, hquote]
      rw [hsame] at hstep
      cases hstep
      exact .inl ⟨_, _, by simp [Scan.read, hquote]; rfl, .single⟩
  | double =>
    rcases doubleStep_cases hstep with
      ⟨rfl, -, rfl⟩ | ⟨rfl, -, rfl⟩ | ⟨hquote, hbackslash, hdollar, hbackquote, -, rfl⟩
    · exact .inl ⟨_, _, rfl, .outside (.inr (.inr rfl))⟩
    · refine .inr ⟨rfl, rfl, fun d here last h ↦ ?_⟩
      cases h
      exact .double
    · refine .inl ⟨.doubleQuotation, [.basic], ?_, .double⟩
      simp [Scan.read, Context.doubleQuotation, hquote, hbackslash, hdollar, hbackquote]
      rfl

/-! ### The scan and the readers in step -/

theorem textOf_cons (fragment : Fragment) (finished : List Fragment) :
    textOf (fragment :: finished) = textOf finished ++ fragment.text := by
  simp [textOf]

/-- A scan's finished text and the part `passed` of a marked text's pieces: both are read up to the
same mode, and the one holds values where the other holds marks. The pieces `more` of the marked
text are still to come. -/
structure Follows (macros : Macros) (home : List Char) (replacement : Char → List Char)
    (finished : List Fragment) (rest : List Char) (next : Option Occurrence) (mode : Mode)
    (cells : List (Char × Part)) (passed more : List Piece) : Prop where
  upcoming : Upcoming macros (legend replacement) next rest cells
  marked : (literally home).pieces mode (cells.map Prod.fst) = .ok more
  inWord : IsQuoting mode → (Gathered.none.addAll passed).current.isSome = true
  written : ∃ found, advance (literally home).step .gap (textOf finished) = .ok (found, mode) ∧
    Gathered.none.addAll found = (Gathered.none.addAll passed).replace replacement

namespace Follows

variable {finished : List Fragment} {rest : List Char} {next : Option Occurrence} {mode : Mode}
  {cells : List (Char × Part)} {passed more : List Piece}

/-- Both readers read a character of the line. -/
theorem literal (hkeeps : Keeps home fun c ↦ replacement c = [c]) {c : Char}
    (h : Follows macros home replacement finished (c :: rest) next mode cells passed more)
    (hgap : ∀ found, next = some found → found.gap ≠ 0) :
    ∃ here last later behind, (literally home).step mode c = .ok (here, last) ∧
      more = here ++ behind ∧
      Follows macros home replacement (.literal c :: finished) rest (next.map (·.nearer 1)) last
        later (passed ++ here) behind := by
  obtain ⟨later, rfl, hself, hupcoming⟩ := h.upcoming.literal hgap
  obtain ⟨here, last, behind, hstep, hbehind, rfl⟩ := exists_of_pieces_cons _ h.marked
  obtain ⟨found, hfound, hgathered⟩ := h.written
  refine ⟨here, last, later, behind, hstep, rfl, hupcoming, hbehind, fun hquoting ↦ ?_,
    found ++ here, ?_, ?_⟩
  · rw [Gathered.addAll_append]
    exact isSome_addAll_of_step hstep hquoting h.inWord
  · rw [textOf_cons]
    exact advance_append_of_ok hfound (advance_singleton hstep)
  · rw [Gathered.addAll_append, hgathered, Gathered.addAll_append,
      Gathered.replace_addAll _ (hkeeps.step hself hstep)]

/-- One reader reads a mark and the other the value that the scan puts there. -/
theorem value {found : Occurrence}
    (h : Follows macros home replacement finished rest (some found) mode cells passed more)
    (hgap : found.gap = 0) {context : Context} {stack : List Context}
    (hopened : Opened mode context stack) :
    ∃ here last later behind, Opened last context stack ∧ more = here ++ behind ∧
      Follows macros home replacement
        (.inserted (.inContext context) found.value :: finished) (rest.drop found.length)
        (macros.find (rest.drop found.length)) last later (passed ++ here) behind := by
  obtain ⟨c, text, later, rfl, hmark, hvalue, hreplacement, hupcoming⟩ := h.upcoming.hole hgap
  obtain ⟨here, last, behind, hstep, hbehind, rfl⟩ := exists_of_pieces_cons _ h.marked
  obtain ⟨written, hwritten, hnone, htext, hquoting, rfl, hlast⟩ :=
    advance_value hopened hmark hstep hvalue
  obtain ⟨found', hfound, hgathered⟩ := h.written
  refine ⟨[.char c], last, later, behind, hlast, rfl, hupcoming, hbehind, fun _ ↦ ?_,
    found' ++ written, ?_, ?_⟩
  · rw [Gathered.addAll_append]
    rfl
  · rw [textOf_cons]
    exact advance_append_of_ok hfound hwritten
  · have hspelled : Piece.text written = replacement c := by rw [htext, ← hreplacement]; rfl
    rw [Gathered.addAll_append, hgathered, Gathered.addAll_append,
      Gathered.addAll_replace _ hnone hspelled fun hnil ↦ h.inWord (hquoting hnil)]
    rfl

/-- Behind the last macro both readers read the same. -/
theorem finish (hkeeps : Keeps home fun c ↦ replacement c = [c])
    (h : Follows macros home replacement finished rest none mode cells passed more) :
    ∃ found, (literally home).pieces .gap (textOf finished ++ rest) = .ok found ∧
      Gathered.none.addAll found = (Gathered.none.addAll (passed ++ more)).replace replacement := by
  obtain ⟨hcells, hself⟩ := h.upcoming.of_next_eq_none
  have hmarked := h.marked
  rw [hcells] at hmarked
  obtain ⟨found, hfound, hgathered⟩ := h.written
  refine ⟨found ++ more, ?_, ?_⟩
  · rw [pieces_append _ hfound, hmarked]
    rfl
  · rw [Gathered.addAll_append, hgathered, Gathered.addAll_append,
      Gathered.replace_addAll _ (hkeeps.pieces hself hmarked)]

end Follows

/-- A scan in step with a reader of the marked text, whose pieces are `all`. -/
def InStep (macros : Macros) (home : List Char) (replacement : Char → List Char)
    (all : List Piece) (scan : Scan) : Prop :=
  ∃ mode cells passed more,
    Follows macros home replacement scan.finished scan.rest scan.next mode cells passed more ∧
      Opened mode scan.context scan.stack ∧ scan.saves = [] ∧ passed ++ more = all

namespace InStep

variable {all : List Piece} {scan : Scan}

/-- A character in front of the next macro leaves scan and reader in step, unless it is a backslash
that would take the macro's first character with it. -/
theorem read (hkeeps : Keeps home fun c ↦ replacement c = [c]) {c : Char} {rest : List Char}
    (h : InStep macros home replacement all scan) (hrest : scan.rest = c :: rest)
    (hgap : ∀ found, scan.next = some found → found.gap ≠ 0) :
    (∃ next, scan.read c = .more next ∧ InStep macros home replacement all next) ∨
      ∃ failure, scan.read c = .failed failure := by
  obtain ⟨mode, cells, passed, more, hfollows, hopened, hsaves, rfl⟩ := h
  rw [hrest] at hfollows
  obtain ⟨here, last, later, behind, hstep, rfl, hlater⟩ := hfollows.literal hkeeps hgap
  have hskip : (scan.skip 1).finished = .literal c :: scan.finished ∧
      (scan.skip 1).rest = rest := by
    simp [Scan.skip, hrest]
  rcases read_of_opened hopened hstep with ⟨context, stack, hread, hnext⟩ | ⟨hread, hend, hback⟩
  · refine .inl ⟨_, hread, last, later, passed ++ here, behind, ?_, hnext, hsaves, by simp⟩
    rw [← hskip.1, ← hskip.2] at hlater
    exact hlater
  · rw [hread, readEscape]
    split
    · exact .inr ⟨_, rfl⟩
    · rename_i hreaches
      refine .inl ⟨_, rfl, ?_⟩
      have hfar : ∀ found, scan.next.map (·.nearer 1) = some found → found.gap ≠ 0 := by
        intro found hfound
        obtain ⟨ahead, hahead, rfl⟩ := Option.map_eq_some_iff.mp hfound
        simp only [Scan.reaches, hahead, decide_eq_true_eq] at hreaches
        simp only [Occurrence.nearer_gap]
        omega
      cases rest with
      | nil =>
        have hnone := hlater.upcoming.next_eq_none
        have hupcoming := hlater.upcoming
        rw [hnone] at hupcoming
        have hmarked := hlater.marked
        rw [hupcoming.of_next_eq_none.1] at hmarked
        exact absurd (hmarked.symm.trans hend) (by simp)
      | cons d rest =>
        obtain ⟨here', last', later', behind', hstep', rfl, hlater'⟩ := hlater.literal hkeeps hfar
        have hboth : (scan.skip 2).finished = .literal d :: .literal c :: scan.finished ∧
            (scan.skip 2).rest = rest := by
          simp [Scan.skip, hrest]
        have hnext : (scan.skip 2).next = (scan.next.map (·.nearer 1)).map (·.nearer 1) := by
          cases hahead : scan.next with
          | none => simp [Scan.skip, hahead]
          | some found =>
            simp only [Scan.skip, hahead, Option.map_some, Occurrence.nearer]
            congr 2
            omega
        refine ⟨last', later', passed ++ here ++ here', behind', ?_, hback d here' last' hstep',
          hsaves, by simp⟩
        rw [← hnext, ← hboth.1, ← hboth.2] at hlater'
        exact hlater'

/-- A step of a scan leaves it in step with the reader, unless the scan ends or fails. -/
theorem step (hkeeps : Keeps home fun c ↦ replacement c = [c])
    (h : InStep macros home replacement all scan) :
    (∃ next, scan.step macros.finder = .more next ∧ InStep macros home replacement all next) ∨
      (scan.step macros.finder = .done scan ∧ scan.next = none) ∨
      ∃ failure, scan.step macros.finder = .failed failure := by
  cases hrest : scan.rest with
  | nil =>
    obtain ⟨mode, cells, passed, more, hfollows, -⟩ := h
    rw [hrest] at hfollows
    exact .inr (.inl ⟨by simp [Scan.step, hrest], hfollows.upcoming.next_eq_none⟩)
  | cons c rest =>
    cases hnext : scan.next with
    | none =>
      obtain ⟨-, -, -, -, -, -, hsaves, -⟩ := h
      exact .inr (.inl ⟨by simp [Scan.step, hrest, hnext, hsaves], rfl⟩)
    | some found =>
      by_cases hgap : found.gap = 0
      · obtain ⟨mode, cells, passed, more, hfollows, hopened, hsaves, rfl⟩ := h
        rw [hnext] at hfollows
        obtain ⟨here, last, later, behind, hlast, rfl, hlater⟩ := hfollows.value hgap hopened
        refine .inl ⟨scan.substitute macros.finder found, ?_, ?_⟩
        · simp [Scan.step, hrest, hnext, hgap]
        · exact ⟨last, later, passed ++ here, behind, hlater, hlast, hsaves, by simp⟩
      · have hread := h.read hkeeps hrest fun other hother ↦ by
          rw [hnext, Option.some.injEq] at hother
          rwa [← hother]
        by_cases hinside : found.gap < 0
        · refine .inr (.inr ⟨.insideToken (scan.offset + found.gap).toNat, ?_⟩)
          simp [Scan.step, hrest, hnext, hgap, hinside]
        · have hstep : scan.step macros.finder = scan.read c := by
            simp [Scan.step, hrest, hnext, hgap, hinside]
          rw [hstep]
          rcases hread with hmore | hfailed
          · exact .inl hmore
          · exact .inr (.inr hfailed)

/-- The text that a scan in step ends with has the pieces of the marked text, with each mark
replaced. -/
theorem run (hkeeps : Keeps home fun c ↦ replacement c = [c])
    (h : InStep macros home replacement all scan) {last : Scan}
    (hrun : scan.run macros.finder = .done last) :
    ∃ found, (literally home).pieces .gap last.text = .ok found ∧
      Gathered.none.addAll found = (Gathered.none.addAll all).replace replacement := by
  fun_induction Scan.run macros.finder scan with
  | case1 scan next hstep ih =>
    rcases h.step hkeeps with ⟨other, hother, hnext⟩ | ⟨hdone, -⟩ | ⟨failure, hfailed⟩
    · rw [hstep, Progress.more.injEq] at hother
      subst hother
      exact ih hnext hrun
    · exact absurd (hstep.symm.trans hdone) (by simp)
    · exact absurd (hstep.symm.trans hfailed) (by simp)
  | case2 scan final hstep =>
    cases hrun
    rcases h.step hkeeps with ⟨other, hother, -⟩ | ⟨hdone, hnext⟩ | ⟨failure, hfailed⟩
    · exact absurd (hstep.symm.trans hother) (by simp)
    · rw [hstep, Progress.done.injEq] at hdone
      subst hdone
      obtain ⟨mode, cells, passed, more, hfollows, -, -, rfl⟩ := h
      rw [hnext] at hfollows
      exact hfollows.finish hkeeps
    · exact absurd (hstep.symm.trans hfailed) (by simp)
  | case3 | case4 => cases hrun

end InStep

/-! ### Values stay literal -/

theorem pieces_expand (hkeeps : Keeps home fun c ↦ replacement c = [c]) {text : List Char}
    {cells : List (Char × Part)}
    (hupcoming : Upcoming macros (legend replacement) (macros.find text) text cells)
    {all : List Piece} (hmarked : (literally home).pieces .gap (cells.map Prod.fst) = .ok all)
    {expanded : List Char} {openContexts : Nat}
    (hexpand : expand macros.finder text = .ok (expanded, openContexts)) :
    ∃ found, (literally home).pieces .gap expanded = .ok found ∧
      Gathered.none.addAll found = (Gathered.none.addAll all).replace replacement := by
  have hfollows : Follows macros home replacement [] text (macros.find text) .gap cells [] all :=
    { upcoming := hupcoming
      marked := hmarked
      inWord := by simp [IsQuoting]
      written := ⟨[], rfl, rfl⟩ }
  have hfinder : macros.finder [] text = macros.find text := rfl
  rw [expand, hfinder] at hexpand
  cases hfind : macros.find text with
  | none =>
    rw [hfind] at hexpand hfollows
    cases hexpand
    exact hfollows.finish hkeeps
  | some found =>
    rw [hfind] at hexpand hfollows
    have hstart : InStep macros home replacement all (.start text found) :=
      ⟨.gap, cells, [], all, hfollows, .outside (.inl rfl), rfl, rfl⟩
    dsimp only at hexpand
    split at hexpand
    · rename_i last hrun
      cases hexpand
      exact hstart.run hkeeps hrun
    · cases hexpand
    · cases hexpand

/-- Putting macros into a line injects nothing. Put a mark at the place of every macro: if the
values can be put in, and the marked line can be read literally, then the expanded line can be read
literally, and its words are those of the marked line with each mark replaced by its value. -/
theorem split_unix_expand {macros : Macros} {text home marks : List Char} {words : List Word}
    (hvalues : ∀ entry ∈ macros.values, IsSafe entry.2)
    (hmarks : (macros.template text).Marks marks) (hfree : ∀ c ∈ marks, IsMark c ∧ c ∉ home)
    (hok : (Macro.expand .unix macros.finder text).ok = true)
    (hsplit : Dialect.unix.split true (.bare home) ((macros.template text).marked marks) =
      .ok words) :
    Dialect.unix.split true (.bare home) (Macro.expand .unix macros.finder text).text =
      .ok (words.map (List.flatMap ((macros.template text).unmark marks))) := by
  have hself {c : Char} (hc : c ∉ marks) : (macros.template text).unmark marks c = [c] :=
    Template.unmark_of_notMem hc
  have hquoteWorthy {c : Char} (hc : Dialect.unix.isQuoteWorthy c = true) : c ∉ marks :=
    fun hmem ↦ Dialect.ne_of_isQuoteWorthy (hfree c hmem).1.quoteWorthy hc rfl
  have hkeeps : Keeps home fun c ↦ (macros.template text).unmark marks c = [c] :=
    { backslash := hself (hquoteWorthy (by decide))
      tilde := hself (hquoteWorthy (by decide))
      home := fun c hc ↦ hself fun hmem ↦ (hfree c hmem).2 hc }
  have hupcoming := Upcoming.start hmarks (fun c hc ↦ (hfree c hc).1) hvalues
  obtain ⟨all, hall, rfl⟩ := exists_of_map_eq_ok hsplit
  cases hexpand : expand macros.finder text with
  | error failure => simp [Macro.expand, hexpand, Expansion.ok] at hok
  | ok result =>
    obtain ⟨expanded, openContexts⟩ := result
    obtain ⟨found, hfound, hgathered⟩ := pieces_expand hkeeps hupcoming hall hexpand
    have htext : (Macro.expand .unix macros.finder text).text = expanded := by
      simp [Macro.expand, hexpand]
    have hwords : Piece.words found =
        (Piece.words all).map (List.flatMap ((macros.template text).unmark marks)) := by
      rw [← Gathered.words_addAll_none, ← Gathered.words_addAll_none, hgathered,
        Gathered.words_replace]
    rw [htext, Dialect.split, CommandLine.Unix.split, hfound, ← hwords]
    rfl

/-- A value with a blank and a quote, outside of quotes and in either kind of quotes. -/
theorem split_unix_expand_in_quotes :
    Dialect.unix.split true (.bare "/root".toList)
        (Macro.expand .unix (Macros.mk [(['X'], "a 'b".toList)] .default).finder
          "%\x7bX\x7d '%\x7bX\x7d' \"-%\x7bX\x7d\"".toList).text =
      .ok ["a 'b".toList, "a 'b".toList, "-a 'b".toList] := by
  have hmarked : Dialect.unix.split true (.bare "/root".toList)
      (((Macros.mk [(['X'], "a 'b".toList)] .default).template
        "%\x7bX\x7d '%\x7bX\x7d' \"-%\x7bX\x7d\"".toList).marked ['x', 'y', 'z']) =
      .ok [['x'], ['y'], ['-', 'z']] := by
    decide +kernel
  have hfree : ∀ c ∈ ['x', 'y', 'z'], IsMark c ∧ c ∉ "/root".toList := by
    simp only [List.mem_cons, List.not_mem_nil, or_false, forall_eq_or_imp, forall_eq]
    decide
  have hsplit := split_unix_expand (by decide) (by decide +kernel) hfree (by decide +kernel) hmarked
  rw [hsplit]
  decide +kernel

/-- A slash may not mark a value: behind a tilde it ends the name of the home directory, which no
value does. -/
theorem not_split_unix_expand_of_slash :
    ¬ ∀ (macros : Macros) (text home marks : List Char) (words : List Word),
      macros.pattern = .default → (∀ entry ∈ macros.values, IsSafe entry.2) →
      (macros.template text).Marks marks →
      (∀ c ∈ marks, Text.isBlank c = false ∧ Dialect.unix.isQuoteWorthy c = false ∧
        c ∉ home ∧ ∀ entry ∈ macros.values, c ∉ entry.2) →
      (Macro.expand .unix macros.finder text).ok = true →
      Dialect.unix.split true (.bare home) ((macros.template text).marked marks) = .ok words →
      Dialect.unix.split true (.bare home) (Macro.expand .unix macros.finder text).text =
        .ok (words.map (List.flatMap ((macros.template text).unmark marks))) := by
  intro h
  have hslash := h ⟨[(['X'], ['a'])], .default⟩ "~%\x7bX\x7d".toList "test".toList ['/']
    ["test/".toList] rfl (by decide) (by decide +kernel)
    (List.forall_mem_singleton.mpr (by decide)) (by decide +kernel) (by decide +kernel)
  have hrefused : Dialect.unix.split true (.bare "test".toList)
      (Macro.expand .unix (Macros.mk [(['X'], ['a'])] .default).finder
        "~%\x7bX\x7d".toList).text = .error .foundMeta := by
    decide +kernel
  rw [hrefused] at hslash
  cases hslash

end CommandLine.Macro.Unix
