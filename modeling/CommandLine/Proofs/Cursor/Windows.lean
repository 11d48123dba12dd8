import CommandLine.Proofs.Cursor.Yields
import CommandLine.Proofs.Windows.Readers
import Mathlib.Data.List.Basic

/-!
A cursor on a line for Windows, and the two readers that split the line. The cursor follows both in
one pass, with less memory than they have. Backslashes that a quote has halved stay pending, and
count again in front of the next quote; and every argument begins outside of the command
processor's quotations, whatever is open there. Where neither makes a difference, the cursor comes
upon the words of the line.
-/

set_option autoImplicit false

namespace CommandLine.Cursor.Windows

open CommandLine.Windows (ShellMode Quoting Runtime received arguments isSeparator backslashes
  backslashes_zero backslashes_add reverse_backslashes)
open Piece (Gathered)
open Transducer

/-! ### Where the cursor is not misled -/

/-- The backslashes that the last quote left over, behind a further character: an unescaped quote
leaves half of the backslashes in front of it, and any other character but a backslash uses up
what there is. -/
def leftAfter (left slashes : Nat) (c : Char) : Nat :=
  if c = '\\' then left else if c = '"' ∧ slashes % 2 = 0 then slashes / 2 else 0

/-- No quote follows behind backslashes alone on a quote that left some over. -/
def quotesClear (left slashes : Nat) : List Char → Bool
  | [] => true
  | c :: rest =>
    (c != '"' || left == 0) &&
      quotesClear (leftAfter left slashes c) (if c = '\\' then slashes + 1 else 0) rest

/-- Wherever a circumflex or a character that the command processor interprets stands, the command
processor is in the mode that a cursor sees, which is the plain one behind every gap. -/
def tracksShell (shell seen : ShellMode) (runtime : Runtime) : List Char → Bool
  | [] => true
  | c :: rest =>
    (shell == seen || c != '^' && !Dialect.windows.isMeta c) &&
      match shell.step c, seen.step c with
      | .ok (passed, next), .ok (_, after) =>
        tracksShell next (if runtime.quoting ≠ .inside ∧ isSeparator c then .plain else after)
          (runtime.advance passed).2 rest
      | _, _ => true

/-- What the two readers find in a text, if a cursor that sees a mode and has backslashes left over
is not misled in it. -/
structure Reads (shell seen : ShellMode) (runtime : Runtime) (left : Nat) (text : List Char)
    (found : List Piece) : Prop where
  readers : ∃ passed last, Transducer.advance ShellMode.step shell text = .ok (passed, last) ∧
    runtime.pieces passed = .ok found ∧ quotesClear left runtime.slashes passed = true
  tracks : tracksShell shell seen runtime text = true
  percent : '%' ∉ text

/-- The runtime's count of backslashes behind a character. -/
theorem slashes_step (runtime : Runtime) (c : Char) :
    (runtime.step c).2.slashes = if c = '\\' then runtime.slashes + 1 else 0 := by
  unfold Runtime.step
  repeat' split
  all_goals rfl

section Reads

variable {shell seen : ShellMode} {runtime : Runtime} {left : Nat} {rest : List Char} {c : Char}
  {found : List Piece}

theorem Reads.nil (h : Reads shell seen runtime left [] found) :
    runtime.quoting ≠ .inside ∧ found = Piece.chars (backslashes runtime.slashes) := by
  obtain ⟨passed, last, hadvance, hpieces, -⟩ := h.readers
  cases hadvance
  have hquoting : runtime.quoting ≠ .inside := by
    intro hinside
    simp [Runtime.pieces, Runtime.finish, hinside, Except.map] at hpieces
  refine ⟨hquoting, ?_⟩
  simpa [Runtime.pieces, Runtime.finish, hquoting, Except.map] using hpieces.symm

/-- What a character of a text is to a cursor: a circumflex that is taken away, or a character that
is passed on and that the cursor takes for nothing else. -/
theorem Reads.cons (h : Reads shell seen runtime left (c :: rest) found) :
    ((seen = .plain ∧ c = '^') ∧ Reads .escaped .escaped runtime left rest found) ∨
      (¬(seen = .plain ∧ c = '^') ∧ ¬(seen = .plain ∧ Dialect.windows.isMeta c = true) ∧ c ≠ '%' ∧
        (c = '"' → left = 0) ∧
        ∃ behind, found = (runtime.step c).1 ++ behind ∧
          Reads (shell.after c)
            (if runtime.quoting ≠ .inside ∧ isSeparator c then .plain else seen.after c)
            (runtime.step c).2 (leftAfter left runtime.slashes c) rest behind) := by
  obtain ⟨passed, last, hadvance, hpieces, hclear⟩ := h.readers
  obtain ⟨here, next, more, hstep, hmore, rfl⟩ := exists_of_advance_cons hadvance
  have htracks := h.tracks
  have hpercent := h.percent
  simp only [List.mem_cons, not_or] at hpercent
  rw [tracksShell, Bool.and_eq_true, hstep] at htracks
  obtain ⟨hsame, htracks⟩ := htracks
  simp only [Bool.or_eq_true, beq_iff_eq, Bool.and_eq_true, bne_iff_ne, Bool.not_eq_true'] at hsame
  rcases ShellMode.step_cases hstep with ⟨⟨rfl, rfl⟩, rfl, rfl⟩ | ⟨hcircumflex, hmeta, rfl, rfl⟩
  · obtain rfl : ShellMode.plain = seen := by simpa using hsame
    have hescaped : ShellMode.plain.step '^' = .ok ([], .escaped) := rfl
    have hgap : ¬(runtime.quoting ≠ .inside ∧ isSeparator '^' = true) := fun h ↦
      absurd h.2 (by decide)
    simp only [hescaped, if_neg hgap] at htracks
    exact .inl ⟨⟨rfl, rfl⟩, ⟨more, last, hmore, hpieces, hclear⟩, htracks, hpercent.2⟩
  · have hseen : ¬(seen = .plain ∧ c = '^') ∧
        ¬(seen = .plain ∧ Dialect.windows.isMeta c = true) := by
      rcases hsame with rfl | ⟨hne, hplain⟩
      · exact ⟨hcircumflex, hmeta⟩
      · exact ⟨fun h ↦ hne h.2, fun h ↦ by simp [hplain] at h⟩
    have hafter := ShellMode.step_eq_passed hseen.1 hseen.2
    rw [List.singleton_append, Runtime.pieces_cons] at hpieces
    obtain ⟨behind, hbehind, rfl⟩ := exists_of_map_eq_ok hpieces
    rw [List.singleton_append, quotesClear, Bool.and_eq_true, ← slashes_step] at hclear
    simp only [hafter, Runtime.advance_cons, Runtime.advance_nil] at htracks
    refine .inr ⟨hseen.1, hseen.2, Ne.symm hpercent.1, fun hquote ↦ ?_, behind, rfl,
      ⟨more, last, hmore, hbehind, hclear.2⟩, htracks, hpercent.2⟩
    simpa [hquote] using hclear.1

end Reads

/-! ### What the cursor gathers -/

/-- Where the C runtime is with regard to quotations. -/
def WordState.quoting : WordState → Quoting
  | between | inWord => .outside
  | closed => .closed
  | quoted => .inside

theorem quoting_inside (word : WordState) :
    (Scan.inside word).quoting = word.quoting.afterCharacter := by
  cases word <;> rfl

theorem quoting_eq_inside {word : WordState} : word.quoting = .inside ↔ word = .quoted := by
  cases word <;> simp [WordState.quoting]

/-- A cursor has gathered what the readers have gathered of a word, but for the backslashes that are
left over. -/
structure Gathers (scan : Scan) (runtime : Runtime) (left : Nat) (current : Option Word) :
    Prop where
  quoting : runtime.quoting = scan.word.quoting
  slashes : scan.slashes = left + runtime.slashes
  closed : runtime.quoting = .closed → runtime.slashes = 0
  value : scan.value.reverse ++ backslashes left = current.getD []
  reference : scan.reference = .none
  simple : scan.simple = true

/-- What pieces without a gap make of the word that is open. -/
def extended (current : Option Word) (pieces : List Piece) : Option Word :=
  ((Gathered.mk [] current).addAll pieces).current

section Gathers

variable {scan : Scan} {runtime : Runtime} {left : Nat} {current : Option Word} {c : Char}

theorem shell_readWord (scan : Scan) (c : Char) :
    (scan.readWord c).shell = scan.shell.after c := by
  unfold Scan.readWord Scan.readQuote
  dsimp only
  repeat' split
  all_goals rfl

theorem word_readWord_ne_between (scan : Scan) (c : Char) :
    (scan.readWord c).word ≠ .between := by
  have hinside (word : WordState) : Scan.inside word ≠ .between := by cases word <;> decide
  unfold Scan.readWord Scan.readQuote
  dsimp only
  repeat' split
  all_goals first
    | exact hinside _
    | simp [Scan.take]

theorem extended_of_gap_notMem {pieces : List Piece} (hgap : .gap ∉ pieces) (hnil : pieces ≠ []) :
    extended current pieces = some (current.getD [] ++ Piece.text pieces) := by
  rw [extended, Gathered.addAll_of_gap_notMem _ hgap hnil]

theorem addAll_eq_extended {pieces : List Piece} (hgap : .gap ∉ pieces) :
    (Gathered.mk [] current).addAll pieces = ⟨[], extended current pieces⟩ := by
  by_cases hnil : pieces = []
  · subst hnil
    rfl
  · rw [Gathered.addAll_of_gap_notMem _ hgap hnil, extended_of_gap_notMem hgap hnil]

/-- Backslashes that turn out to be literal come behind what has been gathered. -/
theorem Gathers.reverse_value (h : Gathers scan runtime left current) :
    (backslashes scan.slashes ++ scan.value).reverse =
      current.getD [] ++ backslashes runtime.slashes := by
  rw [List.reverse_append, reverse_backslashes, h.slashes, backslashes_add, ← List.append_assoc,
    h.value]

/-- A quote opens, closes or is literal for the cursor as for the readers. -/
theorem Gathers.readQuote (h : Gathers scan runtime 0 current) :
    Gathers scan.readQuote (runtime.step '"').2 (leftAfter 0 runtime.slashes '"')
      (extended current (runtime.step '"').1) := by
  obtain ⟨quoting, slashes⟩ := runtime
  obtain ⟨hquoting, hslashes, hclosed, hvalue, hreference, hsimple⟩ := h
  simp only [Nat.zero_add, backslashes_zero, List.append_nil] at hquoting hslashes hclosed hvalue
  subst hquoting hslashes
  rcases Nat.mod_two_eq_zero_or_one scan.slashes with heven | hodd
  · rw [Runtime.step_quote_of_even heven]
    rw [extended_of_gap_notMem (by cases scan.word <;> simp [WordState.quoting, Quoting.mark])
      (by simp)]
    simp only [Scan.readQuote, heven, leftAfter]
    cases hword : scan.word <;>
      constructor <;>
      simp_all [WordState.quoting, Quoting.mark, Quoting.afterQuote, Scan.take, Piece.text]
  · rw [Runtime.step_quote_of_odd hodd, extended_of_gap_notMem (by simp) (by simp)]
    simp only [Scan.readQuote, hodd, if_true, leftAfter]
    constructor <;>
      simp_all [quoting_inside, Scan.take, Piece.text, reverse_backslashes]

/-- A character that separates no words is gathered by the cursor as by the readers. -/
theorem Gathers.readWord (h : Gathers scan runtime left current) (hpercent : c ≠ '%')
    (hclear : c = '"' → left = 0) (hgap : ¬(runtime.quoting ≠ .inside ∧ isSeparator c = true)) :
    Gathers (scan.readWord c) (runtime.step c).2 (leftAfter left runtime.slashes c)
      (extended current (runtime.step c).1) := by
  by_cases hbackslash : c = '\\'
  · subst hbackslash
    rw [Runtime.step_backslash]
    exact
      { quoting := by simp [Scan.readWord, quoting_inside, h.quoting]
        slashes := by simp [Scan.readWord, leftAfter, h.slashes, Nat.add_assoc]
        closed := by cases hquoting : runtime.quoting <;> simp [Quoting.afterCharacter]
        value := h.value
        reference := by simp [Scan.readWord]
        simple := by simp [Scan.readWord, h.simple] }
  · by_cases hquote : c = '"'
    · subst hquote
      obtain rfl := hclear rfl
      have hafter :
          Gathers { scan with shell := scan.shell.after '"' } runtime 0 current :=
        ⟨h.quoting, h.slashes, h.closed, h.value, h.reference, h.simple⟩
      exact hafter.readQuote
    · have hpiece : runtime.quoting.piece c = .char c := if_neg hgap
      have hplain : Scan.reference? scan.reference c = (.none, false) := by
        simp [Scan.reference?, hpercent, h.reference]
      have hread : scan.readWord c =
          { scan with
            shell := scan.shell.after c, reference := .none, word := Scan.inside scan.word
            value := c :: backslashes scan.slashes ++ scan.value, slashes := 0 } := by
        simp [Scan.readWord, hbackslash, hquote, hplain, Scan.take]
      rw [hread, Runtime.step_character _ hbackslash hquote, hpiece,
        extended_of_gap_notMem (by simp) (by simp)]
      exact
        { quoting := by simp [quoting_inside, h.quoting]
          slashes := by simp [leftAfter, hbackslash, hquote]
          closed := fun _ ↦ rfl
          value := by
            have hreverse := h.reverse_value
            simp_all [leftAfter, Piece.text]
          reference := rfl
          simple := h.simple }

/-- The word is begun, if only by backslashes. -/
theorem addAll_backslashes {count : Nat} (h : current.isSome = true ∨ count ≠ 0) :
    (Gathered.mk [] current).addAll (Piece.chars (backslashes count)) =
      ⟨[], some (current.getD [] ++ backslashes count)⟩ := by
  cases count with
  | zero =>
    obtain ⟨word, rfl⟩ := Option.isSome_iff_exists.mp (h.resolve_right (by simp))
    simp
  | succ count =>
    rw [Gathered.addAll_of_gap_notMem _ (by simp) (by simp [Piece.chars, backslashes]),
      Piece.text_chars]

/-- A character that separates no words begins or extends one. -/
theorem begun_step (current : Option Word)
    (hgap : ¬(runtime.quoting ≠ .inside ∧ isSeparator c = true)) :
    .gap ∉ (runtime.step c).1 ∧
      ((extended current (runtime.step c).1).isSome = true ∨ (runtime.step c).2.slashes ≠ 0) := by
  by_cases hbackslash : c = '\\'
  · subst hbackslash
    exact ⟨by simp [Runtime.step_backslash], .inr (by simp [Runtime.step_backslash])⟩
  · have hfound : .gap ∉ (runtime.step c).1 ∧ (runtime.step c).1 ≠ [] := by
      by_cases hquote : c = '"'
      · subst hquote
        rcases Nat.mod_two_eq_zero_or_one runtime.slashes with heven | hodd
        · rw [Runtime.step_quote_of_even heven]
          cases runtime.quoting <;> simp [Quoting.mark]
        · rw [Runtime.step_quote_of_odd hodd]
          simp
      · rw [Runtime.step_character _ hbackslash hquote, Quoting.piece, if_neg hgap]
        simp
    refine ⟨hfound.1, .inl ?_⟩
    rw [extended_of_gap_notMem hfound.1 hfound.2]
    rfl

end Gathers

/-! ### One argument after the other -/

/-- The readers find these words in a text in which a cursor is not misled. -/
def Ahead (text : List Char) (words : List Word) : Prop :=
  ∃ shell found, Reads shell .plain .start 0 text found ∧ Piece.words found = words

theorem next_separator {c : Char} (hc : isSeparator c = true) (rest : List Char) :
    next (c :: rest) = next rest := by
  simp only [isSeparator, Bool.or_eq_true, beq_iff_eq] at hc
  rcases hc with rfl | rfl <;> rfl

/-- At the end of a word the cursor has the word. -/
theorem Gathers.finish {scan : Scan} {runtime : Runtime} {left : Nat} {current : Option Word}
    (h : Gathers scan runtime left current) (hword : scan.word ≠ .between)
    (hquoting : runtime.quoting ≠ .inside) (rest : List Char) :
    scan.finish rest = ⟨true, rest, current.getD [] ++ backslashes runtime.slashes, true⟩ := by
  have hquoted : scan.word ≠ .quoted := fun hquoted ↦
    hquoting (h.quoting.trans (quoting_eq_inside.mpr hquoted))
  simp [Scan.finish, hquoted, hword, h.simple, ← h.reverse_value]

/-- Behind a separator the readers begin a new word. -/
theorem step_separator {runtime : Runtime} {c : Char} (hquoting : runtime.quoting ≠ .inside)
    (hc : isSeparator c = true) :
    runtime.step c = (Piece.chars (backslashes runtime.slashes) ++ [.gap], .start) ∧
      ∀ left, leftAfter left runtime.slashes c = 0 := by
  have hbackslash : c ≠ '\\' := by rintro rfl; cases hc
  have hquote : c ≠ '"' := by rintro rfl; cases hc
  have hafter : runtime.quoting.afterCharacter = .outside := by
    cases hcases : runtime.quoting with
    | inside => exact absurd hcases hquoting
    | outside | closed => rfl
  refine ⟨?_, fun left ↦ by simp [leftAfter, hbackslash, hquote]⟩
  rw [Runtime.step_character _ hbackslash hquote, Quoting.piece, if_pos ⟨hquoting, hc⟩, hafter]
  rfl

/-- In a word the cursor goes on to the end of the word, and the readers find the other words behind
it. -/
theorem Gathers.run {text : List Char} {scan : Scan} {shell : ShellMode} {runtime : Runtime}
    {left : Nat} {current : Option Word} {found : List Piece}
    (h : Gathers scan runtime left current) (hword : scan.word ≠ .between)
    (hbegun : current.isSome = true ∨ runtime.slashes ≠ 0)
    (hreads : Reads shell scan.shell runtime left text found) :
    ∃ word words rest behind, scan.run text = ⟨true, rest, word, true⟩ ∧
      ((Gathered.mk [] current).addAll found).words = word :: words ∧
        Ahead behind words ∧ next rest = next behind := by
  induction text generalizing scan shell runtime left current found with
  | nil =>
    obtain ⟨hquoting, rfl⟩ := hreads.nil
    refine ⟨_, [], [], [], h.finish hword hquoting [], ?_, ⟨.plain, [], ?_, rfl⟩, rfl⟩
    · rw [addAll_backslashes hbegun]
      rfl
    · exact ⟨⟨[], .plain, rfl, rfl, rfl⟩, rfl, by simp⟩
  | cons c rest ih =>
    rcases hreads.cons with ⟨hcircumflex, hrest⟩ | ⟨hcircumflex, hmeta, hpercent, hclear, hrest⟩
    · have hnext : Gathers { scan with shell := .escaped, reference := .none } runtime left
          current := ⟨h.quoting, h.slashes, h.closed, h.value, rfl, h.simple⟩
      rw [Scan.run, if_pos hcircumflex]
      exact ih hnext hword hbegun hrest
    · obtain ⟨behind, rfl, hrest⟩ := hrest
      rw [Scan.run, if_neg hcircumflex, if_neg hmeta]
      have hquoted : scan.word ≠ .quoted ↔ runtime.quoting ≠ .inside := by
        rw [h.quoting, Ne, Ne, quoting_eq_inside]
      by_cases hgap : runtime.quoting ≠ .inside ∧ isSeparator c = true
      · obtain ⟨hstep, hleft⟩ := step_separator hgap.1 hgap.2
        rw [if_pos ⟨hquoted.mpr hgap.1, hgap.2⟩, if_neg hword, h.finish hword hgap.1]
        rw [if_pos hgap, hstep, hleft] at hrest
        refine ⟨_, Piece.words behind, c :: rest, rest, rfl, ?_, ⟨_, _, hrest, rfl⟩,
          next_separator hgap.2 rest⟩
        rw [hstep, Gathered.addAll_append, Gathered.addAll_append, addAll_backslashes hbegun,
          Gathered.words_addAll]
        rfl
      · obtain ⟨hfound, hbegun'⟩ := begun_step current hgap
        rw [if_neg fun hstop ↦ hgap ⟨hquoted.mp hstop.1, hstop.2⟩]
        rw [if_neg hgap, ← shell_readWord scan c] at hrest
        rw [Gathered.addAll_append, addAll_eq_extended hfound]
        exact ih (h.readWord hpercent hclear hgap) (word_readWord_ne_between scan c) hbegun' hrest

/-- A scan between words, which sees the command processor in a mode. -/
def Scan.between (seen : ShellMode) : Scan := ⟨seen, .between, .none, 0, [], true⟩

/-- Between words the cursor goes on to the next word, which is the next one that the readers
find. -/
theorem Reads.run_between {text : List Char} {shell seen : ShellMode} {found : List Piece}
    (h : Reads shell seen .start 0 text found) (hseen : seen ≠ .quoted) :
    (Piece.words found = [] ∧ ((Scan.between seen).run text).success = false) ∨
      ∃ word words rest behind, (Scan.between seen).run text = ⟨true, rest, word, true⟩ ∧
        Piece.words found = word :: words ∧ Ahead behind words ∧ next rest = next behind := by
  induction text generalizing shell seen found with
  | nil =>
    obtain ⟨-, rfl⟩ := h.nil
    exact .inl ⟨rfl, rfl⟩
  | cons c rest ih =>
    rcases h.cons with ⟨hcircumflex, hrest⟩ | ⟨hcircumflex, hmeta, hpercent, hclear, hrest⟩
    · have hrun : (Scan.between seen).run (c :: rest) = (Scan.between .escaped).run rest := by
        rw [Scan.run]
        exact if_pos hcircumflex
      rw [hrun]
      exact ih hrest (by decide)
    · obtain ⟨behind, rfl, hrest⟩ := hrest
      have houtside : Runtime.start.quoting ≠ .inside := by decide
      have hrun : (Scan.between seen).run (c :: rest) =
          if isSeparator c = true then (Scan.between (seen.after c)).run rest
          else ((Scan.between seen).readWord c).run rest := by
        rw [Scan.run]
        refine (if_neg hcircumflex).trans ((if_neg hmeta).trans ?_)
        by_cases hseparator : isSeparator c = true <;>
          simp [hseparator, Scan.between]
      rw [hrun]
      by_cases hseparator : isSeparator c = true
      · obtain ⟨hstep, hleft⟩ := step_separator houtside hseparator
        have hplain : seen.after c = .plain := by
          have hquote : c ≠ '"' := by rintro rfl; cases hseparator
          cases seen with
          | plain => simp [ShellMode.after, hquote]
          | escaped => rfl
          | quoted => exact absurd rfl hseen
        have hwords : Piece.words ((Runtime.start.step c).1 ++ behind) = Piece.words behind := by
          rw [hstep]
          rfl
        rw [if_pos hseparator, hplain, hwords]
        rw [if_pos ⟨houtside, hseparator⟩, hstep, hleft] at hrest
        exact ih hrest (by decide)
      · have hgap : ¬(Runtime.start.quoting ≠ .inside ∧ isSeparator c = true) :=
          fun hgap ↦ hseparator hgap.2
        have hstart : Gathers (.between seen) .start 0 none :=
          ⟨rfl, rfl, fun _ ↦ rfl, rfl, rfl, rfl⟩
        obtain ⟨hfound, hbegun⟩ := begun_step none hgap
        have hshell : (Scan.between seen).shell = seen := rfl
        rw [if_neg hseparator]
        rw [if_neg hgap, ← hshell, ← shell_readWord] at hrest
        obtain ⟨word, words, last, more, hrun, hwords, hmore, hnext⟩ :=
          (hstart.readWord hpercent hclear hgap).run (word_readWord_ne_between _ c) hbegun hrest
        refine .inr ⟨word, words, last, more, hrun, ?_, hmore, hnext⟩
        rw [← hwords, ← addAll_eq_extended hfound, ← Gathered.addAll_append,
          ← Gathered.words_addAll_none]
        rfl

/-- A text in which a cursor is not misled yields the words that the readers find in it. -/
theorem Ahead.yields {text : List Char} {words : List Word} (h : Ahead text words) :
    Yields .windows text (words.map fun word ↦ (word, true)) := by
  refine Yields.of_ahead ?_ h
  rintro text _ ⟨shell, found, hreads, rfl⟩
  rcases hreads.run_between (by decide) with
    hnone | ⟨word, others, rest, behind, hrun, hwords, hahead, hnext⟩
  · exact .inl hnone
  · exact .inr ⟨word, others, rest, behind, hwords, hrun, hnext, hahead⟩

/-- A cursor comes upon exactly the words of a line that can be split strictly and does not begin
with an at sign, if no quote follows behind backslashes alone on a quote that left some over, and no
circumflex or interpreted character stands where a quotation of the command processor's that spans
a gap makes a difference. -/
theorem arguments_windows_eq_words (directory : Option (List Char)) (home : List Char)
    {line : List Char} {words : List Word} (hat : line.head? ≠ some '@')
    (hsplit : Dialect.windows.split true ⟨none, directory, home⟩ line = .ok words)
    (hclear : ∀ passed, received line = .ok passed → quotesClear 0 0 passed = true)
    (htracks : tracksShell .plain .plain .start line = true) :
    Cursor.arguments .windows line = words.map fun word ↦ (word, true) := by
  rw [Dialect.split, CommandLine.Windows.split_strict_eq] at hsplit
  split at hsplit
  · cases hsplit
  rename_i hpercent
  have hreceived : received line =
      (Transducer.advance ShellMode.step .plain line).map Prod.fst := by
    rw [received, CommandLine.Windows.dropEcho_of_head?_ne hat, ShellMode.receivedFrom_eq]
  cases hadvance : Transducer.advance ShellMode.step .plain line with
  | error refusal =>
    rw [hreceived, hadvance] at hsplit
    cases hsplit
  | ok result =>
    obtain ⟨passed, last⟩ := result
    rw [hadvance] at hreceived
    have harguments : CommandLine.Windows.arguments passed = .ok words := by
      rw [hreceived] at hsplit
      exact hsplit
    rw [CommandLine.Windows.arguments_eq] at harguments
    obtain ⟨found, hfound, hwords⟩ := exists_of_map_eq_ok harguments
    have hreads : Reads .plain .plain .start 0 line found :=
      ⟨⟨passed, last, hadvance, hfound, hclear passed hreceived⟩, htracks, hpercent⟩
    have hahead : Ahead line words := ⟨.plain, found, hreads, hwords⟩
    exact hahead.yields.arguments_eq

/-- Backslashes in front of quotes, doubled quotes, and circumflexes in and outside of the command
processor's quotations do not mislead a cursor. -/
theorem arguments_windows_quotations :
    Cursor.arguments .windows "\"C:\\a dir\\\\\" a\\\"b^^\\\"^& \"\"\"x\"\"\"^^".toList =
      [("C:\\a dir\\".toList, true), ("a\"b^^\"&".toList, true), ("\"x\"^".toList, true)] := by
  have hsplit : Dialect.windows.split true ⟨none, none, []⟩
      "\"C:\\a dir\\\\\" a\\\"b^^\\\"^& \"\"\"x\"\"\"^^".toList =
      .ok ["C:\\a dir\\".toList, "a\"b^^\"&".toList, "\"x\"^".toList] := by
    decide +kernel
  refine arguments_windows_eq_words none [] (by decide) hsplit ?_ (by decide +kernel)
  intro passed hpassed
  have hreceived : received "\"C:\\a dir\\\\\" a\\\"b^^\\\"^& \"\"\"x\"\"\"^^".toList =
      .ok "\"C:\\a dir\\\\\" a\\\"b^^\\\"& \"\"\"x\"\"\"^".toList := by
    decide +kernel
  rw [hreceived] at hpassed
  cases hpassed
  decide +kernel

/-- Two quotes behind two backslashes are to a cursor an open quotation, and an interpreted
character in a quotation of the command processor's ends the arguments, where a gap stands in front
of it in that quotation. -/
theorem arguments_windows_ne_words :
    (Dialect.windows.split true ⟨none, none, []⟩ "\\\\\"\"".toList = .ok ["\\".toList] ∧
      Cursor.arguments .windows "\\\\\"\"".toList = []) ∧
    Dialect.windows.split true ⟨none, none, []⟩ "\\\" & \\\"".toList =
        .ok ["\"".toList, "&".toList, "\"".toList] ∧
      Cursor.arguments .windows "\\\" & \\\"".toList = [("\"".toList, true)] := by
  refine ⟨⟨by decide +kernel, ?_⟩, by decide +kernel, ?_⟩
  · exact Yields.arguments_eq (.done (by decide +kernel))
  · have hfirst : find .windows "\\\" & \\\"".toList =
        ⟨true, " & \\\"".toList, "\"".toList, true⟩ := by
      decide +kernel
    exact Yields.arguments_eq (.next hfirst (.done (by decide +kernel)))

end CommandLine.Cursor.Windows
