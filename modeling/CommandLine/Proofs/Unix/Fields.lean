import CommandLine.Proofs.Parts
import CommandLine.Proofs.Unix.Reading

/-!
Field splitting by the rules of the POSIX shell. A line is put together from plain characters,
quotations and variables; each of these stands for a row of pieces of its own, wherever it stands in
the line: characters, the marks of its quotes, and a gap for each space, tab and line feed of a
value outside of quotes. The words of the line are what the gaps leave between them, where that is a
character or a mark at least. So nothing in a value quotes, escapes or expands anything.
-/

set_option autoImplicit false

namespace CommandLine.Unix

open Transducer

/-- A segment of a line. -/
inductive Segment
  /-- Characters outside of quotes that stand for themselves. -/
  | plain (characters : List Char)
  /-- Characters between single quotes. -/
  | quotation (characters : List Char)
  /-- A variable in braces outside of quotes. -/
  | expansion (name : List Char)
  /-- A variable in braces between double quotes. -/
  | quotedExpansion (name : List Char)
  deriving DecidableEq, Repr

namespace Segment

/-- A segment as it is written. -/
def written : Segment → List Char
  | plain characters => characters
  | quotation characters => '\'' :: characters ++ ['\'']
  | expansion name => '$' :: '{' :: name ++ ['}']
  | quotedExpansion name => '"' :: '$' :: '{' :: name ++ ['}', '"']

/-- A character that stands for itself outside of quotes, also at the beginning of a word. -/
def isPlain (c : Char) : Bool :=
  !Text.isBlank c && !(['\'', '"', '\\', '$', '~'].contains c)

/-- A name that stands for a variable of the environment: it is bound, and is not `PWD` unless the
working directory is not known or empty. -/
structure IsBound (environment : Environment) (directory : Option (List Char))
    (name : List Char) : Prop where
  isName : ∀ c ∈ name, Text.isNameChar c = true
  bound : (environment.lookup name).isSome = true
  notDirectory : name = ['P', 'W', 'D'] → directory.getD [] = []

/-- A segment that can be written, and whose variable is bound. -/
def IsWritable (environment : Environment) (directory : Option (List Char)) : Segment → Prop
  | plain characters => ∀ c ∈ characters, isPlain c = true
  | quotation characters => '\'' ∉ characters
  | expansion name | quotedExpansion name => IsBound environment directory name

/-- A character of a value outside of quotes. -/
def fieldPiece (c : Char) : Piece := if [' ', '\t', '\n'].contains c then .gap else .char c

/-- What a segment stands for. -/
def pieces (environment : Environment) : Segment → List Piece
  | plain characters => Piece.chars characters
  | quotation characters => .opening :: Piece.chars characters ++ [.closing]
  | expansion name => ((environment.lookup name).getD []).map fieldPiece
  | quotedExpansion name =>
    .opening :: Piece.chars ((environment.lookup name).getD []) ++ [.closing]

end Segment

namespace Reading

variable {environment : Environment} {directory : Option (List Char)} {mode : Mode}

/-- A lenient scan that expands variables. -/
abbrev expanding (environment : Environment) (directory : Option (List Char)) (home : List Char) :
    Reading :=
  ⟨false, some environment, directory, home⟩

/-! ### Characters -/

theorem advance_plainCharacters (home : List Char) (hmode : IsBare mode) {characters : List Char}
    (hplain : ∀ c ∈ characters, Segment.isPlain c = true) :
    ∃ next, advance (expanding environment directory home).step mode characters =
      .ok (Piece.chars characters, next) ∧ IsBare next := by
  induction characters generalizing mode with
  | nil => exact ⟨mode, rfl, hmode⟩
  | cons c rest ih =>
    have hc := hplain c List.mem_cons_self
    simp only [Segment.isPlain, Bool.and_eq_true, Bool.not_eq_true', List.contains_eq_mem,
      decide_eq_false_iff_not, List.mem_cons, List.not_mem_nil, or_false, not_or] at hc
    obtain ⟨hblank, hsingle, hdouble, hbackslash, hdollar, htilde⟩ := hc
    have hstep : (expanding environment directory home).step mode c = .ok ([.char c], .bare) := by
      rw [step_of_isBare _ hmode htilde]
      simp [bareStep, hblank, hsingle, hdouble, hbackslash, hdollar]
    obtain ⟨next, hrest, hnext⟩ := ih (.inr rfl) fun d hd ↦ hplain d (List.mem_cons_of_mem _ hd)
    exact ⟨next, advance_cons_of_ok hstep hrest, hnext⟩

section

variable (reading : Reading)

theorem advance_insideSingle {characters : List Char} (hquote : '\'' ∉ characters) :
    advance reading.step .single characters = .ok (Piece.chars characters, .single) := by
  induction characters with
  | nil => rfl
  | cons c rest ih =>
    obtain ⟨hc, hrest⟩ := List.ne_and_not_mem_of_not_mem_cons hquote
    have hstep : reading.step .single c = .ok ([.char c], .single) := by simp [step, hc.symm]
    exact advance_cons_of_ok hstep (ih hrest)

theorem step_quote (hmode : IsBare mode) :
    reading.step mode '\'' = .ok ([.opening], .single) ∧
      reading.step mode '"' = .ok ([.opening], .double) := by
  have hsingle : Text.isBlank '\'' = false := by decide
  have hdouble : Text.isBlank '"' = false := by decide
  rw [step_of_isBare reading hmode (by decide), step_of_isBare reading hmode (by decide)]
  simp [bareStep, hsingle, hdouble]

/-! ### Variables -/

/-- The characters of a name are gathered in reverse order. -/
theorem advance_name (quoted : Bool) {name : List Char}
    (hname : ∀ c ∈ name, Text.isNameChar c = true) (reversed : List Char) :
    advance reading.step (.name quoted true reversed) name =
      .ok ([], .name quoted true (name.reverse ++ reversed)) := by
  induction name generalizing reversed with
  | nil => rfl
  | cons c rest ih =>
    have hstep : reading.step (.name quoted true reversed) c =
        .ok ([], .name quoted true (c :: reversed)) := by
      simp [step, nameStep, hname c List.mem_cons_self]
    have hrest := ih (fun d hd ↦ hname d (List.mem_cons_of_mem _ hd)) (c :: reversed)
    rw [advance_cons_of_ok hstep hrest, List.reverse_cons, List.append_assoc]
    rfl

/-- A name between braces is expanded where it ends. -/
theorem advance_braced (quoted : Bool) {name : List Char}
    (hname : ∀ c ∈ name, Text.isNameChar c = true) {value : List Char}
    (hvalue : reading.valueOf name = .ok (some value)) :
    advance reading.step (.dollar quoted) ('{' :: name ++ ['}']) =
      .ok (if quoted then Piece.chars value else value.map fieldPiece,
        if quoted then .double else .bare) := by
  have hopening : reading.step (.dollar quoted) '{' = .ok ([], .name quoted true []) := rfl
  have hend : Text.isNameChar '}' = false := by decide
  have hclosing : reading.step (.name quoted true name.reverse) '}' =
      .ok (if quoted then Piece.chars value else value.map fieldPiece,
        if quoted then .double else .bare) := by
    simp [step, nameStep, nameEnd, hend, expansion, hvalue, quotedValue, fields, bind, Except.bind,
      pure, Except.pure]
  have hinside := advance_name reading quoted hname []
  rw [List.append_nil] at hinside
  exact advance_cons_of_ok hopening
    (advance_append_of_ok hinside (advance_singleton hclosing))

end

theorem valueOf_of_isBound (home : List Char) {name : List Char}
    (h : Segment.IsBound environment directory name) :
    (expanding environment directory home).valueOf name =
      .ok (some ((environment.lookup name).getD [])) := by
  obtain ⟨value, hvalue⟩ := Option.isSome_iff_exists.mp h.bound
  have hdirectory : (if name = ['P', 'W', 'D'] then
      (expanding environment directory home).surroundings.directory? else none) = none := by
    split
    · rename_i hname
      have hempty := h.notDirectory hname
      cases directory <;> simp_all [Surroundings.directory?, Option.filter]
    · rfl
  simp [valueOf, hdirectory, hvalue]

theorem step_dollar (home : List Char) (hmode : IsBare mode) :
    (expanding environment directory home).step mode '$' = .ok ([], .dollar false) ∧
      (expanding environment directory home).step .double '$' = .ok ([], .dollar true) := by
  have hblank : Text.isBlank '$' = false := by decide
  rw [step_of_isBare _ hmode (by decide)]
  simp [step, bareStep, doubleStep, expands, hblank]

/-! ### Segments -/

theorem fieldPiece_eq : Segment.fieldPiece = fieldPiece := by
  funext c
  simp [Segment.fieldPiece, fieldPiece]

/-- Wherever a segment stands outside of quotes, it yields what it stands for. -/
theorem advance_segment (home : List Char) (hmode : IsBare mode) {segment : Segment}
    (hsegment : segment.IsWritable environment directory) :
    ∃ next, advance (expanding environment directory home).step mode segment.written =
      .ok (segment.pieces environment, next) ∧ IsBare next := by
  cases segment with
  | plain characters => exact advance_plainCharacters home hmode hsegment
  | quotation characters =>
    have hopening := (step_quote (expanding environment directory home) hmode).1
    have hclosing : (expanding environment directory home).step .single '\'' =
        .ok ([.closing], .bare) := rfl
    have hinside := advance_append_of_ok (advance_insideSingle _ hsegment)
      (advance_singleton hclosing)
    have hall := advance_cons_of_ok hopening hinside
    exact ⟨.bare, hall, .inr rfl⟩
  | expansion name =>
    have hbraced := advance_braced _ false hsegment.isName (valueOf_of_isBound home hsegment)
    refine ⟨.bare, ?_, .inr rfl⟩
    rw [Segment.pieces, fieldPiece_eq]
    exact advance_cons_of_ok (step_dollar home hmode).1 hbraced
  | quotedExpansion name =>
    have hopening := (step_quote (expanding environment directory home) hmode).2
    have hbraced := advance_braced _ true hsegment.isName (valueOf_of_isBound home hsegment)
    have hclosing : (expanding environment directory home).step .double '"' =
        .ok ([.closing], .bare) := rfl
    have hwritten : (Segment.quotedExpansion name).written =
        '"' :: '$' :: (('{' :: name ++ ['}']) ++ ['"']) := by simp [Segment.written]
    have hinside := advance_cons_of_ok (step_dollar home hmode).2
      (advance_append_of_ok hbraced (advance_singleton hclosing))
    have hall := advance_cons_of_ok hopening hinside
    rw [hwritten]
    exact ⟨.bare, hall, .inr rfl⟩

theorem advance_segments (home : List Char) (hmode : IsBare mode) {segments : List Segment}
    (hsegments : ∀ segment ∈ segments, segment.IsWritable environment directory) :
    ∃ next, advance (expanding environment directory home).step mode
        (segments.flatMap Segment.written) =
      .ok (segments.flatMap (Segment.pieces environment), next) ∧ IsBare next := by
  induction segments generalizing mode with
  | nil => exact ⟨mode, rfl, hmode⟩
  | cons segment rest ih =>
    obtain ⟨next, hsegment, hnext⟩ :=
      advance_segment home hmode (hsegments segment List.mem_cons_self)
    obtain ⟨last, hrest, hlast⟩ :=
      ih hnext fun other hother ↦ hsegments other (List.mem_cons_of_mem _ hother)
    exact ⟨last, advance_append_of_ok hsegment hrest, hlast⟩

end Reading

/-- A line that is put together from segments has the words of what the segments stand for: the
groups between the gaps, as characters. -/
theorem split_segments {environment : Environment} {directory : Option (List Char)}
    (home : List Char) {segments : List Segment}
    (hsegments : ∀ segment ∈ segments, segment.IsWritable environment directory) :
    split false ⟨some environment, directory, home⟩ (segments.flatMap Segment.written) =
      .ok ((groups .gap (segments.flatMap (Segment.pieces environment))).map Piece.text) := by
  obtain ⟨last, hadvance, hlast⟩ :=
    Reading.advance_segments home (.inl rfl : Reading.IsBare .gap) hsegments
  have hfinish : (Reading.expanding environment directory home).finish last = .ok [] := by
    rcases hlast with rfl | rfl <;> rfl
  have hpieces : (Reading.expanding environment directory home).pieces .gap
      (segments.flatMap Segment.written) =
        .ok (segments.flatMap (Segment.pieces environment)) := by
    rw [Reading.pieces_eq, hadvance]
    simp [hfinish, bind, Except.bind, Except.map]
  change ((Reading.expanding environment directory home).pieces .gap _).map Piece.words = _
  rw [hpieces, Except.map, Piece.words_eq_groups]

/-- Quotes, a dollar sign and a tilde of a value are characters, its blanks separate fields outside
of double quotes only, empty quotes hold a word together, and an empty value leaves nothing. -/
theorem split_segments_of_active_values :
    let environment : Environment := .ofTable true
      [(['X'], " b'$X \t~".toList), (['E'], []), ("PWD".toList, "p q".toList)]
    let segments : List Segment :=
      [.plain "a#".toList, .expansion ['X'], .quotation [], .quotedExpansion ['X'],
        .expansion ['E'], .expansion "PWD".toList, .plain [], .expansion ['E']]
    (∀ segment ∈ segments, segment.IsWritable environment (some [])) ∧
      split false ⟨some environment, some [], "/home".toList⟩ (segments.flatMap Segment.written) =
        .ok ["a#".toList, "b'$X".toList, "~ b'$X \t~p".toList, ['q']] := by
  intro environment segments
  have hsegments : ∀ segment ∈ segments, segment.IsWritable environment (some []) := by
    have hbound (name : List Char) (hname : name ∈ [['X'], ['E'], "PWD".toList]) :
        Segment.IsBound environment (some []) name := by
      simp only [List.mem_cons, List.not_mem_nil, or_false] at hname
      rcases hname with rfl | rfl | rfl <;>
        exact ⟨List.all_eq_true.mp (by decide), by decide, by decide⟩
    intro segment hsegment
    simp only [segments, List.mem_cons, List.not_mem_nil, or_false] at hsegment
    rcases hsegment with rfl | rfl | rfl | rfl | rfl | rfl | rfl | rfl
    · exact List.all_eq_true.mp (by decide : "a#".toList.all Segment.isPlain = true)
    · exact hbound ['X'] (by decide)
    · exact List.not_mem_nil
    · exact hbound ['X'] (by decide)
    · exact hbound ['E'] (by decide)
    · exact hbound "PWD".toList (by decide)
    · exact fun c hc ↦ absurd hc List.not_mem_nil
    · exact hbound ['E'] (by decide)
  refine ⟨hsegments, ?_⟩
  rw [split_segments "/home".toList hsegments]
  rfl

end CommandLine.Unix
