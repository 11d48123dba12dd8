import CommandLine.Proofs.Line
import CommandLine.Proofs.Unix.Reading
import CommandLine.Proofs.Windows.Reading
import Mathlib.Data.List.Forall2

/-!
What is put behind a line. Where a line can end, a space yields what the end of the line yields and
leaves the reader between words; so what stands behind the space is read as a line of its own. This
holds of every reading by the rules of the POSIX shell, and of the C runtime's. It does not hold
where the command processor reads the line first, since the line may end inside of its quotes
although the C runtime is outside.
-/

set_option autoImplicit false

namespace CommandLine

open Transducer (exists_of_map_eq_ok)

variable {line : List Char} {words : List Word}

/-! ### The POSIX shell -/

namespace Unix

namespace Reading

variable (reading : Reading)

theorem bareStep_space : reading.bareStep ' ' = .ok ([.gap], .gap) := by
  have hblank : Text.isBlank ' ' = true := by decide
  simp [bareStep, hblank]

/-- Where a line can end, a space yields what the end yields, and separates words. -/
theorem step_space_of_finish {mode : Mode} {ending : List Piece}
    (h : reading.finish mode = .ok ending) :
    reading.step mode ' ' = .ok (ending ++ [.gap], .gap) := by
  cases mode with
  | gap | bare =>
    cases h
    exact reading.bareStep_space
  | tilde =>
    cases h
    have hblank : Text.isBlank ' ' = true := by decide
    simp [step, prepend, bareStep_space, hblank, Except.map]
  | name quoted braced reversed =>
    have hname : Text.isNameChar ' ' = false := by decide
    cases quoted with
    | true => cases h
    | false =>
      cases braced with
      | true => cases h
      | false =>
        have hexpansion : reading.expansion false reversed.reverse = .ok ending := h
        simp [step, nameStep, nameEnd, hname, hexpansion, prepend, bareStep_space, bind,
          Except.bind, Except.map]
  | escape | single | double | doubleEscape | dollar quoted => cases h

/-- Behind a line and a space a text is read as a line of its own. -/
theorem pieces_append_space {mode : Mode} {found : List Piece}
    (h : reading.pieces mode line = .ok found) (other : List Char) :
    reading.pieces mode (line ++ ' ' :: other) =
      (reading.pieces .gap other).map fun more ↦ found ++ .gap :: more := by
  rw [pieces_eq] at h
  cases hadvance : Transducer.advance reading.step mode line with
  | error refusal =>
    rw [hadvance] at h
    cases h
  | ok result =>
    obtain ⟨here, last⟩ := result
    rw [hadvance] at h
    obtain ⟨ending, hending, rfl⟩ := exists_of_map_eq_ok h
    rw [pieces_append reading hadvance,
      pieces_cons reading (reading.step_space_of_finish hending)]
    cases reading.pieces .gap other <;> simp [Except.map]

end Reading

variable {strict : Bool} {surroundings : Surroundings}

/-- The words behind a line and a space follow on those of the line. -/
theorem split_append_space (h : split strict surroundings line = .ok words) (other : List Char) :
    split strict surroundings (line ++ ' ' :: other) =
      (split strict surroundings other).map (words ++ ·) := by
  obtain ⟨found, hfound, rfl⟩ := exists_of_map_eq_ok h
  rw [split, split, Reading.pieces_append_space _ hfound]
  cases (Reading.mk strict surroundings).pieces .gap other <;>
    simp [Except.map, Piece.words_append_gap]

end Unix

/-! ### The C runtime -/

namespace Windows

/-- Where a line can end, a space yields what the end yields, and separates words. -/
theorem Runtime.step_space_of_finish {runtime : Runtime} {ending : List Piece}
    (h : runtime.finish = .ok ending) : runtime.step ' ' = (ending ++ [.gap], .start) := by
  unfold finish at h
  split at h
  · cases h
  · rename_i hquoting
    cases h
    have hseparator : isSeparator ' ' = true := by decide
    rw [step_character runtime (by decide) (by decide), Quoting.piece,
      if_pos ⟨hquoting, hseparator⟩]
    cases hquoted : runtime.quoting with
    | inside => exact absurd hquoted hquoting
    | outside | closed => rfl

/-- The arguments behind a line and a space follow on those of the line. -/
theorem arguments_append_space (h : arguments line = .ok words) (other : List Char) :
    arguments (line ++ ' ' :: other) = (arguments other).map (words ++ ·) := by
  rw [arguments_eq, Runtime.pieces] at h
  obtain ⟨found, hfound, rfl⟩ := exists_of_map_eq_ok h
  obtain ⟨ending, hending, rfl⟩ := exists_of_map_eq_ok hfound
  rw [arguments_eq, arguments_eq, Runtime.pieces_append, Runtime.pieces_cons,
    Runtime.step_space_of_finish hending]
  cases Runtime.start.pieces other with
  | error refusal => rfl
  | ok more =>
    have hgap : (Runtime.start.advance line).1 ++ (ending ++ [Piece.gap] ++ more) =
        ((Runtime.start.advance line).1 ++ ending) ++ .gap :: more := by
      simp
    simp only [Except.map, hgap, Piece.words_append_gap]

end Windows

/-! ### Lines that are built -/

/-- Something that is put behind a line: a word, which is quoted, or a part as it stands. -/
inductive Addition
  | word (word : Word)
  | fragment (text : List Char)
  deriving DecidableEq, Repr

namespace Addition

/-- Puts an addition behind a line. -/
def addTo (dialect : Dialect) (line : List Char) : Addition → List Char
  | .word added => dialect.addWord line added
  | .fragment text => addFragment line text

/-- The words that an addition stands for: one that survives its own quoting, or those that a part
splits into. -/
def Holds (dialect : Dialect) (strict : Bool) (surroundings : Surroundings) :
    Addition → List Word → Prop
  | .word added, words =>
    words = [added] ∧ dialect.split strict surroundings (dialect.quote added) = .ok [added]
  | .fragment text, words => dialect.split strict surroundings text = .ok words

end Addition

namespace Dialect

variable {dialect : Dialect} {strict : Bool} {surroundings : Surroundings}

/-- A line without characters has no words, however it is read. -/
theorem split_nil : dialect.split strict surroundings [] = .ok [] := by
  cases dialect with
  | unix => rfl
  | windows =>
    have hexpanded : Windows.expanded surroundings [] = [] := by
      unfold Windows.expanded
      split <;> rfl
    have hprepared : Windows.prepare surroundings [] = .ok [] := by
      simp [Windows.prepare, hexpanded, Windows.received, Windows.dropEcho, Windows.receivedFrom]
    have harguments : Windows.arguments [] = .ok [] := rfl
    cases strict with
    | true =>
      show (Windows.prepare surroundings [] >>= Windows.arguments) = .ok []
      rw [hprepared]
      exact harguments
    | false =>
      show Windows.arguments (Windows.expanded surroundings []) = .ok []
      rw [hexpanded, harguments]

section

variable (hreading : dialect = .windows → strict = false ∧ surroundings.environment = none)
include hreading

/-- What stands behind a line and a space is read as a line of its own, unless the command processor
or an environment of Windows takes part. -/
theorem split_append_space (hline : dialect.split strict surroundings line = .ok words)
    (other : List Char) :
    dialect.split strict surroundings (line ++ ' ' :: other) =
      (dialect.split strict surroundings other).map (words ++ ·) := by
  cases dialect with
  | unix => exact Unix.split_append_space hline other
  | windows =>
    obtain ⟨rfl, hnone⟩ := hreading rfl
    have harguments (text : List Char) :
        Dialect.windows.split false surroundings text = Windows.arguments text := by
      simp [split, Windows.split, Windows.expanded, hnone]
    rw [harguments] at hline
    rw [harguments, harguments]
    exact Windows.arguments_append_space hline other

theorem split_spaced (hline : dialect.split strict surroundings line = .ok words)
    (extra : List Char) :
    dialect.split strict surroundings (spaced line extra) =
      (dialect.split strict surroundings extra).map (words ++ ·) := by
  by_cases hempty : line.isEmpty = true
  · obtain rfl := List.isEmpty_iff.mp hempty
    rw [split_nil] at hline
    cases hline
    cases hextra : dialect.split strict surroundings extra <;> simp [spaced, hextra, Except.map]
  · rw [spaced, if_neg hempty]
    exact split_append_space hreading hline extra

/-- An addition puts its words behind those of the line. -/
theorem split_addTo (hline : dialect.split strict surroundings line = .ok words)
    {addition : Addition} {added : List Word}
    (h : addition.Holds dialect strict surroundings added) :
    dialect.split strict surroundings (addition.addTo dialect line) = .ok (words ++ added) := by
  cases addition with
  | word word =>
    obtain ⟨rfl, hword⟩ := h
    rw [Addition.addTo, addWord, split_spaced hreading hline, hword]
    rfl
  | fragment text =>
    have htext : dialect.split strict surroundings text = .ok added := h
    rw [Addition.addTo, addFragment]
    split
    · rename_i hempty
      obtain rfl := List.isEmpty_iff.mp hempty
      rw [split_nil] at htext
      cases htext
      rw [hline, List.append_nil]
    · rw [split_spaced hreading hline, htext]
      rfl

end

/-- Appending to a line is appending to its words. What stands behind a line that can be split, and
a space, is split as a line of its own, and refused as one; and whatever words and parts are put
behind the line, one after the other, its words are followed by theirs. On Windows the line is one
that a program receives, without variables. -/
theorem split_append_additions (hreading : dialect = .windows →
      strict = false ∧ surroundings.environment = none)
    (hline : dialect.split strict surroundings line = .ok words) :
    (∀ other, dialect.split strict surroundings (line ++ ' ' :: other) =
        (dialect.split strict surroundings other).map (words ++ ·)) ∧
      ∀ (additions : List Addition) (rows : List (List Word)),
        List.Forall₂ (Addition.Holds dialect strict surroundings) additions rows →
          dialect.split strict surroundings (additions.foldl (Addition.addTo dialect) line) =
            .ok (words ++ rows.flatten) := by
  refine ⟨split_append_space hreading hline, ?_⟩
  intro additions rows h
  induction h generalizing line words with
  | nil => rw [List.foldl_nil, hline, List.flatten_nil, List.append_nil]
  | cons hfirst _ ih =>
    rw [List.foldl_cons, ih (split_addTo hreading hline hfirst), List.flatten_cons,
      List.append_assoc]

/-- A variable at the end of the line is split into fields, and so is one in a part that is put
behind it. -/
theorem split_append_variables :
    Dialect.unix.split true
        ⟨some (.ofTable true [(['X'], " a b".toList)]), none, "/root".toList⟩
        ([.fragment "'c'$X".toList, .word "$X ".toList, .fragment []].foldl
          (Addition.addTo .unix) "~ -$X".toList) =
      .ok ["/root".toList, ['-'], ['a'], ['b'], ['c'], ['a'], ['b'], "$X ".toList] := by
  have hline : Dialect.unix.split true
      ⟨some (.ofTable true [(['X'], " a b".toList)]), none, "/root".toList⟩ "~ -$X".toList =
      .ok ["/root".toList, ['-'], ['a'], ['b']] := by
    decide +kernel
  have hadditions : List.Forall₂ (Addition.Holds .unix true
      ⟨some (.ofTable true [(['X'], " a b".toList)]), none, "/root".toList⟩)
      [.fragment "'c'$X".toList, .word "$X ".toList, .fragment []]
      [[['c'], ['a'], ['b']], ["$X ".toList], []] := by
    have hfragment : Dialect.unix.split true
        ⟨some (.ofTable true [(['X'], " a b".toList)]), none, "/root".toList⟩ "'c'$X".toList =
        .ok [['c'], ['a'], ['b']] := by
      decide +kernel
    have hword : Dialect.unix.split true
        ⟨some (.ofTable true [(['X'], " a b".toList)]), none, "/root".toList⟩
        (Dialect.unix.quote "$X ".toList) = .ok ["$X ".toList] := by
      decide +kernel
    exact .cons hfragment (.cons ⟨rfl, hword⟩ (.cons split_nil .nil))
  exact (split_append_additions (by decide) hline).2 _ _ hadditions

end Dialect

end CommandLine
