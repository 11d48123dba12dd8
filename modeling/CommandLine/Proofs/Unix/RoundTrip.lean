import CommandLine.Proofs.Line
import CommandLine.Proofs.Unix.Reading
import Mathlib.Algebra.Order.BigOperators.Group.List
import Mathlib.Algebra.Order.Group.Nat

/-!
What a joined line of the POSIX dialect splits into. Every quoted word comes back whole, whatever it
holds and however the line is read. A word that is written as it stands is cut at its blanks, which
the quoter does not know beyond the space; so a list of words comes back exactly when each of its
words with a blank has something else in it that calls for quotes.
-/

set_option autoImplicit false

namespace CommandLine.Unix

open Transducer (advance)
open Reading (IsBare plainPiece)

/-- What a word on a joined line comes back as. -/
def returned (word : Word) : List Word :=
  if word.isEmpty || Dialect.unix.needsQuotes word then [word]
  else Piece.words (word.map plainPiece)

/-- A word loses the blanks that are not quoted, and nothing else. -/
theorem flatten_returned (word : Word) :
    (returned word).flatten =
      if Dialect.unix.needsQuotes word then word else word.filter (!Text.isBlank ·) := by
  have hplain : Piece.text (word.map plainPiece) = word.filter (!Text.isBlank ·) := by
    induction word with
    | nil => rfl
    | cons c rest ih =>
      cases hc : Text.isBlank c <;> simp [plainPiece, hc, Piece.text, ih]
  unfold returned
  cases word with
  | nil => rfl
  | cons c rest =>
    cases hquotes : Dialect.unix.needsQuotes (c :: rest) with
    | true => simp
    | false => simpa [Piece.flatten_words] using hplain

/-- A word comes back as itself when its blanks are quoted. -/
theorem returned_eq_singleton {word : Word}
    (hword : word.any Text.isBlank = true → Dialect.unix.needsQuotes word = true) :
    returned word = [word] := by
  unfold returned
  split
  · rfl
  · rename_i hquoted
    obtain ⟨hne, hplain⟩ := Dialect.ne_nil_of_not_quoted hquoted
    have hblank : word.any Text.isBlank = false := Dialect.any_isBlank_eq_false hword hplain
    rw [Reading.map_plainPiece hblank, Piece.words_of_gap_notMem (by simp)
      (by simpa [Piece.chars] using hne), Piece.text_chars]

variable (reading : Reading)

/-- A written word between words leaves the reader between words or in a word, and yields what it
comes back as. -/
theorem advance_written (word : Word) :
    ∃ found next, advance reading.step .gap (quote word) = .ok (found, next) ∧ IsBare next ∧
      Piece.words found = returned word := by
  by_cases hquoted : (word.isEmpty || Dialect.unix.needsQuotes word) = true
  · obtain ⟨found, hfound, hgap, hne, htext⟩ :=
      Reading.advance_quotation reading (.inl rfl : IsBare .gap) word
    refine ⟨found, .bare, by rwa [quote, if_pos hquoted], .inr rfl, ?_⟩
    rw [Piece.words_of_gap_notMem hgap hne, htext, returned, if_pos hquoted]
  · obtain ⟨-, hplain⟩ := Dialect.ne_nil_of_not_quoted hquoted
    obtain ⟨next, hadvance, hnext, -⟩ :=
      Reading.advance_plain reading (.inl rfl : IsBare .gap) hplain
    exact ⟨word.map plainPiece, next, by rwa [quote, if_neg hquoted], hnext,
      by rw [returned, if_neg hquoted]⟩

/-- The words behind the first one, each behind a space. -/
theorem pieces_written (words : List Word) {mode : Mode} (hmode : IsBare mode) :
    ∃ rows : List (List Piece),
      reading.pieces mode (words.flatMap (' ' :: quote ·)) = .ok (rows.flatMap (.gap :: ·)) ∧
        rows.flatMap Piece.words = words.flatMap returned := by
  induction words generalizing mode with
  | nil => exact ⟨[], by rcases hmode with rfl | rfl <;> rfl, rfl⟩
  | cons word rest ih =>
    obtain ⟨found, next, hword, hnext, hfound⟩ := advance_written reading word
    obtain ⟨rows, hrows, hwords⟩ := ih hnext
    have hspace : reading.step mode ' ' = .ok ([.gap], .gap) := by
      have hblank : Text.isBlank ' ' = true := by decide
      rw [Reading.step_of_isBare reading hmode (by decide)]
      simp [Reading.bareStep, hblank]
    refine ⟨found :: rows, ?_, by simp [hfound, hwords]⟩
    rw [List.flatMap_cons, List.cons_append, Reading.pieces_cons reading hspace,
      Reading.pieces_append reading hword, hrows]
    simp [Except.map]

/-- A joined line is never refused, and its words come back one by one. -/
theorem split_join (strict : Bool) (surroundings : Surroundings) (words : List Word) :
    split strict surroundings (Dialect.unix.join words) = .ok (words.flatMap returned) := by
  cases words with
  | nil => rfl
  | cons word rest =>
    let reading : Reading := ⟨strict, surroundings⟩
    obtain ⟨found, next, hword, hnext, hfound⟩ := advance_written reading word
    obtain ⟨rows, hrows, hwords⟩ := pieces_written reading rest hnext
    have hpieces : reading.pieces .gap (Dialect.unix.join (word :: rest)) =
        .ok (found ++ rows.flatMap (.gap :: ·)) := by
      rw [Dialect.join_cons]
      change reading.pieces .gap (quote word ++ rest.flatMap (' ' :: quote ·)) = _
      rw [Reading.pieces_append reading hword, hrows]
      rfl
    rw [split, hpieces, Except.map, Piece.words_append_flatMap_gap, hfound, hwords,
      List.flatMap_cons]

/-- Words that come back as they are have all their blanks quoted: a blank that is not is missing
from the characters that come back. -/
theorem needsQuotes_of_flatMap_returned {words : List Word} (h : words.flatMap returned = words)
    {word : Word} (hword : word ∈ words) (hblank : word.any Text.isBlank = true) :
    Dialect.unix.needsQuotes word = true := by
  have hle (other : Word) : (returned other).flatten.length ≤ other.length := by
    rw [flatten_returned]
    split
    · exact Nat.le_refl _
    · exact List.length_filter_le _ _
  by_contra hquotes
  have hlt : (returned word).flatten.length < word.length := by
    obtain ⟨c, hc, hcblank⟩ := List.any_eq_true.mp hblank
    rw [flatten_returned, if_neg hquotes]
    exact List.length_filter_lt_length_iff_exists.mpr ⟨c, hc, by simp [hcblank]⟩
  have hsum (all : List Word) :
      (all.flatMap returned).flatten.length =
        (all.map fun other ↦ (returned other).flatten.length).sum := by
    induction all with
    | nil => rfl
    | cons other rest ih => simp [List.flatten_append, ih]
  have hlength : (words.map List.length).sum =
      (words.map fun other ↦ (returned other).flatten.length).sum := by
    rw [← hsum, h, List.length_flatten]
  have hless : (words.map fun other ↦ (returned other).flatten.length).sum <
      (words.map List.length).sum :=
    List.sum_lt_sum _ _ (fun other _ ↦ hle other) ⟨word, hword, hlt⟩
  omega

/-- Splitting a joined line gives what each word comes back as, whether the line is read strictly
or not and whatever there is to expand. That is the list of words itself exactly when every word
with a blank also has a quote-worthy character. -/
theorem split_join_eq_self_iff (strict : Bool) (surroundings : Surroundings) (words : List Word) :
    Dialect.unix.split strict surroundings (Dialect.unix.join words) =
        .ok (words.flatMap returned) ∧
      (Dialect.unix.split strict surroundings (Dialect.unix.join words) = .ok words ↔
        ∀ word ∈ words, word.any Text.isBlank = true →
          word.any Dialect.unix.isQuoteWorthy = true) := by
  have hsplit : Dialect.unix.split strict surroundings (Dialect.unix.join words) =
      .ok (words.flatMap returned) := split_join strict surroundings words
  refine ⟨hsplit, ?_⟩
  rw [hsplit, Except.ok.injEq]
  constructor
  · intro h word hword hblank
    exact needsQuotes_of_flatMap_returned h hword hblank
  · intro h
    have hsingle : words.flatMap returned = words.flatMap fun word ↦ [word] :=
      List.flatMap_congr fun word hword ↦ returned_eq_singleton (h word hword)
    rw [hsingle, List.flatMap_singleton']

end CommandLine.Unix
