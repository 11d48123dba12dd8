import CommandLine.Proofs.CharClass
import CommandLine.Proofs.Transducer
import CommandLine.Proofs.Words
import CommandLine.Unix.Quote
import CommandLine.Unix.Split

/-!
Reading a part of a line by the rules of the POSIX shell. The pieces of a line are those of its
parts, each read in the mode that the part before it leaves. A quoted word reads as the word between
marks, whatever it holds.
-/

set_option autoImplicit false

namespace CommandLine.Unix.Reading

open Transducer

variable (reading : Reading)

/-- The pieces of a line are those on the way and those that its end yields. -/
theorem pieces_eq (mode : Mode) (line : List Char) :
    reading.pieces mode line =
      advance reading.step mode line >>= fun result ↦
        (reading.finish result.2).map (result.1 ++ ·) := by
  induction line generalizing mode with
  | nil =>
    cases h : reading.finish mode <;> simp [pieces, advance, h, bind, Except.bind, Except.map]
  | cons c rest ih =>
    simp only [pieces, advance, bind, Except.bind] at ih ⊢
    cases reading.step mode c with
    | error refusal => rfl
    | ok result =>
      obtain ⟨found, next⟩ := result
      simp only [ih next]
      cases advance reading.step next rest with
      | error refusal => rfl
      | ok result =>
        cases h : reading.finish result.2 <;> simp [h, Except.map, pure, Except.pure]

theorem pieces_append {mode next : Mode} {first : List Char} {found : List Piece}
    (h : advance reading.step mode first = .ok (found, next)) (second : List Char) :
    reading.pieces mode (first ++ second) = (reading.pieces next second).map (found ++ ·) := by
  rw [pieces_eq, advance_append h, pieces_eq]
  cases advance reading.step next second with
  | error refusal => rfl
  | ok result =>
    simp only [bind, Except.bind, Except.map]
    cases reading.finish result.2 <;> simp

theorem pieces_cons {mode next : Mode} {c : Char} {found : List Piece}
    (h : reading.step mode c = .ok (found, next)) (rest : List Char) :
    reading.pieces mode (c :: rest) = (reading.pieces next rest).map (found ++ ·) :=
  pieces_append reading (advance_singleton h) rest

/-- A line whose pieces are known begins with a character that can be read. -/
theorem exists_of_pieces_cons {mode : Mode} {c : Char} {rest : List Char} {all : List Piece}
    (h : reading.pieces mode (c :: rest) = .ok all) :
    ∃ found next more, reading.step mode c = .ok (found, next) ∧
      reading.pieces next rest = .ok more ∧ all = found ++ more := by
  cases hstep : reading.step mode c with
  | error refusal => simp [pieces, hstep, bind, Except.bind] at h
  | ok result =>
    obtain ⟨found, next⟩ := result
    rw [pieces_cons reading hstep] at h
    obtain ⟨more, hrest, rfl⟩ := exists_of_map_eq_ok h
    exact ⟨found, next, more, rfl, hrest, rfl⟩

/-! ### Quoted and plain words -/

/-- A quotation that is suspended for a single quote goes on behind it. -/
theorem advance_suspension : advance reading.step .single ['\'', '\\', '\'', '\''] =
    .ok ([.closing, .char '\'', .opening], .single) := by
  have hbackslash : Text.isBlank '\\' = false := by decide
  have hquote : Text.isBlank '\'' = false := by decide
  simp [advance, step, bareStep, hbackslash, hquote, bind, Except.bind, pure, Except.pure]

theorem advance_singleQuoted (word : Word) :
    ∃ found, advance reading.step .single (singleQuoted word) = .ok (found, .single) ∧
      .gap ∉ found ∧ Piece.text found = word := by
  induction word with
  | nil => exact ⟨[], rfl, by simp, rfl⟩
  | cons c rest ih =>
    obtain ⟨found, hfound, hgap, htext⟩ := ih
    by_cases hc : c = '\''
    · subst hc
      refine ⟨[.closing, .char '\'', .opening] ++ found, ?_, by simpa using hgap,
        by simp [Piece.text, htext]⟩
      rw [singleQuoted, if_pos rfl]
      exact advance_append_of_ok reading.advance_suspension hfound
    · have hstep : reading.step .single c = .ok ([.char c], .single) := by simp [step, hc]
      refine ⟨.char c :: found, ?_, by simpa using hgap, by simp [Piece.text, htext]⟩
      rw [singleQuoted, if_neg hc]
      exact advance_cons_of_ok hstep hfound

/-- The modes in which a word may begin or go on outside of quotes. -/
def IsBare (mode : Mode) : Prop := mode = .gap ∨ mode = .bare

theorem step_of_isBare {mode : Mode} (hmode : IsBare mode) {c : Char} (hc : c ≠ '~') :
    reading.step mode c = reading.bareStep c := by
  rcases hmode with rfl | rfl <;> simp [step, hc]

/-- A quoted word is one word, whatever it holds. -/
theorem advance_quotation {mode : Mode} (hmode : IsBare mode) (word : Word) :
    ∃ found, advance reading.step mode ('\'' :: singleQuoted word ++ ['\'']) = .ok (found, .bare) ∧
      .gap ∉ found ∧ found ≠ [] ∧ Piece.text found = word := by
  obtain ⟨inside, hinside, hgap, htext⟩ := advance_singleQuoted reading word
  have hquote : Text.isBlank '\'' = false := by decide
  have hopening : reading.step mode '\'' = .ok ([.opening], .single) := by
    rw [step_of_isBare reading hmode (by decide)]
    simp [bareStep, hquote]
  have hclosing : reading.step .single '\'' = .ok ([.closing], .bare) := by simp [step]
  refine ⟨.opening :: (inside ++ [.closing]), ?_, by simpa using hgap, by simp,
    by simp [Piece.text, htext]⟩
  exact advance_cons_of_ok hopening (advance_append_of_ok hinside (advance_singleton hclosing))

/-- A character of a word that is written without quotes. -/
def plainPiece (c : Char) : Piece := if Text.isBlank c then .gap else .char c

theorem step_of_not_isQuoteWorthy {mode : Mode} (hmode : IsBare mode) {c : Char}
    (hc : Dialect.unix.isQuoteWorthy c = false) :
    ∃ next, reading.step mode c = .ok ([plainPiece c], next) ∧ IsBare next ∧
      (Text.isBlank c = false → next = .bare) := by
  have hmeta : Dialect.unix.isMeta c = false := Dialect.isMeta_eq_false hc
  have htilde : c ≠ '~' := Dialect.ne_of_isQuoteWorthy hc (by decide)
  have hsingle : c ≠ '\'' := Dialect.ne_of_isQuoteWorthy hc (by decide)
  have hdouble : c ≠ '"' := Dialect.ne_of_isQuoteWorthy hc (by decide)
  have hdollar : c ≠ '$' := Dialect.ne_of_isQuoteWorthy hc (by decide)
  have hbackslash : c ≠ '\\' := Dialect.ne_of_isQuoteWorthy hc (by decide)
  rw [step_of_isBare reading hmode htilde]
  by_cases hblank : Text.isBlank c = true
  · exact ⟨.gap, by simp [bareStep, plainPiece, hblank], .inl rfl, by simp [hblank]⟩
  · refine ⟨.bare, ?_, .inr rfl, fun _ ↦ rfl⟩
    simp [bareStep, plainPiece, hblank, hsingle, hdouble, hdollar, hbackslash, hmeta]

/-- A word without quote-worthy characters is cut at its blanks. -/
theorem advance_plain {mode : Mode} (hmode : IsBare mode) {word : Word}
    (hword : Dialect.unix.needsQuotes word = false) :
    ∃ next, advance reading.step mode word = .ok (word.map plainPiece, next) ∧ IsBare next ∧
      (word ≠ [] → word.any Text.isBlank = false → next = .bare) := by
  induction word generalizing mode with
  | nil => exact ⟨mode, rfl, hmode, fun h ↦ absurd rfl h⟩
  | cons c rest ih =>
    obtain ⟨hc, hplain⟩ := Dialect.needsQuotes_cons_eq_false.mp hword
    obtain ⟨next, hstep, hnext, hbare⟩ := step_of_not_isQuoteWorthy reading hmode hc
    obtain ⟨last, hrest, hlast, hend⟩ := ih hnext hplain
    refine ⟨last, advance_cons_of_ok hstep hrest, hlast, fun _ hblank ↦ ?_⟩
    simp only [List.any_cons, Bool.or_eq_false_iff] at hblank
    by_cases hnil : rest = []
    · subst hnil
      cases hrest
      exact hbare hblank.1
    · exact hend hnil hblank.2

theorem map_plainPiece {word : Word} (hword : word.any Text.isBlank = false) :
    word.map plainPiece = Piece.chars word := by
  refine List.map_congr_left fun c hc ↦ ?_
  have hblank : Text.isBlank c = false := by simpa using List.any_eq_false.mp hword c hc
  simp [plainPiece, hblank]

/-- A word that is written so that it has no blank outside of quotes is one word. -/
theorem advance_quote {mode : Mode} (hmode : IsBare mode) {word : Word}
    (hword : word.any Text.isBlank = true → Dialect.unix.needsQuotes word = true) :
    ∃ found, advance reading.step mode (quote word) = .ok (found, .bare) ∧
      .gap ∉ found ∧ found ≠ [] ∧ Piece.text found = word := by
  unfold quote
  split
  · exact advance_quotation reading hmode word
  · rename_i hquoted
    obtain ⟨hne, hplain⟩ := Dialect.ne_nil_of_not_quoted hquoted
    have hblank : word.any Text.isBlank = false := Dialect.any_isBlank_eq_false hword hplain
    obtain ⟨next, hadvance, -, hnext⟩ := advance_plain reading hmode hplain
    rw [hnext hne hblank, map_plainPiece hblank] at hadvance
    exact ⟨Piece.chars word, hadvance, by simp, by simpa [Piece.chars] using hne, by simp⟩

end CommandLine.Unix.Reading
