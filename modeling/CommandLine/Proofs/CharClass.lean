import CommandLine.CharClass
import CommandLine.Text.Blank

/-!
Characters that are not quote-worthy, and words of them, which are written as they stand.
-/

set_option autoImplicit false

namespace CommandLine.Dialect

variable {dialect : Dialect} {c d : Char} {word : Word}

theorem needsQuotes_cons_eq_false {rest : Word} :
    dialect.needsQuotes (c :: rest) = false ↔
      dialect.isQuoteWorthy c = false ∧ dialect.needsQuotes rest = false :=
  Bool.or_eq_false_iff

theorem isQuoteWorthy_eq_false_of_mem (hword : dialect.needsQuotes word = false) (hc : c ∈ word) :
    dialect.isQuoteWorthy c = false := by
  simpa using List.any_eq_false.mp hword c hc

/-- The shell does not interpret a character that needs no quotes. -/
theorem isMeta_eq_false (hc : dialect.isQuoteWorthy c = false) : dialect.isMeta c = false := by
  cases h : dialect.isMeta c with
  | false => rfl
  | true => rw [← hc, dialect.isQuoteWorthy_of_isMeta c h]

theorem ne_of_isQuoteWorthy (hc : dialect.isQuoteWorthy c = false)
    (hd : dialect.isQuoteWorthy d = true) : c ≠ d := by
  rintro rfl
  rw [hc] at hd
  cases hd

theorem ne_of_isMeta (hc : dialect.isMeta c = false) (hd : dialect.isMeta d = true) : c ≠ d := by
  rintro rfl
  rw [hc] at hd
  cases hd

/-- Blanks mean nothing to the POSIX shell but that they separate words. -/
theorem unix_isMeta_eq_false_of_isBlank (h : Text.isBlank c = true) : unix.isMeta c = false := by
  have hall : unix.metaChars.all (!Text.isBlank ·) = true := by decide
  cases hc : unix.isMeta c with
  | false => rfl
  | true =>
    have hnot := List.all_eq_true.mp hall c (List.contains_iff_mem.mp hc)
    simp [h] at hnot

/-- A word that is written as it stands. -/
theorem ne_nil_of_not_quoted (h : ¬(word.isEmpty || dialect.needsQuotes word) = true) :
    word ≠ [] ∧ dialect.needsQuotes word = false := by
  simp only [Bool.or_eq_true, not_or, Bool.not_eq_true] at h
  refine ⟨?_, h.2⟩
  rintro rfl
  cases h.1

/-- A word that is written as it stands has no blank if those with blanks are quoted. -/
theorem any_isBlank_eq_false (h : word.any Text.isBlank = true → dialect.needsQuotes word = true)
    (hword : dialect.needsQuotes word = false) : word.any Text.isBlank = false := by
  cases hblank : word.any Text.isBlank with
  | false => rfl
  | true => rw [← hword, h hblank]

end CommandLine.Dialect
