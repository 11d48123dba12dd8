import CommandLine.Line

/-!
The line that consists of given words, written out: the quoted words with single spaces between
them.
-/

set_option autoImplicit false

namespace CommandLine.Dialect

theorem quote_ne_nil (dialect : Dialect) (word : Word) : dialect.quote word ≠ [] := by
  cases dialect with
  | unix => exact Unix.quote_ne_nil word
  | windows => exact Windows.quote_ne_nil word

theorem addWord_of_ne_nil (dialect : Dialect) {line : List Char} (hline : line ≠ []) (word : Word) :
    dialect.addWord line word = line ++ ' ' :: dialect.quote word := by
  have hempty : line.isEmpty = false := by
    cases line with
    | nil => exact absurd rfl hline
    | cons c rest => rfl
  simp [addWord, spaced, hempty]

theorem foldl_addWord (dialect : Dialect) {line : List Char} (hline : line ≠ [])
    (words : List Word) :
    words.foldl dialect.addWord line = line ++ words.flatMap (' ' :: dialect.quote ·) := by
  induction words generalizing line with
  | nil => simp
  | cons word rest ih =>
    have hnext : line ++ ' ' :: dialect.quote word ≠ [] := by simp
    rw [List.foldl_cons, addWord_of_ne_nil dialect hline, ih hnext]
    simp

/-- The first word stands as it is written, every other one behind a space. -/
theorem join_cons (dialect : Dialect) (word : Word) (words : List Word) :
    dialect.join (word :: words) =
      dialect.quote word ++ words.flatMap (' ' :: dialect.quote ·) := by
  have hfirst : dialect.addWord [] word = dialect.quote word := rfl
  rw [join, List.foldl_cons, hfirst, foldl_addWord dialect (quote_ne_nil dialect word)]

end CommandLine.Dialect
