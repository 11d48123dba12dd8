import CommandLine.CharClass

/-!
Quoting for the POSIX shell. A word that needs quotes stands between single quotes; a single quote
inside it suspends the quotation and is escaped there.
-/

set_option autoImplicit false

namespace CommandLine.Unix

/-- The inside of a single-quoted word. -/
def singleQuoted : List Char → List Char
  | [] => []
  | c :: rest => (if c = '\'' then ['\'', '\\', '\'', '\''] else [c]) ++ singleQuoted rest

/-- A word as it is written on a line. -/
def quote (word : Word) : List Char :=
  if word.isEmpty || Dialect.unix.needsQuotes word then '\'' :: singleQuoted word ++ ['\'']
  else word

@[simp] theorem singleQuoted_append (first second : List Char) :
    singleQuoted (first ++ second) = singleQuoted first ++ singleQuoted second := by
  induction first with
  | nil => rfl
  | cons c rest ih => simp [singleQuoted, ih]

theorem quote_ne_nil (word : Word) : quote word ≠ [] := by
  unfold quote
  split
  · simp
  · rename_i h
    intro hnil
    simp [hnil] at h

end CommandLine.Unix
