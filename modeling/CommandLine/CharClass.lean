import CommandLine.Dialect

/-!
The characters that matter to each dialect: those that call for a shell when they stand unquoted,
and those that make a word need quotes.
-/

set_option autoImplicit false

namespace CommandLine

/-- The characters that a dialect's shell interprets. -/
def Dialect.metaChars : Dialect → List Char
  | .unix =>
    ['\\', '\'', '"', '$', '`', '<', '>', '|', ';', '&', '(', ')', '\x7b', '\x7d', '*', '?', '#',
      '[', ']']
  | .windows => ['&', '(', ')', '<', '>', '|']

/-- The visible characters that make a word need quotes. -/
def Dialect.quotedChars : Dialect → List Char
  | .unix =>
    ['\\', '\'', '"', '$', '`', '<', '>', '|', ';', '&', '(', ')', '\x7b', '\x7d', '*', '?', '#',
      '!', '~', '[', ']']
  | .windows => ['"', '&', '(', ')', '<', '>', '^', '|', ',', ';', '=']

/-- A character that the shell interprets when it stands unquoted. -/
def Dialect.isMeta (dialect : Dialect) (c : Char) : Bool := dialect.metaChars.contains c

/-- A character that must not stand in a word without quotes: a control character up to the space,
or one of the dialect's own. -/
def Dialect.isQuoteWorthy (dialect : Dialect) (c : Char) : Bool :=
  c.toNat ≤ 0x20 || dialect.quotedChars.contains c

/-- A word that has to be quoted: some character of it is quote-worthy. -/
def Dialect.needsQuotes (dialect : Dialect) (word : Word) : Bool :=
  word.any dialect.isQuoteWorthy

theorem Dialect.isQuoteWorthy_of_isMeta (dialect : Dialect) (c : Char)
    (h : dialect.isMeta c = true) : dialect.isQuoteWorthy c = true := by
  have hall : dialect.metaChars.all dialect.quotedChars.contains = true := by
    cases dialect <;> decide
  have hquoted : dialect.quotedChars.contains c = true :=
    List.all_eq_true.mp hall c (List.contains_iff_mem.mp h)
  simp only [Dialect.isQuoteWorthy, hquoted, Bool.or_true]

end CommandLine
