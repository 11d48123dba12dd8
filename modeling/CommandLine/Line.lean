import CommandLine.Unix.Quote
import CommandLine.Unix.Split
import CommandLine.Windows.Quote
import CommandLine.Windows.Split

/-!
Command lines of either dialect: taking a line apart into words, and building a line from words.
-/

set_option autoImplicit false

namespace CommandLine

/-- The words of a line. A strict split refuses what only a shell can interpret. -/
def Dialect.split (dialect : Dialect) (strict : Bool) (surroundings : Surroundings)
    (line : List Char) : Except Refusal (List Word) :=
  match dialect with
  | .unix => Unix.split strict surroundings line
  | .windows => Windows.split strict surroundings line

/-- A word as it is written on a line. -/
def Dialect.quote (dialect : Dialect) (word : Word) : List Char :=
  match dialect with
  | .unix => Unix.quote word
  | .windows => Windows.quote word

/-- A path in the form that the dialect's programs expect. -/
def Dialect.nativePath (dialect : Dialect) (path : List Char) : List Char :=
  match dialect with
  | .unix => path
  | .windows => Windows.nativeSeparators path

/-- Two parts of a line with a space between them, if there is something on both sides. -/
def spaced (line extra : List Char) : List Char :=
  if line.isEmpty then extra else line ++ ' ' :: extra

/-- Appends a word to a line. -/
def Dialect.addWord (dialect : Dialect) (line : List Char) (word : Word) : List Char :=
  spaced line (dialect.quote word)

/-- Appends a part that is written as it stands to a line. -/
def addFragment (line fragment : List Char) : List Char :=
  if fragment.isEmpty then line else spaced line fragment

/-- The line that consists of the given words. -/
def Dialect.join (dialect : Dialect) (words : List Word) : List Char :=
  words.foldl dialect.addWord []

@[simp] theorem Dialect.join_nil (dialect : Dialect) : dialect.join [] = [] := rfl

theorem Dialect.join_append_singleton (dialect : Dialect) (words : List Word) (word : Word) :
    dialect.join (words ++ [word]) = dialect.addWord (dialect.join words) word := by
  simp [Dialect.join]

end CommandLine
