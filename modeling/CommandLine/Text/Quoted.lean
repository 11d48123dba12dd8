import CommandLine.Text.Hex
import CommandLine.Text.Printable

/-!
The quoted form in which a word is displayed. The word stands between single quotes, or between
double quotes when it holds a single quote and no double quote; the delimiter, the backslash and
every character that does not print are escaped, so the form shows each character of the word.
-/

set_option autoImplicit false

namespace CommandLine.Text

/-- The quotation mark that delimits the displayed form of a word. -/
def delimiter (word : List Char) : Char :=
  if word.contains '\'' && !word.contains '"' then '"' else '\''

/-- One character of a word displayed between `mark`s. -/
def quotedChar (mark c : Char) : List Char :=
  if c = mark ∨ c = '\\' then ['\\', c]
  else if c = '\t' then ['\\', 't']
  else if c = '\n' then ['\\', 'n']
  else if c = '\r' then ['\\', 'r']
  else if isPrintable c then [c]
  else if c.toNat < 0x100 then ['\\', 'x'] ++ hex 2 c.toNat
  else if c.toNat < 0x10000 then ['\\', 'u'] ++ hex 4 c.toNat
  else ['\\', 'U'] ++ hex 8 c.toNat

/-- The displayed form of a word. -/
def quoted (word : List Char) : List Char :=
  delimiter word :: word.flatMap (quotedChar (delimiter word)) ++ [delimiter word]

/-- The displayed form of a list of items, from the displayed forms of the items. -/
def bracketed (items : List (List Char)) : List Char :=
  '[' :: List.intercalate [',', ' '] items ++ [']']

end CommandLine.Text
