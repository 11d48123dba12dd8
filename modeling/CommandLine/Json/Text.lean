import CommandLine.Json.Basic
import CommandLine.Text.Hex

/-!
Writing JSON, in one line with every character as it is, or indented and in ASCII alone.
-/

set_option autoImplicit false

namespace CommandLine.Json

/-- Numbers that are not finite are written as words. -/
def numberLayout : Decimal.Layout :=
  { Decimal.plainLayout with infinity := "Infinity", nan := "NaN" }

/-- The escape of a code unit. -/
def unitEscape (unit : Nat) : List Char := ['\\', 'u'] ++ Text.hex 4 unit

/-- The escape of a character beyond the first plane is that of its surrogate pair. -/
def codeEscape (c : Char) : List Char :=
  if c.toNat < 0x10000 then unitEscape c.toNat
  else
    let offset := c.toNat - 0x10000
    unitEscape (0xD800 + offset / 0x400) ++ unitEscape (0xDC00 + offset % 0x400)

/-- A character of a string. -/
def stringChar (ascii : Bool) (c : Char) : List Char :=
  match c with
  | '"' => ['\\', '"']
  | '\\' => ['\\', '\\']
  | '\n' => ['\\', 'n']
  | '\r' => ['\\', 'r']
  | '\t' => ['\\', 't']
  | '\x08' => ['\\', 'b']
  | '\x0c' => ['\\', 'f']
  | c => if c.toNat < 0x20 ∨ ascii ∧ 0x7E < c.toNat then codeEscape c else [c]

def stringText (ascii : Bool) (text : String) : List Char :=
  '"' :: text.toList.flatMap (stringChar ascii) ++ ['"']

/-- How a value is laid out: in one line, or with each item on a line of its own, indented by two
blanks more than what holds it, and in ASCII alone. -/
inductive Style
  | compact
  | indented (depth : Nat)

namespace Style

def ascii : Style → Bool
  | compact => false
  | indented _ => true

def deeper : Style → Style
  | compact => compact
  | indented depth => indented (depth + 1)

/-- What stands between brackets and items. -/
def lineBreak : Style → List Char
  | compact => []
  | indented depth => '\n' :: List.replicate (2 * depth) ' '

def colon : Style → List Char
  | compact => [':']
  | indented _ => [':', ' ']

end Style

mutual

/-- A value in a style. -/
def write (style : Style) : Json → List Char
  | null => "null".toList
  | bool value => (if value then "true" else "false").toList
  | int value => (toString value).toList
  | float value => (Decimal.text numberLayout value).toList
  | string text => stringText style.ascii text
  | array .nil => ['[', ']']
  | array (.cons head tail) =>
    '[' :: style.deeper.lineBreak ++ head.write style.deeper ++ tail.writeRest style.deeper ++
      style.lineBreak ++ [']']
  | object .nil => ['{', '}']
  | object (.cons key value rest) =>
    '{' :: style.deeper.lineBreak ++ stringText style.ascii key ++ style.colon ++
      value.write style.deeper ++ rest.writeRest style.deeper ++ style.lineBreak ++ ['}']

/-- Items behind others. -/
def Items.writeRest (style : Style) : Items → List Char
  | .nil => []
  | .cons head tail => ',' :: style.lineBreak ++ head.write style ++ tail.writeRest style

/-- Members behind others. -/
def Members.writeRest (style : Style) : Members → List Char
  | .nil => []
  | .cons key value rest =>
    ',' :: style.lineBreak ++ stringText style.ascii key ++ style.colon ++ value.write style ++
      rest.writeRest style

end

/-- A value in one line. -/
def compact (value : Json) : List Char := value.write .compact

/-- A value as it is written to a file. -/
def indented (value : Json) : List Char := value.write (.indented 0)

end CommandLine.Json
