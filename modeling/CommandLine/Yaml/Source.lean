/-!
The characters of a YAML text, and spots in it. A spot is told by what lies ahead of it, with its
distance from the start of the text and of its line.
-/

set_option autoImplicit false

namespace CommandLine.Yaml

/-- A character that a text may hold. -/
def isAllowed (c : Char) : Bool :=
  c == '\t' || c == '\n' || c == '\x85' || (' ' ≤ c && c ≤ '~') ||
    ('\xA0' ≤ c && c ≤ '\uD7FF') || ('\uE000' ≤ c && c ≤ '\uFFFD') || 0x10000 ≤ c.toNat

/-- A character that ends a line. -/
def isBreak (c : Char) : Bool := c == '\n' || c == '\x85' || c == '\u2028' || c == '\u2029'

/-- A character that ends a line, as it counts in a scalar. -/
def breakChar (c : Char) : Char := if c = '\x85' then '\n' else c

def isBlank (c : Char) : Bool := c == ' ' || c == '\t'

def isGap (c : Char) : Bool := isBlank c || isBreak c

/-- At the end of a text, or at a character of a class. -/
def isAt (accepts : Char → Bool) : List Char → Bool
  | [] => true
  | c :: _ => accepts c

/-- A sign that opens or closes a document stands ahead, at the start of a line. -/
def isMarker : List Char → Bool
  | '-' :: '-' :: '-' :: rest => isAt isGap rest
  | '.' :: '.' :: '.' :: rest => isAt isGap rest
  | _ => false

/-- The mark that may stand at the start of a text. -/
def byteOrderMark : Char := '\uFEFF'

structure Spot where
  ahead : List Char
  index : Nat
  line : Nat
  column : Nat

namespace Spot

def start (text : List Char) : Spot := ⟨text, 0, 0, 0⟩

/-- The spot behind the next character. -/
def advance (spot : Spot) : Spot :=
  match spot.ahead with
  | [] => spot
  | c :: rest =>
    if isBreak c then ⟨rest, spot.index + 1, spot.line + 1, 0⟩
    else if c = byteOrderMark then ⟨rest, spot.index + 1, spot.line, spot.column⟩
    else ⟨rest, spot.index + 1, spot.line, spot.column + 1⟩

/-- The spot behind the next `count` characters. -/
def skip (spot : Spot) : Nat → Spot
  | 0 => spot
  | count + 1 => spot.advance.skip count

/-- The spot at which `rest` is ahead, a final part of what is ahead here. -/
def goTo (spot : Spot) (rest : List Char) : Spot := spot.skip (spot.ahead.length - rest.length)

end Spot

/-- The breaks of a scalar that is folded: the first one counts as a blank, unless others follow; one
that does not count as a line feed stays. -/
def folded (first : Char) (more : List Char) : List Char :=
  if breakChar first ≠ '\n' then first :: more else if more.isEmpty then [' '] else more

end CommandLine.Yaml
