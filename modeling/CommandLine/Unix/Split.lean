import CommandLine.CharClass
import CommandLine.Environment
import CommandLine.Piece
import CommandLine.Text.Alphanumeric
import CommandLine.Text.Blank

/-!
Splitting a line by the rules of the POSIX shell. A scanner reads the line character by character;
its mode says what stands open, and each character yields pieces and the next mode. A strict scan
refuses shell syntax that has no literal reading, a lenient one takes it literally.

Variables are expanded only when there is an environment. Outside of double quotes a value is split
at spaces, tabs and line feeds; no other character of a value means anything.
-/

set_option autoImplicit false

namespace CommandLine.Unix

/-- What stands open where the scanner is. -/
inductive Mode
  /-- Between words. -/
  | gap
  /-- Behind a tilde that begins a word. -/
  | tilde
  /-- In a word, outside of quotes. -/
  | bare
  /-- Behind a backslash outside of quotes. -/
  | escape
  /-- Inside single quotes. -/
  | single
  /-- Inside double quotes. -/
  | double
  /-- Behind a backslash inside double quotes. -/
  | doubleEscape
  /-- Behind a dollar sign that begins a variable. -/
  | dollar (quoted : Bool)
  /-- In the name of a variable, whose characters so far are in reverse order. -/
  | name (quoted braced : Bool) (reversed : List Char)
  deriving DecidableEq, Repr

/-- How a line is read. -/
structure Reading where
  strict : Bool
  surroundings : Surroundings

abbrev Step := Except Refusal (List Piece × Mode)

namespace Reading

variable (reading : Reading)

/-- Variables are expanded. -/
def expands : Bool := reading.surroundings.environment.isSome

/-- The value of a variable; a strict scan takes an unknown name for a shell builtin. -/
def valueOf (name : List Char) : Except Refusal (Option (List Char)) :=
  match if name = ['P', 'W', 'D'] then reading.surroundings.directory? else none with
  | some directory => .ok (some directory)
  | none =>
    match reading.surroundings.environment.bind (·.lookup name) with
    | some value => .ok (some value)
    | none => if reading.strict then .error .foundMeta else .ok none

/-- The value of a variable as it stands between double quotes. -/
def quotedValue (value : Option (List Char)) : List Piece := Piece.chars (value.getD [])

/-- A character of a value outside of quotes: blanks separate fields. -/
def fieldPiece (c : Char) : Piece := if c = ' ' ∨ c = '\t' ∨ c = '\n' then .gap else .char c

/-- The value of a variable as it stands outside of quotes. -/
def fields (value : Option (List Char)) : List Piece := (value.getD []).map fieldPiece

/-- The pieces that a variable expands to. -/
def expansion (quoted : Bool) (name : List Char) : Except Refusal (List Piece) := do
  let value ← reading.valueOf name
  return if quoted then quotedValue value else fields value

/-- The home directory, which is never split. -/
def homePieces : List Piece :=
  .opening :: Piece.chars reading.surroundings.home ++ [.closing]

/-- A character of a word outside of quotes. -/
def bareStep (c : Char) : Step :=
  if Text.isBlank c then .ok ([.gap], .gap)
  else if c = '\'' then .ok ([.opening], .single)
  else if c = '"' then .ok ([.opening], .double)
  else if c = '$' ∧ reading.expands then .ok ([], .dollar false)
  else if c = '\\' then .ok ([], .escape)
  else if reading.strict ∧ Dialect.unix.isMeta c then .error .foundMeta
  else .ok ([.char c], .bare)

/-- A character inside double quotes. -/
def doubleStep (c : Char) : Step :=
  if c = '"' then .ok ([.closing], .bare)
  else if c = '\\' then .ok ([], .doubleEscape)
  else if c = '$' ∧ reading.expands then .ok ([], .dollar true)
  else if reading.strict ∧ (c = '$' ∨ c = '`') then .error .foundMeta
  else .ok ([.char c], .double)

/-- A backslash inside double quotes is dropped before a double quote or a backslash, and by a
strict scan before a dollar sign or a backquote. -/
def dropsBackslash (c : Char) : Bool :=
  c == '"' || c == '\\' || (reading.strict && (c == '$' || c == '`'))

/-- Pieces in front of what a step yields. -/
def prepend (pieces : List Piece) (step : Step) : Step :=
  step.map fun result ↦ (pieces ++ result.1, result.2)

/-- The first character that does not belong to a name: a braced name must end with a brace,
any other character is read again behind the value. -/
def nameEnd (quoted braced : Bool) (name : List Char) (c : Char) : Step := do
  let pieces ← reading.expansion quoted name
  if braced then
    if c = '}' then return (pieces, if quoted then .double else .bare)
    else if reading.strict then .error .foundMeta
    else .error .badQuoting
  else prepend pieces (if quoted then reading.doubleStep c else reading.bareStep c)

/-- A character in or right behind the name of a variable. -/
def nameStep (quoted braced : Bool) (reversed : List Char) (c : Char) : Step :=
  if Text.isNameChar c then .ok ([], .name quoted braced (c :: reversed))
  else reading.nameEnd quoted braced reversed.reverse c

/-- What one character yields, and the mode behind it. -/
def step : Mode → Char → Step
  | .gap, c => if c = '~' then .ok ([], .tilde) else reading.bareStep c
  | .tilde, c =>
    if Text.isBlank c ∨ c = '/' then prepend reading.homePieces (reading.bareStep c)
    else if reading.strict then .error .foundMeta
    else prepend [.char '~'] (reading.bareStep c)
  | .bare, c => reading.bareStep c
  | .escape, c => .ok ([.char c], .bare)
  | .single, c => if c = '\'' then .ok ([.closing], .bare) else .ok ([.char c], .single)
  | .double, c => reading.doubleStep c
  | .doubleEscape, c =>
    .ok (if reading.dropsBackslash c then [.char c] else [.char '\\', .char c], .double)
  | .dollar quoted, c =>
    if c = '{' then .ok ([], .name quoted true []) else reading.nameStep quoted false [] c
  | .name quoted braced reversed, c => reading.nameStep quoted braced reversed c

/-- What the end of the line yields. -/
def finish : Mode → Except Refusal (List Piece)
  | .gap | .bare => .ok []
  | .tilde => .ok reading.homePieces
  | .name false false reversed => reading.expansion false reversed.reverse
  | .escape | .single | .double | .doubleEscape | .dollar _ | .name .. => .error .badQuoting

/-- The pieces of a line, read from a mode. -/
def pieces (mode : Mode) : List Char → Except Refusal (List Piece)
  | [] => reading.finish mode
  | c :: rest => do
    let (found, next) ← reading.step mode c
    return found ++ (← pieces next rest)

end Reading

/-- The words of a line. -/
def split (strict : Bool) (surroundings : Surroundings) (line : List Char) :
    Except Refusal (List Word) :=
  ((Reading.mk strict surroundings).pieces .gap line).map Piece.words

end CommandLine.Unix
