import CommandLine.CharClass

/-!
The command processor's reading of a line. It interprets nothing between double quotes, which it
keeps, and outside of them takes the character behind a circumflex as it stands. What it leaves is
what the program receives.
-/

set_option autoImplicit false

namespace CommandLine.Windows

/-- What the command processor makes of the next character. -/
inductive ShellMode
  | plain
  /-- Behind a circumflex. -/
  | escaped
  /-- Between double quotes. -/
  | quoted
  deriving DecidableEq, Repr

/-- The mode behind a character other than an unquoted circumflex. -/
def ShellMode.after : ShellMode → Char → ShellMode
  | .plain, c => if c = '"' then .quoted else .plain
  | .escaped, _ => .plain
  | .quoted, c => if c = '"' then .plain else .quoted

/-- The line as the program receives it. A quotation may stay open; an unquoted character that the
command processor interprets is refused. -/
def receivedFrom : ShellMode → List Char → Except Refusal (List Char)
  | _, [] => .ok []
  | .plain, c :: rest =>
    if c = '^' then receivedFrom .escaped rest
    else if c = '"' then (receivedFrom .quoted rest).map (c :: ·)
    else if Dialect.windows.isMeta c then .error .foundMeta
    else (receivedFrom .plain rest).map (c :: ·)
  | .escaped, c :: rest => (receivedFrom .plain rest).map (c :: ·)
  | .quoted, c :: rest =>
    (receivedFrom (if c = '"' then .plain else .quoted) rest).map (c :: ·)

/-- A leading at sign only tells the command processor not to echo the line. -/
def dropEcho : List Char → List Char
  | '@' :: rest => rest
  | line => line

/-- The line as the program receives it. -/
def received (line : List Char) : Except Refusal (List Char) := receivedFrom .plain (dropEcho line)

end CommandLine.Windows
