import CommandLine.Unix.Quote

/-!
What a POSIX shell has open at a place in a line. Constructs nest, and a double quotation further
out stays in force inside of most of them, where it takes quotes their meaning; a command
substitution starts afresh.
-/

set_option autoImplicit false

namespace CommandLine

/-- A construct of the shell's language that can stand open. -/
inductive Construct
  | basic
  | singleQuote
  | doubleQuote
  | parenthesis
  | commandSubstitution
  | variableSubstitution
  | brace
  | arithmetic
  deriving DecidableEq, Repr

/-- The innermost open construct, and whether a double quotation is in force. -/
structure Context where
  construct : Construct
  quoted : Bool
  deriving DecidableEq, Repr

namespace Context

/-- Nothing is open. -/
def basic : Context := ⟨.basic, false⟩

/-- The context inside a construct that keeps a double quotation in force. -/
def enter (context : Context) (construct : Construct) : Context := ⟨construct, context.quoted⟩

/-- The context inside a double quotation. -/
def doubleQuotation : Context := ⟨.doubleQuote, true⟩

/-- The context inside a command substitution, in which nothing further out counts. -/
def substitution : Context := ⟨.commandSubstitution, false⟩

/-- The context inside parentheses that open a command substitution. -/
def subshell : Context := ⟨.parenthesis, false⟩

end Context

/-- How a value has to be written so that it stays literal. -/
inductive Protection
  /-- Inside a double quotation. -/
  | doubleQuoted
  /-- Inside a single quotation. -/
  | singleQuoted
  /-- Outside of quotes. -/
  | bare
  deriving DecidableEq, Repr

namespace Protection

/-- The characters that a double quotation does not make literal. -/
def isActive (c : Char) : Bool := c == '$' || c == '`' || c == '"' || c == '\\'

/-- A value as it is written. -/
def apply : Protection → List Char → List Char
  | .doubleQuoted, value => value.flatMap fun c ↦ if isActive c then ['\\', c] else [c]
  | .singleQuoted, value => Unix.singleQuoted value
  | .bare, value => Unix.quote value

/-- The protection that a value needs in a context. -/
def inContext (context : Context) : Protection :=
  if context.quoted then .doubleQuoted
  else if context.construct = .singleQuote then .singleQuoted
  else .bare

end Protection

end CommandLine
