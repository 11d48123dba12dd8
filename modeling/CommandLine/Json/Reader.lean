import CommandLine.Json.Limits
import CommandLine.Json.Token

/-!
Reading JSON. A reader takes tokens one by one and keeps the arrays and objects that are open on a
stack. Of the values of a repeated key the last counts, at the place of the first. The reader stops
at whatever comes first from left to right: a token that does not belong to JSON where it stands, or
one that is beyond a limit.
-/

set_option autoImplicit false

namespace CommandLine.Json

/-- Why no value is read from a text. -/
inductive ReadError
  /-- The text is not JSON. -/
  | malformed
  | obstacle (obstacle : Obstacle)
  deriving DecidableEq, Repr

/-- An array or object that is open: its items so far in reverse order, or its members so far with
the key of the value to come. -/
inductive Frame
  | array (reversed : List Json)
  | object (members : Members) (key : String)

/-- What the reader waits for. -/
inductive Expected
  | value
  | valueOrClose
  | key (members : Members)
  | keyOrClose
  | colon (members : Members) (key : String)
  | commaOrClose (closed : Frame)
  | nothing (value : Json)

/-- A reader: what it waits for, and what is open further out. -/
structure Reader where
  expected : Expected
  stack : List Frame

namespace Reader

def start : Reader := ⟨.value, []⟩

/-- Takes a whole value. -/
def supply (value : Json) : List Frame → Reader
  | [] => ⟨.nothing value, []⟩
  | .array reversed :: stack => ⟨.commaOrClose (.array (value :: reversed)), stack⟩
  | .object members key :: stack =>
    ⟨.commaOrClose (.object (members.put key value) key), stack⟩

/-- Opens an array or object, if it is not too deep. -/
def enter (limits : Limits) (kind : Kind) (stack : List Frame) (inside : Reader) :
    Except ReadError Reader :=
  if stack.length < limits.readingDepth then .ok inside else .error (.obstacle (.tooDeep kind))

variable (limits : Limits)

/-- A token where a value is expected. -/
def readValue (stack : List Frame) : Token → Except ReadError Reader
  | .openArray => enter limits .array stack ⟨.valueOrClose, .array [] :: stack⟩
  | .openObject => enter limits .object stack ⟨.keyOrClose, stack⟩
  | .string text => .ok (supply (.string text) stack)
  | .scalar (.int value) =>
    if digitCount value ≤ limits.digits then .ok (supply (.int value) stack)
    else .error (.obstacle (.tooManyDigits (digitCount value) limits.digits))
  | .scalar value => .ok (supply value stack)
  | .unpaired => .error (.obstacle .unpaired)
  | _ => .error .malformed

/-- Takes one token. -/
def read (reader : Reader) (token : Token) : Except ReadError Reader :=
  match reader.expected, token with
  | .value, token => readValue limits reader.stack token
  | .valueOrClose, .closeArray => .ok (supply (.array .nil) reader.stack.tail)
  | .valueOrClose, token => readValue limits reader.stack token
  | .keyOrClose, .closeObject => .ok (supply (.object .nil) reader.stack)
  | .keyOrClose, .string key => .ok ⟨.colon .nil key, reader.stack⟩
  | .key members, .string key => .ok ⟨.colon members key, reader.stack⟩
  | .keyOrClose, .unpaired | .key _, .unpaired => .error (.obstacle .unpaired)
  | .colon members key, .colon => .ok ⟨.value, .object members key :: reader.stack⟩
  | .commaOrClose (.array reversed), .comma => .ok ⟨.value, .array reversed :: reader.stack⟩
  | .commaOrClose (.array reversed), .closeArray =>
    .ok (supply (.array (.ofList reversed.reverse)) reader.stack)
  | .commaOrClose (.object members _), .comma => .ok ⟨.key members, reader.stack⟩
  | .commaOrClose (.object members _), .closeObject =>
    .ok (supply (.object members) reader.stack)
  | _, _ => .error .malformed

/-- The value that was read. -/
def result (reader : Reader) : Except ReadError Json :=
  match reader.expected with
  | .nothing value => .ok value
  | _ => .error .malformed

end Reader

/-- The value that a text writes. -/
def read (limits : Limits) (text : List Char) : Except ReadError Json := do
  let reader ← (Token.lex text).foldlM (Reader.read limits) .start
  reader.result

end CommandLine.Json
