import CommandLine.Json.Basic
import CommandLine.Text.Hex

/-!
The tokens of a JSON text. A lexer reads it character by character; a run of letters, digits and
signs is one number or word, and must be one that JSON knows. What is no token is passed on as such,
so that whatever comes before it is read first.
-/

set_option autoImplicit false

namespace CommandLine.Json

inductive Token
  | openArray
  | closeArray
  | openObject
  | closeObject
  | colon
  | comma
  | string (text : String)
  /-- A string with half of a surrogate pair, which is no text. -/
  | unpaired
  /-- A number, or a word for a value. -/
  | scalar (value : Json)
  /-- What belongs to no token. -/
  | junk
  deriving DecidableEq

namespace Token

/-- A number by its parts: the sign, the digits of the whole part, those of the fraction, and the
exponent, each with whether it is written. -/
structure Numeral where
  negative : Bool
  whole : List Char
  fraction : Option (List Char)
  exponent : Option (Bool × List Char)

/-- The value of a row of decimal digits. -/
def natOf (digits : List Char) : Nat :=
  digits.foldl (fun value c ↦ value * 10 + (c.toNat - 0x30)) 0

def isDigits (text : List Char) : Bool := !text.isEmpty && text.all Char.isDigit

/-- A whole part has no leading zero. -/
def isWhole (text : List Char) : Bool :=
  isDigits text && (text.length == 1 || text.head? != some '0')

/-- The parts of a numeral, split at the exponent mark, the point and the sign. -/
def Numeral.ofText (text : List Char) : Numeral :=
  let negative := text.head? == some '-'
  let unsigned := if negative then text.drop 1 else text
  let isMark (c : Char) := c == 'e' || c == 'E'
  let base := unsigned.takeWhile (!isMark ·)
  let exponent :=
    match unsigned.drop base.length with
    | [] => none
    | _ :: '-' :: digits => some (true, digits)
    | _ :: '+' :: digits => some (false, digits)
    | _ :: digits => some (false, digits)
  let whole := base.takeWhile (· != '.')
  let fraction :=
    match base.drop whole.length with
    | [] => none
    | _ :: digits => some digits
  ⟨negative, whole, fraction, exponent⟩

/-- The number that a numeral writes. One without a fraction and an exponent is an integer. -/
def Numeral.value? (numeral : Numeral) : Option Json :=
  if !isWhole numeral.whole || numeral.fraction.any (!isDigits ·) ||
      numeral.exponent.any (!isDigits ·.2) then none
  else if numeral.fraction.isNone && numeral.exponent.isNone then
    let magnitude : Int := natOf numeral.whole
    some (.int (if numeral.negative then -magnitude else magnitude))
  else
    let fraction := numeral.fraction.getD []
    let exponent : Int :=
      match numeral.exponent with
      | some (negative, digits) => if negative then -(natOf digits : Int) else natOf digits
      | none => 0
    some (.float (.ofDecimal numeral.negative (natOf (numeral.whole ++ fraction))
      (exponent - fraction.length)))

/-- The value of a run of letters, digits and signs. -/
def scalar? (run : List Char) : Option Json :=
  match String.ofList run with
  | "null" => some .null
  | "true" => some (.bool true)
  | "false" => some (.bool false)
  | "NaN" => some (.float .nan)
  | "Infinity" => some (.float (.infinity false))
  | "-Infinity" => some (.float (.infinity true))
  | _ => (Numeral.ofText run).value?

/-- The integer that a run begins with, unless a fraction or an exponent follows it. -/
def leadingInt? (run : List Char) : Option Int :=
  let negative := run.head? == some '-'
  let unsigned := if negative then run.drop 1 else run
  let digits := if unsigned.head? == some '0' then ['0'] else unsigned.takeWhile Char.isDigit
  let goesOn :=
    match unsigned.drop digits.length with
    | '.' :: c :: _ => c.isDigit
    | mark :: sign :: c :: _ =>
      (mark == 'e' || mark == 'E') &&
        (sign.isDigit || (sign == '-' || sign == '+') && c.isDigit)
    | [mark, c] => (mark == 'e' || mark == 'E') && c.isDigit
    | _ => false
  if digits.isEmpty || goesOn then none
  else some (if negative then -(natOf digits : Int) else natOf digits)

/-- The tokens of a run of letters, digits and signs. A reader takes the integer at the beginning
before it comes to what does not belong to it. -/
def runTokens (run : List Char) : List Token :=
  match scalar? run, leadingInt? run with
  | some value, _ => [.scalar value]
  | none, some value => [.scalar (.int value), .junk]
  | none, none => [.junk]

/-- Where the lexer is. The characters read so far of a run or a string are in reverse order; a
string that has half of a surrogate pair has none. -/
inductive Mode
  | between
  | run (reversed : List Char)
  | string (reversed : Option (List Char))
  | escape (reversed : Option (List Char))
  /-- In a numeric escape with the given digits, perhaps behind a high surrogate. -/
  | unicode (reversed : Option (List Char)) (high : Option Nat) (digits : List Char)
  /-- Behind a high surrogate, and in the escape that may follow it. -/
  | surrogate (reversed : Option (List Char)) (high : Nat) (escaped : Bool)

def isSpace (c : Char) : Bool := c == ' ' || c == '\t' || c == '\n' || c == '\r'

def isRunChar (c : Char) : Bool := c.isAlphanum || c == '-' || c == '+' || c == '.'

def punctuation? : Char → Option Token
  | '[' => some .openArray
  | ']' => some .closeArray
  | '{' => some .openObject
  | '}' => some .closeObject
  | ':' => some .colon
  | ',' => some .comma
  | _ => none

/-- The character of an escape of one letter. -/
def escaped? : Char → Option Char
  | '"' => some '"'
  | '\\' => some '\\'
  | '/' => some '/'
  | 'b' => some '\x08'
  | 'f' => some '\x0c'
  | 'n' => some '\n'
  | 'r' => some '\r'
  | 't' => some '\t'
  | _ => none

def isHigh (code : Nat) : Bool := 0xD800 ≤ code && code < 0xDC00

def isLow (code : Nat) : Bool := 0xDC00 ≤ code && code < 0xE000

/-- Takes the code of a numeric escape into a string. A high surrogate waits for a low one. -/
def takeCode (reversed : Option (List Char)) (high : Option Nat) (code : Nat) : Mode :=
  match high with
  | some high =>
    if isLow code then
      .string (reversed.map
        (Char.ofNat (0x10000 + (high - 0xD800) * 0x400 + (code - 0xDC00)) :: ·))
    else if isHigh code then .surrogate none code false
    else .string none
  | none =>
    if isHigh code then .surrogate reversed code false
    else if isLow code then .string none
    else .string (reversed.map (Char.ofNat code :: ·))

/-- A character between tokens. -/
def startStep (c : Char) : List Token × Mode :=
  if isSpace c then ([], .between)
  else if c = '"' then ([], .string (some []))
  else if isRunChar c then ([], .run [c])
  else ([(punctuation? c).getD .junk], .between)

/-- A character of a string. -/
def stringStep (reversed : Option (List Char)) (c : Char) : List Token × Mode :=
  if c = '"' then
    match reversed with
    | some reversed => ([.string (String.ofList reversed.reverse)], .between)
    | none => ([.unpaired], .between)
  else if c = '\\' then ([], .escape reversed)
  else if c.toNat < 0x20 then ([.junk], .between)
  else ([], .string (reversed.map (c :: ·)))

/-- A character behind a backslash. -/
def escapeStep (reversed : Option (List Char)) (high : Option Nat) (c : Char) :
    List Token × Mode :=
  if c = 'u' then ([], .unicode reversed high [])
  else
    match escaped? c with
    | some escaped => ([], .string (if high.isSome then none else reversed.map (escaped :: ·)))
    | none => ([.junk], .between)

/-- The tokens that one character completes, and the mode behind it. -/
def step : Mode → Char → List Token × Mode
  | .between, c => startStep c
  | .run reversed, c =>
    if isRunChar c then ([], .run (c :: reversed))
    else (runTokens reversed.reverse ++ (startStep c).1, (startStep c).2)
  | .string reversed, c => stringStep reversed c
  | .escape reversed, c => escapeStep reversed none c
  | .unicode reversed high digits, c =>
    match Text.ofHex? (digits ++ [c]) with
    | some code =>
      ([], if digits.length < 3 then .unicode reversed high (digits ++ [c])
        else takeCode reversed high code)
    | none => ([.junk], .between)
  | .surrogate reversed high false, c =>
    if c = '\\' then ([], .surrogate reversed high true) else stringStep none c
  | .surrogate reversed high true, c => escapeStep reversed (some high) c

/-- The tokens of a text read from a mode. -/
def lexFrom (mode : Mode) : List Char → List Token
  | [] =>
    match mode with
    | .between => []
    | .run reversed => runTokens reversed.reverse
    | _ => [.junk]
  | c :: rest => (step mode c).1 ++ lexFrom (step mode c).2 rest

/-- The tokens of a text. -/
def lex (text : List Char) : List Token := lexFrom .between text

end Token

end CommandLine.Json
