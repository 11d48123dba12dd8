import CommandLine.Text.Hex
import CommandLine.Yaml.Error
import CommandLine.Yaml.Source

/-!
Quoted scalars. Between single quotes a quote is written twice; between double quotes there are
escapes. Line breaks with the blanks around them are folded, and an escaped line break is none.
-/

set_option autoImplicit false

namespace CommandLine.Yaml.Quoted

/-- Where a reader is in a quoted scalar. -/
inductive Mode
  | text
  | blanks (reversed : List Char)
  /-- Behind line breaks, of which the first is not escaped if it is there. -/
  | lines (first : Option Char) (reversed : List Char) (atStart : Bool)
  | escape
  /-- In an escape by a code that has so many digits to come. -/
  | code (owed : Nat) (value : Nat)
  /-- Behind a quotation mark that ends the scalar, unless it is the first of two. -/
  | closed
  deriving DecidableEq, Repr

/-- The character of an escape of one character. -/
def escaped? : Char → Option Char
  | '0' => some '\x00'
  | 'a' => some '\x07'
  | 'b' => some '\x08'
  | 't' | '\t' => some '\t'
  | 'n' => some '\n'
  | 'v' => some '\x0B'
  | 'f' => some '\x0C'
  | 'r' => some '\r'
  | 'e' => some '\x1B'
  | ' ' => some ' '
  | '"' => some '"'
  | '\\' => some '\\'
  | '/' => some '/'
  | 'N' => some '\x85'
  | '_' => some '\xA0'
  | 'L' => some '\u2028'
  | 'P' => some '\u2029'
  | _ => none

/-- The number of digits of an escape by a code. -/
def codeLength? : Char → Option Nat
  | 'x' => some 2
  | 'u' => some 4
  | 'U' => some 8
  | _ => none

/-- The character of a code. Half of a surrogate pair has none and is replaced. -/
def charOf (code : Nat) : Except Error Char :=
  if 0x7FFFFFFF < code then .error .noCode
  else if 0x10FFFF < code then .error .noCharacter
  else if 0xD800 ≤ code ∧ code < 0xE000 then .ok '\uFFFD'
  else .ok (Char.ofNat code)

/-- The characters that breaks count as. -/
def breaksText (first : Option Char) (reversed : List Char) : List Char :=
  match first with
  | some first => folded first reversed.reverse
  | none => reversed.reverse

/-- Takes a character of the text itself. -/
def textStep (double : Bool) (reversed : List Char) (c : Char) : Mode × List Char :=
  if c = (if double then '"' else '\'') then (.closed, reversed)
  else if double && c == '\\' then (.escape, reversed)
  else if isBlank c then (.blanks [c], reversed)
  else if isBreak c then (.lines (some c) [] true, reversed)
  else (.text, c :: reversed)

/-- Takes one character. The text so far is in reverse order. -/
def step (double : Bool) (mode : Mode) (reversed : List Char) (c : Char) (rest : List Char) :
    Except Error (Mode × List Char) :=
  match mode with
  | .text => .ok (textStep double reversed c)
  | .blanks blanks =>
    if isBlank c then .ok (.blanks (c :: blanks), reversed)
    else if isBreak c then .ok (.lines (some c) [] true, reversed)
    else .ok (textStep double (blanks ++ reversed) c)
  | .lines first breaks atStart =>
    if atStart && isMarker (c :: rest) then .error .malformed
    else if isBlank c then .ok (.lines first breaks false, reversed)
    else if isBreak c then .ok (.lines first (breakChar c :: breaks) true, reversed)
    else .ok (textStep double ((breaksText first breaks).reverse ++ reversed) c)
  | .escape =>
    match escaped? c, codeLength? c with
    | some char, _ => .ok (.text, char :: reversed)
    | none, some length => .ok (.code length 0, reversed)
    | none, none =>
      if isBreak c then .ok (.lines none [] true, reversed) else .error .malformed
  | .code owed value =>
    match Text.hexValue? c with
    | none => .error .malformed
    | some digit =>
      if owed ≤ 1 then do return (.text, (← charOf (value * 16 + digit)) :: reversed)
      else .ok (.code (owed - 1) (value * 16 + digit), reversed)
  | .closed => .ok (.text, c :: reversed)

/-- Reads on from a mode: the text of the scalar, and what follows it. -/
def readFrom (double : Bool) (mode : Mode) (reversed : List Char) :
    List Char → Except Error (List Char × List Char)
  | [] => if mode = .closed then .ok (reversed.reverse, []) else .error .malformed
  | c :: rest =>
    if mode = .closed ∧ (double ∨ c ≠ '\'') then .ok (reversed.reverse, c :: rest)
    else
      match step double mode reversed c rest with
      | .ok (next, reversed) => readFrom double next reversed rest
      | .error error => .error error

/-- The scalar that is ahead, behind its first quotation mark. -/
def scalar (double : Bool) (text : List Char) : Except Error (List Char × List Char) :=
  readFrom double .text [] text

end CommandLine.Yaml.Quoted
