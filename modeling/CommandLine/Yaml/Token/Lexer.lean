import CommandLine.Yaml.Token.Block
import CommandLine.Yaml.Token.Plain
import CommandLine.Yaml.Token.Quoted
import CommandLine.Yaml.Token.Tag

/-!
The lexer. Blocks are opened and closed by the indentation of their lines. That a token starts a key
is known only from the colon behind it, so the lexer keeps for each level of brackets the place where
a key may have started, and puts the token for it there when the colon comes.
-/

set_option autoImplicit false

namespace CommandLine.Yaml

/-- A place where a key may have started: the tokens in front of it, whether the block would be
malformed without a key there, and where the place is in the text. -/
structure Candidate where
  tokens : Nat
  required : Bool
  index : Nat
  line : Nat
  column : Nat

/-- A lexer: the tokens so far, last first; the columns of the open blocks, innermost first; the
candidates for keys, one for each open bracket, innermost first, and one for what is outside of
them; and whether a key may start at this spot. -/
structure Lexer where
  spot : Spot
  reversed : List Token
  blocks : List Nat
  brackets : List (Option Candidate)
  outside : Option Candidate
  keyAllowed : Bool

namespace Lexer

def start (text : List Char) : Lexer := ⟨.start text, [], [], [], none, true⟩

/-- Inside brackets, where indentation does not count. -/
def inBrackets (lexer : Lexer) : Bool := !lexer.brackets.isEmpty

/-- The column of the innermost block is left of the given one. -/
def isInside (lexer : Lexer) (column : Nat) : Bool :=
  match lexer.blocks with
  | [] => true
  | block :: _ => block < column

/-- The least number of blanks in front of what belongs to the innermost block. -/
def indent (lexer : Lexer) : Nat :=
  match lexer.blocks with
  | [] => 0
  | block :: _ => block + 1

def emit (lexer : Lexer) (token : Token) : Lexer :=
  { lexer with reversed := token :: lexer.reversed }

def goTo (lexer : Lexer) (rest : List Char) : Lexer :=
  { lexer with spot := lexer.spot.goTo rest }

def skip (lexer : Lexer) (count : Nat) : Lexer := { lexer with spot := lexer.spot.skip count }

def allowKey (lexer : Lexer) (allowed : Bool) : Lexer := { lexer with keyAllowed := allowed }

/-! ### Candidates for keys -/

/-- The candidate at the present level of brackets. -/
def candidate (lexer : Lexer) : Option Candidate :=
  match lexer.brackets with
  | [] => lexer.outside
  | candidate :: _ => candidate

def setCandidate (lexer : Lexer) (candidate : Option Candidate) : Lexer :=
  match lexer.brackets with
  | [] => { lexer with outside := candidate }
  | _ :: outer => { lexer with brackets := candidate :: outer }

/-- Gives the candidate up, which must not be required. -/
def dropCandidate (lexer : Lexer) : Except Error Lexer :=
  if lexer.candidate.any (·.required) then .error .malformed else .ok (lexer.setCandidate none)

/-- A key ends on the line where it starts, within 1024 characters. -/
def isStale (spot : Spot) (candidate : Candidate) : Bool :=
  candidate.line != spot.line || 1024 < spot.index - candidate.index

/-- Gives up the candidates that are too far back. -/
def dropStale (lexer : Lexer) : Except Error Lexer :=
  let stale := (lexer.outside :: lexer.brackets).filterMap
    (·.filter (isStale lexer.spot))
  let fresh (candidate : Option Candidate) := candidate.filter (!isStale lexer.spot ·)
  if stale.any (·.required) then .error .malformed
  else
    .ok { lexer with outside := fresh lexer.outside, brackets := lexer.brackets.map fresh }

/-- Makes this spot a candidate, where a key may start. -/
def saveCandidate (lexer : Lexer) : Except Error Lexer :=
  if lexer.keyAllowed then do
    let lexer ← lexer.dropCandidate
    let required := !lexer.inBrackets && lexer.blocks.head? == some lexer.spot.column
    return lexer.setCandidate (some ⟨lexer.reversed.length, required, lexer.spot.index,
      lexer.spot.line, lexer.spot.column⟩)
  else .ok lexer

/-! ### Blocks -/

/-- Closes the blocks right of a column. -/
def closeBlocks (column : Nat) (reversed : List Token) : List Nat → List Token × List Nat
  | [] => (reversed, [])
  | block :: outer =>
    if column < block then closeBlocks column (.blockEnd :: reversed) outer
    else (reversed, block :: outer)

/-- Closes the blocks that end at this spot. -/
def unwind (lexer : Lexer) : Lexer :=
  if lexer.inBrackets then lexer
  else
    let (reversed, blocks) := closeBlocks lexer.spot.column lexer.reversed lexer.blocks
    { lexer with reversed, blocks }

/-- Closes all blocks. -/
def unwindAll (lexer : Lexer) : Lexer :=
  if lexer.inBrackets then lexer
  else
    { lexer with reversed := lexer.blocks.map (fun _ ↦ .blockEnd) ++ lexer.reversed, blocks := [] }

/-- Opens a block at this spot, if it is inside the innermost one. A key or entry has to be allowed
here. -/
def openBlock (lexer : Lexer) (token : Token) : Except Error Lexer :=
  if lexer.inBrackets then .ok lexer
  else if !lexer.keyAllowed then .error .malformed
  else if lexer.isInside lexer.spot.column then
    .ok { lexer.emit token with blocks := lexer.spot.column :: lexer.blocks }
  else .ok lexer

/-! ### Tokens -/

/-- What is skipped in front of a token: blanks, comments and line breaks. The answer says whether
there were line breaks. -/
def skipped (comment broken : Bool) : List Char → Bool × List Char
  | [] => (broken, [])
  | c :: rest =>
    if isBreak c then skipped false true rest
    else if comment then skipped true broken rest
    else if c = ' ' then skipped false broken rest
    else if c = '#' then skipped true broken rest
    else (broken, c :: rest)

/-- The lexer in front of the next token. A key may start on a new line outside of brackets. -/
def toToken (lexer : Lexer) : Lexer :=
  let lexer :=
    if lexer.spot.index = 0 ∧ lexer.spot.ahead.head? = some byteOrderMark then lexer.skip 1
    else lexer
  let (broken, rest) := skipped false false lexer.spot.ahead
  let lexer := lexer.goTo rest
  if broken && !lexer.inBrackets then lexer.allowKey true else lexer

/-- A directive or a sign of a document, in front of which all blocks end. -/
def outerToken (lexer : Lexer) (read : List Char → Except Error (Token × List Char)) :
    Except Error Lexer := do
  let lexer ← lexer.unwindAll.dropCandidate
  let (token, rest) ← read lexer.spot.ahead
  return ((lexer.allowKey false).goTo rest).emit token

def openBracket (lexer : Lexer) (token : Token) : Except Error Lexer := do
  let lexer ← lexer.saveCandidate
  let opened := { lexer with brackets := none :: lexer.brackets }
  return ((opened.allowKey true).skip 1).emit token

def closeBracket (lexer : Lexer) (token : Token) : Except Error Lexer := do
  let lexer ← lexer.dropCandidate
  match lexer.brackets with
  | [] => throw .malformed
  | _ :: outer =>
    let closed := { lexer with brackets := outer }
    return ((closed.allowKey false).skip 1).emit token

def comma (lexer : Lexer) : Except Error Lexer := do
  let lexer ← lexer.dropCandidate
  return ((lexer.allowKey true).skip 1).emit .comma

def blockEntry (lexer : Lexer) : Except Error Lexer := do
  let lexer ← (← lexer.openBlock .blockSequence).dropCandidate
  return ((lexer.allowKey true).skip 1).emit .blockEntry

/-- The sign in front of a key. -/
def key (lexer : Lexer) : Except Error Lexer := do
  let lexer ← (← lexer.openBlock .blockMapping).dropCandidate
  return ((lexer.allowKey (!lexer.inBrackets)).skip 1).emit .key

/-- Puts the token for a key, and if need be the one for its block, where the key started. -/
def insertKey (lexer : Lexer) (candidate : Candidate) : Lexer :=
  let behind := lexer.reversed.take (lexer.reversed.length - candidate.tokens)
  let before := lexer.reversed.drop behind.length
  if !lexer.inBrackets && lexer.isInside candidate.column then
    { lexer with
      reversed := behind ++ .key :: .blockMapping :: before
      blocks := candidate.column :: lexer.blocks }
  else { lexer with reversed := behind ++ .key :: before }

/-- The colon in front of a value. -/
def value (lexer : Lexer) : Except Error Lexer := do
  let lexer ←
    match lexer.candidate with
    | some candidate => pure (((lexer.setCandidate none).insertKey candidate).allowKey false)
    | none =>
      let lexer ← lexer.openBlock .blockMapping
      (lexer.allowKey (!lexer.inBrackets)).dropCandidate
  return (lexer.skip 1).emit .value

/-- A token that may start a key. -/
def readToken (lexer : Lexer) (read : List Char → Except Error (Token × List Char)) :
    Except Error Lexer := do
  let lexer ← lexer.saveCandidate
  let (token, rest) ← read lexer.spot.ahead
  return ((lexer.allowKey false).goTo rest).emit token

def blockScalar (lexer : Lexer) (fold : Bool) : Except Error Lexer := do
  let lexer ← (lexer.allowKey true).dropCandidate
  let (text, rest) ← Block.scalar fold lexer.indent (lexer.spot.ahead.drop 1)
  return (lexer.goTo rest).emit (.scalar false text)

def plain (lexer : Lexer) : Except Error Lexer := do
  let lexer ← lexer.saveCandidate
  let scalar := Plain.scalar lexer.inBrackets lexer.indent lexer.spot.ahead
  return ((lexer.allowKey scalar.broken).goTo scalar.rest).emit (.scalar true scalar.text)

/-- Reads a directive behind its sign, and the rest of its line. -/
def readDirective (text : List Char) : Except Error (Token × List Char) := do
  let (directive, rest) ← Directive.ofText (text.drop 1)
  return (.directive directive, ← Block.lineRest rest)

/-- Reads the next token, in front of which the lexer is. -/
def token (lexer : Lexer) (c : Char) (rest : List Char) : Except Error Lexer :=
  let atStart := lexer.spot.column == 0
  let reading {α : Type} (token : α → Token) (read : List Char → Except Error (α × List Char))
      (text : List Char) : Except Error (Token × List Char) := do
    let (found, after) ← read (text.drop 1)
    return (token found, after)
  if atStart && c == '%' then lexer.outerToken readDirective
  else if atStart && isMarker (c :: rest) then
    lexer.outerToken fun text ↦
      .ok (if c = '-' then .documentStart else .documentEnd, text.drop 3)
  else
    match c with
    | '[' => lexer.openBracket .openSequence
    | '\x7b' => lexer.openBracket .openMapping
    | ']' => lexer.closeBracket .closeSequence
    | '\x7d' => lexer.closeBracket .closeMapping
    | ',' => lexer.comma
    | '*' => lexer.readToken (reading .alias anchorName)
    | '&' => lexer.readToken (reading .anchor anchorName)
    | '!' => lexer.readToken fun text ↦ Tag.ofText (text.drop 1)
    | '\'' => lexer.readToken (reading (.scalar false) (Quoted.scalar false))
    | '"' => lexer.readToken (reading (.scalar false) (Quoted.scalar true))
    | c =>
      let spaced := isAt isGap rest
      if c = '-' ∧ spaced then lexer.blockEntry
      else if c = '?' ∧ (lexer.inBrackets ∨ spaced) then lexer.key
      else if c = ':' ∧ (lexer.inBrackets ∨ spaced) then lexer.value
      else if c = '|' ∧ !lexer.inBrackets then lexer.blockScalar false
      else if c = '>' ∧ !lexer.inBrackets then lexer.blockScalar true
      else if Plain.starts lexer.inBrackets c rest then lexer.plain
      else .error .malformed

/-- The lexer at the end of a text. -/
def finish (lexer : Lexer) : Except Error Lexer := lexer.unwindAll.dropCandidate

/-- Reads on to the end of the text; each token takes at least one character. -/
def run (fuel : Nat) (lexer : Lexer) : Except Error Lexer :=
  match fuel with
  | 0 => .ok lexer
  | fuel + 1 => do
    let lexer ← lexer.toToken.dropStale
    let lexer := lexer.unwind
    match lexer.spot.ahead with
    | [] => lexer.finish
    | c :: rest => run fuel (← lexer.token c rest)

end Lexer

/-- The tokens of a text. -/
def Token.ofText (text : List Char) : Except Error (List Token) :=
  if text.all isAllowed then do
    let lexer ← (Lexer.start text).run (text.length + 1)
    return lexer.reversed.reverse
  else .error .malformed

end CommandLine.Yaml
