import CommandLine.Text.Hex
import CommandLine.Text.Utf8
import CommandLine.Yaml.Error
import CommandLine.Yaml.Source
import CommandLine.Yaml.Token

/-!
Names, tags and directives.
-/

set_option autoImplicit false

namespace CommandLine.Yaml

/-- A character of a name. -/
def isNameChar (c : Char) : Bool := c.isAlphanum || c == '-' || c == '_'

/-- The name that is ahead, which is not empty, and what follows it. -/
def name (text : List Char) : Except Error (List Char × List Char) :=
  match text.span isNameChar with
  | ([], _) => .error .malformed
  | found => .ok found

/-- The name of an anchor or alias, which ends at a gap or at certain signs. -/
def anchorName (text : List Char) : Except Error (List Char × List Char) := do
  let found ← name text
  if isAt (fun c ↦ isGap c || "?:,]\x7d%@`".toList.contains c) found.2 then return found
  else throw .malformed

namespace Tag

/-- A character of a tag. -/
def isTagChar (c : Char) : Bool :=
  c.isAlphanum || "-;/?:@&=+$,_.!~*'()[]%".toList.contains c

/-- A blank, a line break, or the end of the text follows. -/
def isOver (text : List Char) : Bool := isAt (fun c ↦ c == ' ' || isBreak c) text

/-- The octets of the escapes that are ahead, and what follows them. -/
def octets : List Char → Except Error (List UInt8 × List Char)
  | '%' :: high :: low :: rest =>
    match Text.hexValue? high, Text.hexValue? low with
    | some high, some low => do
      let (octets, after) ← octets rest
      return (UInt8.ofNat (high * 16 + low) :: octets, after)
    | _, _ => .error .malformed
  | '%' :: _ => .error .malformed
  | text => .ok ([], text)

/-- A run of the characters of a tag with its escapes decoded. -/
def decoded (fuel : Nat) (text : List Char) : Except Error (List Char) :=
  match fuel, text with
  | 0, _ | _, [] => .ok []
  | fuel + 1, '%' :: rest => do
    let (octets, after) ← octets ('%' :: rest)
    match Text.decode octets with
    | .ok chars => return chars ++ (← decoded fuel after)
    | .error _ => throw .malformed
  | fuel + 1, c :: rest => return c :: (← decoded fuel rest)

/-- The run of the characters of a tag that is ahead, and what follows it. -/
def run (text : List Char) : Except Error (List Char × List Char) := do
  let (found, rest) := text.span isTagChar
  if found.isEmpty then throw .malformed
  return (← decoded found.length found, rest)

/-- The handle that is ahead: a sign alone, or one on each side of a name. -/
def handle : List Char → Except Error (List Char × List Char)
  | '!' :: rest =>
    let (name, after) := rest.span isNameChar
    match name, after with
    | name, '!' :: after => .ok ('!' :: name ++ ['!'], after)
    | [], ' ' :: after => .ok (['!'], ' ' :: after)
    | _, _ => .error .malformed
  | _ => .error .malformed

/-- A second sign follows before the next blank, so that the tag has a handle of its own. -/
def hasHandle (text : List Char) : Bool :=
  (text.takeWhile fun c ↦ !(c == ' ' || isBreak c)).contains '!'

/-- The tag that is ahead, behind its sign. -/
def ofText (text : List Char) : Except Error (Token × List Char) := do
  let (token, rest) ←
    match text with
    | '<' :: text => do
      let (suffix, rest) ← run text
      match rest with
      | '>' :: rest => pure (Token.tag none suffix, rest)
      | _ => throw .malformed
    | text =>
      if isAt isGap text then pure (Token.tag none ['!'], text)
      else do
        let (handle, text) ← if hasHandle text then handle ('!' :: text) else pure (['!'], text)
        let (suffix, rest) ← run text
        pure (Token.tag (some handle) suffix, rest)
  if isOver rest then return (token, rest) else throw .malformed

end Tag

namespace Directive

def skipBlanks (text : List Char) : List Char := text.dropWhile (· == ' ')

/-- The number that is ahead, and what follows it. -/
def number (text : List Char) : Except Error (Nat × List Char) :=
  match text.span Char.isDigit with
  | ([], _) => .error .malformed
  | (digits, rest) => .ok (digits.foldl (fun value c ↦ value * 10 + (c.toNat - 0x30)) 0, rest)

def ofVersion (text : List Char) : Except Error (Directive × List Char) := do
  match ← number (skipBlanks text) with
  | (major, '.' :: rest) =>
    let (_, rest) ← number rest
    if Tag.isOver rest then return (.version major, rest) else throw .malformed
  | _ => throw .malformed

def ofAbbreviation (text : List Char) : Except Error (Directive × List Char) := do
  match ← Tag.handle (skipBlanks text) with
  | (name, ' ' :: rest) =>
    let (stem, rest) ← Tag.run (skipBlanks rest)
    if Tag.isOver rest then return (.handle name stem, rest) else throw .malformed
  | _ => throw .malformed

/-- The directive that is ahead, behind its sign, and what follows it on its line. -/
def ofText (text : List Char) : Except Error (Directive × List Char) := do
  let (name, rest) ← name text
  if !Tag.isOver rest then throw .malformed
  match String.ofList name with
  | "YAML" => ofVersion rest
  | "TAG" => ofAbbreviation rest
  | _ => return (.other, rest.dropWhile (!isBreak ·))

end Directive

end CommandLine.Yaml
