import CommandLine.Yaml.Error
import CommandLine.Yaml.Source

/-!
Block scalars: a header, and then the lines that are indented enough. Each line keeps its break, or
breaks are folded; what becomes of the last breaks is for the header to say.
-/

set_option autoImplicit false

namespace CommandLine.Yaml.Block

/-- What becomes of the line breaks at the end: the first one stays, all of them or none. -/
inductive Ending
  | clip
  | keep
  | strip
  deriving DecidableEq, Repr

/-- What a header says, and what follows it on its line. The indentation is relative. -/
structure Header where
  ending : Ending
  indent : Option Nat
  rest : List Char

def ending? : Char → Option Ending
  | '+' => some .keep
  | '-' => some .strip
  | _ => none

def indent? (c : Char) : Option Nat := if c.isDigit then some (c.toNat - 0x30) else none

/-- The header that is ahead: a sign and a digit in either order, of which each may be left out. -/
def header (text : List Char) : Header :=
  match text with
  | [] => ⟨.clip, none, []⟩
  | c :: rest =>
    match ending? c, indent? c with
    | some ending, _ =>
      match rest with
      | d :: rest =>
        match indent? d with
        | some indent => ⟨ending, some indent, rest⟩
        | none => ⟨ending, none, d :: rest⟩
      | [] => ⟨ending, none, []⟩
    | none, some indent =>
      match rest with
      | d :: rest =>
        match ending? d with
        | some ending => ⟨ending, some indent, rest⟩
        | none => ⟨.clip, some indent, d :: rest⟩
      | [] => ⟨.clip, some indent, []⟩
    | none, none => ⟨.clip, none, c :: rest⟩

/-- A line with the break at its end. -/
structure Line where
  text : List Char
  last : Option Char

/-- The lines of a text. -/
def lines : List Char → List Line
  | [] => []
  | c :: rest =>
    if isBreak c then ⟨[], some c⟩ :: lines rest
    else
      match lines rest with
      | [] => [⟨[c], none⟩]
      | line :: others => { line with text := c :: line.text } :: others

/-- The characters of lines. -/
def unlines (lines : List Line) : List Char :=
  lines.flatMap fun line ↦ line.text ++ line.last.toList

@[simp] theorem unlines_lines (text : List Char) : unlines (lines text) = text := by
  induction text with
  | nil => rfl
  | cons c rest ih =>
    rw [lines]
    split
    · simp [unlines] at ih ⊢
      exact ih
    · split
      · next h => simp [unlines, h] at ih ⊢; exact ih
      · next line others h => simp [unlines, h] at ih ⊢; exact ih

/-- The blanks that lines start with, up to the first line that holds anything else; the most of
them is the indentation. -/
def widest : List Line → Nat
  | [] => 0
  | line :: rest =>
    let blanks := (line.text.takeWhile (· == ' ')).length
    if line.last.isSome && blanks = line.text.length then max blanks (widest rest) else blanks

/-- A line of the scalar that has been read: whether it starts with something other than a blank, and
the break behind it. -/
structure Previous where
  solid : Bool
  last : Option Char

/-- What stands for the break between two lines. Where it is folded and no empty lines follow, it is
a blank. -/
def joint (fold : Bool) (previous : Previous) (solid : Bool) (breaks : List Char) : List Char :=
  let last := previous.last.toList.map breakChar
  if fold && last == ['\n'] && previous.solid && solid then
    if breaks.isEmpty then [' '] else []
  else last

/-- The text of the scalar at the start of lines, and the lines that follow it. -/
def textFrom (fold : Bool) (ending : Ending) (indent : Nat) (previous : Option Previous)
    (breaks : List Char) : List Line → List Char × List Line
  | [] => (finish [], [])
  | line :: rest =>
    let blanks := (line.text.takeWhile (· == ' ')).take indent
    let content := line.text.drop blanks.length
    if content.isEmpty && line.last.isSome then
      textFrom fold ending indent previous (breaks ++ line.last.toList.map breakChar) rest
    else if blanks.length = indent ∧ !content.isEmpty then
      let solid := !isAt isBlank content
      let before :=
        match previous with
        | some previous => joint fold previous solid breaks
        | none => []
      let (text, after) := textFrom fold ending indent (some ⟨solid, line.last⟩) [] rest
      (before ++ breaks ++ content ++ text, after)
    else (finish [], line :: rest)
where
  /-- The breaks that stay at the end. -/
  finish (text : List Char) : List Char :=
    let last := (previous.bind (·.last)).toList.map breakChar
    match ending with
    | .strip => text
    | .clip => text ++ last
    | .keep => text ++ last ++ breaks

/-- What follows blanks and a comment, if that is the end of the line. -/
def lineRest (text : List Char) : Except Error (List Char) :=
  let after := text.dropWhile (· == ' ')
  let after := if after.head? = some '#' then after.dropWhile (!isBreak ·) else after
  match after with
  | [] => .ok []
  | c :: rest => if isBreak c then .ok rest else .error .malformed

/-- The scalar that is ahead behind its sign, inside a block indented by `outer` blanks less one. -/
def scalar (fold : Bool) (outer : Nat) (text : List Char) :
    Except Error (List Char × List Char) := do
  let header := header text
  if header.indent = some 0 ∨ !isAt (fun c ↦ c == ' ' || isBreak c) header.rest then
    throw .malformed
  let lines := lines (← lineRest header.rest)
  let least := max outer 1
  let indent :=
    match header.indent with
    | some indent => least + indent - 1
    | none => max least (widest lines)
  let (text, after) := textFrom fold header.ending indent none [] lines
  return (text, unlines after)

end CommandLine.Yaml.Block
