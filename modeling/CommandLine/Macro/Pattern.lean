import CommandLine.Text.Alphanumeric

/-!
The patterns by which macros are recognised: a small language of regular expressions made of
characters, classes in brackets, greedy repetition of a single character or class, and groups. A
match is the first one that a backtracking matcher finds when every repetition first takes as much
as it can. Of a text that goes beyond the language nothing is said, not even whether it is a regular
expression.
-/

set_option autoImplicit false

namespace CommandLine.Macro

/-- A member of a class. -/
inductive Member
  | single (c : Char)
  | range (first last : Char)
  /-- Any character of a name. -/
  | word
  deriving DecidableEq, Repr

def Member.contains : Member → Char → Bool
  | .single d, c => c == d
  | .range first last, c => first ≤ c && c ≤ last
  | .word, c => Text.isNameChar c

/-- A class of characters: its members, or everything but its members. -/
structure CharSet where
  negated : Bool
  members : List Member
  deriving DecidableEq, Repr

def CharSet.contains (set : CharSet) (c : Char) : Bool :=
  set.members.any (·.contains c) != set.negated

def CharSet.single (c : Char) : CharSet := ⟨false, [.single c]⟩

/-- An item of a pattern. Groups are numbered from 1 by their opening marks. -/
inductive Item
  | one (set : CharSet)
  | run (set : CharSet) (atLeast : Nat)
  | opening (group : Nat)
  | closing (group : Nat)
  deriving DecidableEq, Repr

/-- A pattern. With groups, the first is the name of what it matches, else the whole match is. -/
structure Pattern where
  items : List Item
  grouped : Bool
  deriving DecidableEq, Repr

/-- Why a text is no pattern, and where. -/
inductive PatternError
  | unterminatedGroup (position : Nat)
  | unterminatedSet (position : Nat)
  | nothingToRepeat (position : Nat)
  | multipleRepeat (position : Nat)
  | unbalancedParenthesis (position : Nat)
  | trailingBackslash (position : Nat)
  deriving DecidableEq, Repr

/-- How a place in a text is told, with its line and column if the text has several lines. -/
def located (text : List Char) (position : Nat) : String :=
  let front := text.take position
  " at position " ++ toString position ++
    if '\n' ∈ text then
      " (line " ++ toString (front.count '\n' + 1) ++ ", column " ++
        toString ((front.reverse.takeWhile (· != '\n')).length + 1) ++ ")"
    else ""

/-- What is wrong with a text. -/
def PatternError.message (text : List Char) : PatternError → String
  | .unterminatedGroup position => "missing ), unterminated subpattern" ++ located text position
  | .unterminatedSet position => "unterminated character set" ++ located text position
  | .nothingToRepeat position => "nothing to repeat" ++ located text position
  | .multipleRepeat position => "multiple repeat" ++ located text position
  | .unbalancedParenthesis position => "unbalanced parenthesis" ++ located text position
  | .trailingBackslash position => "bad escape (end of pattern)" ++ located text position

/-- Why no pattern is read from a text. -/
inductive Unread
  | invalid (error : PatternError)
  /-- The text goes beyond the language. -/
  | beyond
  deriving DecidableEq, Repr

/-! ### Reading a pattern -/

/-- A sign of a pattern: a character, one behind a backslash, or a backslash at the end. -/
inductive Sign
  | plain (c : Char)
  | escaped (c : Char)
  | dangling
  deriving DecidableEq, Repr

namespace Sign

def ofText : List Char → List Sign
  | [] => []
  | ['\\'] => [.dangling]
  | '\\' :: c :: rest => .escaped c :: ofText rest
  | c :: rest => .plain c :: ofText rest

def width : Sign → Nat
  | escaped _ => 2
  | _ => 1

def isDigit : Sign → Bool
  | plain c => c.isDigit
  | _ => false

/-- What a sign stands for where it has no meaning of its own. -/
def member : Sign → Except Unread Member
  | plain c => .ok (.single c)
  | escaped c =>
    if c = 'w' then .ok .word
    else if c.isAlphanum then .error .beyond
    else .ok (.single c)
  | dangling => .error .beyond

end Sign

/-- The signs behind an opening brace make it the bound of a repetition. -/
def opensBound (rest : List Sign) : Bool :=
  let behind := rest.dropWhile Sign.isDigit
  let upper :=
    if behind.head? = some (.plain ',') then behind.tail.dropWhile Sign.isDigit else behind
  rest.head? != some (.plain '\x7d') && upper.head? == some (.plain '\x7d')

/-- A class that is open: where, whether it is negated, and its members in reverse order. -/
structure OpenClass where
  start : Nat
  negated : Bool
  reversed : List Member

/-- Where in a pattern a reader is. -/
inductive Place
  | outside
  /-- Right behind an opening bracket. -/
  | opened (start : Nat)
  /-- In a class, where a member comes next. A closing bracket that comes first is one. -/
  | within (set : OpenClass)
  /-- Behind a member that a range may begin with. -/
  | behind (set : OpenClass) (last : Member)
  /-- In a range. -/
  | range (set : OpenClass) (first : Member)

/-- A reader of patterns: its position, the positions and numbers of the groups that are open, the
number of groups, the items so far in reverse order, and where it is. -/
structure PatternReader where
  position : Nat
  opened : List (Nat × Nat)
  groups : Nat
  reversed : List Item
  place : Place

namespace PatternReader

def start : PatternReader := ⟨0, [], 0, [], .outside⟩

/-- The reader behind an item. -/
def push (reader : PatternReader) (item : Item) : PatternReader :=
  { reader with reversed := item :: reader.reversed, place := .outside }

/-- Closes a class. -/
def close (reader : PatternReader) (set : OpenClass) (last : List Member) : PatternReader :=
  reader.push (.one ⟨set.negated, set.reversed.reverse ++ last⟩)

/-- Repeats the last item, which has to be a single character or class. -/
def repeated (reader : PatternReader) (atLeast : Nat) : Except Unread PatternReader :=
  match reader.reversed with
  | .one set :: reversed => .ok { reader with reversed := .run set atLeast :: reversed }
  | .run .. :: _ =>
    -- A plus behind a repetition makes it possessive.
    if atLeast = 1 then .error .beyond else .error (.invalid (.multipleRepeat reader.position))
  | .closing _ :: _ => .error .beyond
  | [] | .opening _ :: _ => .error (.invalid (.nothingToRepeat reader.position))

/-- Opens a group. Readers follow groups inside each other only so far. -/
def enter (reader : PatternReader) : Except Unread PatternReader :=
  if reader.opened.length < 50 then
    .ok { reader.push (.opening (reader.groups + 1)) with
      opened := (reader.position, reader.groups + 1) :: reader.opened
      groups := reader.groups + 1 }
  else .error .beyond

def leave (reader : PatternReader) : Except Unread PatternReader :=
  match reader.opened with
  | [] => .error (.invalid (.unbalancedParenthesis reader.position))
  | (_, group) :: outer => .ok { reader.push (.closing group) with opened := outer }

/-- A sign outside classes. -/
def readOutside (reader : PatternReader) (sign : Sign) (rest : List Sign) :
    Except Unread PatternReader :=
  match sign with
  | .plain '[' => .ok { reader with place := .opened reader.position }
  | .plain '(' => reader.enter
  | .plain ')' => reader.leave
  | .plain '*' => reader.repeated 0
  | .plain '+' => reader.repeated 1
  | .plain '?' | .plain '|' | .plain '^' | .plain '$' | .plain '.' => .error .beyond
  | .plain '\x7b' =>
    if opensBound rest then .error .beyond else .ok (reader.push (.one (.single '\x7b')))
  | sign => sign.member.map fun found ↦ reader.push (.one ⟨false, [found]⟩)

/-- The next member of a class. -/
def readMember (reader : PatternReader) (set : OpenClass) (sign : Sign) :
    Except Unread PatternReader :=
  sign.member.map fun found ↦ { reader with place := .behind set found }

/-- The end of a range. -/
def readRange (reader : PatternReader) (set : OpenClass) (first : Member) (sign : Sign) :
    Except Unread PatternReader :=
  match first, sign.member with
  | .single first, .ok (.single last) =>
    if first ≤ last then
      .ok
        { reader with place := .within { set with reversed := .range first last :: set.reversed } }
    else .error .beyond
  | _, _ => .error .beyond

/-- Takes a sign. -/
def take (reader : PatternReader) (sign : Sign) (rest : List Sign) : Except Unread PatternReader :=
  match reader.place, sign with
  | .outside, sign => reader.readOutside sign rest
  | .opened start, .plain '^' => .ok { reader with place := .within ⟨start, true, []⟩ }
  | .opened start, sign => reader.readMember ⟨start, false, []⟩ sign
  | .within set, .plain ']' =>
    if set.reversed.isEmpty then reader.readMember set (.plain ']') else .ok (reader.close set [])
  | .within set, sign => reader.readMember set sign
  | .behind set last, .plain ']' => .ok (reader.close set [last])
  | .behind set last, .plain '-' => .ok { reader with place := .range set last }
  | .behind set last, sign =>
    reader.readMember { set with reversed := last :: set.reversed } sign
  | .range set first, .plain ']' => .ok (reader.close set [first, .single '-'])
  | .range set first, sign => reader.readRange set first sign

/-- The pattern at the end of a text. -/
def result (reader : PatternReader) : Except Unread Pattern :=
  match reader.place, reader.opened with
  | .outside, [] => .ok ⟨reader.reversed.reverse, reader.groups != 0⟩
  | .outside, (start, _) :: _ => .error (.invalid (.unterminatedGroup start))
  | .opened start, _ => .error (.invalid (.unterminatedSet start))
  | .within set, _ | .behind set _, _ | .range set _, _ =>
    .error (.invalid (.unterminatedSet set.start))

/-- A parenthesis that closes no group. -/
def isUnbalanced (reader : PatternReader) (sign : Sign) : Bool :=
  match reader.place with
  | .outside => sign = .plain ')' && reader.opened.isEmpty
  | _ => false

/-- Reads the rest of a pattern. A backslash at the end is noticed as soon as the sign in front of
it is taken, and a parenthesis that closes no group is not taken. -/
def readFrom (reader : PatternReader) : List Sign → Except Unread Pattern
  | [] => reader.result
  | sign :: rest =>
    if sign = .dangling then .error (.invalid (.trailingBackslash reader.position))
    else if rest = [.dangling] ∧ !reader.isUnbalanced sign then
      .error (.invalid (.trailingBackslash (reader.position + sign.width)))
    else
      match reader.take sign rest with
      | .ok next => readFrom { next with position := reader.position + sign.width } rest
      | .error error => .error error

end PatternReader

/-- The pattern that a text writes. -/
def Pattern.parse (text : List Char) : Except Unread Pattern :=
  PatternReader.start.readFrom (Sign.ofText text)

/-- The text of the default pattern: a name between `%{` and the next closing brace. -/
def Pattern.defaultText : List Char := "%\\\x7b([^\x7d]*)\\\x7d".toList

/-- The default pattern. -/
def Pattern.default : Pattern :=
  ⟨[.one (.single '%'), .one (.single '{'), .opening 1, .run ⟨true, [.single '}']⟩ 0, .closing 1,
    .one (.single '}')], true⟩

theorem Pattern.parse_defaultText : Pattern.parse Pattern.defaultText = .ok Pattern.default :=
  rfl

/-! ### Matching -/

/-- What a match took, and what its first group took. -/
structure Capture where
  taken : List Char
  group : List Char
  recording : Bool
  deriving DecidableEq, Repr

/-- The match with one more character in front. -/
def Capture.extend (capture : Capture) (c : Char) : Capture :=
  { capture with
    taken := c :: capture.taken
    group := if capture.recording then c :: capture.group else capture.group }

/-- Matches at least `atLeast` characters of a class, as many as what follows allows. -/
def matchRun (set : CharSet) (following : List Char → Option Capture) :
    Nat → List Char → Option Capture
  | atLeast, [] => if atLeast = 0 then following [] else none
  | atLeast, c :: rest =>
    let further :=
      if set.contains c then
        (matchRun set following (atLeast - 1) rest).map (·.extend c)
      else none
    match further with
    | some capture => some capture
    | none => if atLeast = 0 then following (c :: rest) else none

/-- The match of a row of items at the head of a text. -/
def matchItems : List Item → List Char → Option Capture
  | [], _ => some ⟨[], [], false⟩
  | .one _ :: _, [] => none
  | .one set :: items, c :: rest =>
    if set.contains c then (matchItems items rest).map (·.extend c) else none
  | .run set atLeast :: items, text => matchRun set (matchItems items) atLeast text
  | .opening group :: items, text =>
    (matchItems items text).map fun capture ↦
      if group = 1 then { capture with recording := false } else capture
  | .closing group :: items, text =>
    (matchItems items text).map fun capture ↦
      if group = 1 then { capture with group := [], recording := true } else capture

/-- The name that a match stands for, and the length of the match. -/
def Pattern.match? (pattern : Pattern) (text : List Char) : Option (List Char × Nat) :=
  (matchItems pattern.items text).map fun capture ↦
    (if pattern.grouped then capture.group else capture.taken, capture.taken.length)

end CommandLine.Macro
