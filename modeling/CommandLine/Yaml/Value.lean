import CommandLine.Decimal.Text
import CommandLine.Decimal.Arithmetic
import CommandLine.Text.Quoted
import CommandLine.Yaml.Moment

/-!
YAML values and their texts. Collections are numbered; a link shows the collection of its number,
unless it stands inside of it.
-/

set_option autoImplicit false

namespace CommandLine.Yaml

/-- A value that is not a collection. -/
inductive Scalar
  | null
  | bool (value : Bool)
  | int (value : Int)
  | float (value : Decimal.Binary64)
  | text (text : List Char)
  | octets (octets : List UInt8)
  | moment (moment : Moment)
  deriving DecidableEq

namespace Scalar

/-- The number that a scalar is, where it is a whole one. -/
def whole? : Scalar → Option Int
  | bool value => some (if value then 1 else 0)
  | int value => some value
  | float value => value.toInt?
  | _ => none

/-- Two scalars are the same key. Numbers are compared by their value, and what is not a number is
no number's equal, not even its own. -/
def isSameKey (first second : Scalar) : Bool :=
  match first.whole?, second.whole? with
  | some first, some second => first = second
  | none, none =>
    first = second &&
      match first with
      | float value => !value.isNaN
      | _ => true
  | _, _ => false

/-! ### Texts -/

/-- An octet in a row of octets between `mark`s. -/
def octetText (mark : Char) (octet : UInt8) : List Char :=
  let c := Char.ofNat octet.toNat
  if octet.toNat < 0x20 ∨ 0x7F ≤ octet.toNat then
    if c = '\t' then ['\\', 't']
    else if c = '\n' then ['\\', 'n']
    else if c = '\r' then ['\\', 'r']
    else ['\\', 'x'] ++ Text.hex 2 octet.toNat
  else if c = mark ∨ c = '\\' then ['\\', c]
  else [c]

def octetsText (octets : List UInt8) : List Char :=
  let mark := Text.delimiter (octets.map fun octet ↦ Char.ofNat octet.toNat)
  'b' :: mark :: octets.flatMap (octetText mark) ++ [mark]

/-- A scalar as it is shown inside a list or mapping. -/
def display : Scalar → List Char
  | null => "None".toList
  | bool value => (if value then "True" else "False").toList
  | int value => (toString value).toList
  | float value => (Decimal.text Decimal.plainLayout value).toList
  | text chars => Text.quoted chars
  | octets row => octetsText row
  | moment time => time.display.toList

/-- A scalar as it is shown by itself. -/
def alone : Scalar → List Char
  | text chars => chars
  | moment time => time.text.toList
  | scalar => scalar.display

end Scalar

inductive Value
  | scalar (scalar : Scalar)
  | list (number : Nat) (items : List Value)
  | mapping (number : Nat) (members : List (Scalar × Value))
  | set (number : Nat) (members : List Scalar)
  /-- A list of pairs of keys and values. -/
  | pairs (number : Nat) (members : List (Value × Value))
  | link (number : Nat)

namespace Value

/-- Puts a value under a key. The same key keeps its place and its first form. -/
def put (members : List (Scalar × Value)) (key : Scalar) (value : Value) : List (Scalar × Value) :=
  match members with
  | [] => [(key, value)]
  | (k, v) :: rest => if k.isSameKey key then (k, value) :: rest else (k, v) :: put rest key value

/-- The value under a key. -/
def get? (members : List (Scalar × Value)) (key : Scalar) : Option Value :=
  (members.find? fun member ↦ member.1.isSameKey key).map (·.2)

/-- What a link leads to among collections. -/
def follow (collections : List (Nat × Value)) : Value → Value
  | link number => ((collections.find? (·.1 = number)).map (·.2)).getD (.link number)
  | value => value

/-- What stands for a collection inside of itself. -/
def ellipsis : Value → List Char
  | mapping .. => "\x7b...\x7d".toList
  | set .. => "set(...)".toList
  | _ => "[...]".toList

def separator : List Char := [',', ' ']

mutual

/-- A value as it is shown inside the collections with the numbers `outer`. The fuel bounds the links
that are followed one inside the other. -/
def display (collections : List (Nat × Value)) (fuel : Nat) (outer : List Nat) :
    Value → List Char
  | .scalar value => value.display
  | .list number items =>
    if outer.contains number then "[...]".toList
    else '[' :: displayItems collections fuel (number :: outer) items ++ [']']
  | .mapping number members =>
    if outer.contains number then "\x7b...\x7d".toList
    else '\x7b' :: displayMembers collections fuel (number :: outer) members ++ ['\x7d']
  | .set _ members =>
    if members.isEmpty then "set()".toList
    else '\x7b' :: List.intercalate separator (members.map Scalar.display) ++ ['\x7d']
  | .pairs number members =>
    if outer.contains number then "[...]".toList
    else '[' :: displayPairs collections fuel (number :: outer) members ++ [']']
  | .link number =>
    let target := follow collections (.link number)
    match fuel with
    | 0 => ellipsis target
    | fuel + 1 =>
      if outer.contains number then ellipsis target else display collections fuel outer target
termination_by value => (fuel, sizeOf value)

def displayItems (collections : List (Nat × Value)) (fuel : Nat) (outer : List Nat)
    (items : List Value) : List Char :=
  match items with
  | [] => []
  | [item] => item.display collections fuel outer
  | item :: rest =>
    item.display collections fuel outer ++ separator ++ displayItems collections fuel outer rest
termination_by (fuel, sizeOf items)

def displayMembers (collections : List (Nat × Value)) (fuel : Nat) (outer : List Nat)
    (members : List (Scalar × Value)) : List Char :=
  match members with
  | [] => []
  | (key, value) :: rest =>
    key.display ++ [':', ' '] ++ value.display collections fuel outer ++
      (if rest.isEmpty then [] else separator) ++ displayMembers collections fuel outer rest
termination_by (fuel, sizeOf members)

def displayPairs (collections : List (Nat × Value)) (fuel : Nat) (outer : List Nat)
    (members : List (Value × Value)) : List Char :=
  match members with
  | [] => []
  | (key, value) :: rest =>
    '(' :: key.display collections fuel outer ++ separator ++
      value.display collections fuel outer ++ [')'] ++
      (if rest.isEmpty then [] else separator) ++ displayPairs collections fuel outer rest
termination_by (fuel, sizeOf members)

end

/-- A value of a document as it is shown by itself. -/
def text (collections : List (Nat × Value)) : Value → List Char
  | .scalar value => value.alone
  | value => value.display collections (collections.length + 1) []

end Value

/-- A document: its value, and the collections that links in it lead to. -/
structure Document where
  root : Value
  collections : List (Nat × Value)

namespace Document

/-- What a value of a document stands for. -/
def follow (document : Document) (value : Value) : Value := value.follow document.collections

/-- A value of a document as it is shown by itself. -/
def text (document : Document) (value : Value) : List Char := value.text document.collections

end Document

end CommandLine.Yaml
