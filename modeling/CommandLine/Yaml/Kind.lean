import CommandLine.Text.Hex

/-!
Kinds of YAML values. A tag names the kind of a node; the kind of a plain scalar without one is told
by the form of its text.
-/

set_option autoImplicit false

namespace CommandLine.Yaml

inductive Kind
  | null
  | bool
  | int
  | float
  | binary
  | timestamp
  | orderedMap
  | pairs
  | set
  | text
  | sequence
  | mapping
  /-- A key whose value is merged into the mapping around it. -/
  | merge
  /-- A key for the scalar that stands for a mapping. -/
  | value
  | unknown
  deriving DecidableEq, Repr

namespace Kind

/-- The part that the tags of all kinds start with. -/
def stem : List Char := "tag:yaml.org,2002:".toList

/-- The kind of a tag. -/
def ofTag (tag : List Char) : Kind :=
  if tag.take stem.length = stem then
    match String.ofList (tag.drop stem.length) with
    | "null" => null
    | "bool" => bool
    | "int" => int
    | "float" => float
    | "binary" => binary
    | "timestamp" => timestamp
    | "omap" => orderedMap
    | "pairs" => pairs
    | "set" => set
    | "str" => text
    | "seq" => sequence
    | "map" => mapping
    | "merge" => merge
    | "value" => value
    | _ => unknown
  else unknown

/-- A kind of values that hold others. -/
def isCollection : Kind → Bool
  | orderedMap | pairs | set | sequence | mapping => true
  | _ => false

/-! ### Forms of plain scalars -/

def isSign (c : Char) : Bool := c == '+' || c == '-'

/-- A text without a sign in front. -/
def unsigned (text : List Char) : List Char :=
  match text with
  | c :: rest => if isSign c then rest else text
  | [] => []

def isDigitOrGap (c : Char) : Bool := c.isDigit || c == '_'

/-- A digit and then digits and underscores. -/
def isNumeral : List Char → Bool
  | c :: rest => c.isDigit && rest.all isDigitOrGap
  | [] => false

/-- The runs of a text between colons. -/
def colonParts (text : List Char) : List (List Char) :=
  text.foldr
    (fun c parts ↦
      if c = ':' then [] :: parts
      else
        match parts with
        | [] => [[c]]
        | part :: rest => (c :: part) :: rest)
    [[]]

/-- A number of minutes or seconds. -/
def isSixtieth : List Char → Bool
  | [c] => c.isDigit
  | [c, d] => '0' ≤ c && c ≤ '5' && d.isDigit
  | _ => false

/-- A numeral of the base sixty: digits, and then parts behind colons. -/
def isSexagesimal (text : List Char) : Bool :=
  match colonParts text with
  | first :: second :: rest => isNumeral first && (second :: rest).all isSixtieth
  | _ => false

def isBinaryDigit (c : Char) : Bool := c == '0' || c == '1' || c == '_'
def isOctalDigit (c : Char) : Bool := ('0' ≤ c && c ≤ '7') || c == '_'
def isHexDigit (c : Char) : Bool := (Text.hexValue? c).isSome || c == '_'

/-- The form of integers: binary, octal, hexadecimal, decimal, or of the base sixty. -/
def isInt (text : List Char) : Bool :=
  match unsigned text with
  | ['0'] => true
  | '0' :: 'b' :: rest => !rest.isEmpty && rest.all isBinaryDigit
  | '0' :: 'x' :: rest => !rest.isEmpty && rest.all isHexDigit
  | '0' :: rest => rest.all isOctalDigit
  | digits => isNumeral digits || isSexagesimal digits

/-- An exponent with its sign, or none. -/
def isExponent : List Char → Bool
  | [] => true
  | mark :: sign :: digits =>
    (mark == 'e' || mark == 'E') && isSign sign && !digits.isEmpty && digits.all Char.isDigit
  | _ => false

/-- Digits and underscores, and an exponent. -/
def isFraction (text : List Char) : Bool := isExponent (text.dropWhile isDigitOrGap)

def infinityWords : List String := ["inf", "Inf", "INF"]

def nanWords : List String := ["nan", "NaN", "NAN"]

/-- The form of floating-point numbers. Without a sign the digits in front of the point may be left
out. -/
def isFloat (text : List Char) : Bool :=
  (match text with
    | '.' :: c :: rest =>
      (c.isDigit && isFraction rest) || nanWords.contains (String.ofList (c :: rest))
    | _ => false) ||
  (match unsigned text with
    | '.' :: rest => infinityWords.contains (String.ofList rest)
    | digits =>
      let whole := digits.takeWhile (· != '.')
      match digits.drop whole.length with
      | _ :: rest =>
        (isNumeral whole && isFraction rest) || (isSexagesimal whole && rest.all isDigitOrGap)
      | [] => false)

/-- The text behind exactly as many digits as are asked for. -/
def behindDigits (count : Nat) (text : List Char) : Option (List Char) :=
  let digits := text.take count
  if digits.length = count ∧ digits.all Char.isDigit then some (text.drop count) else none

/-- The text behind one or two digits. -/
def behindShort (text : List Char) : Option (List Char) :=
  match behindDigits 2 text with
  | some rest => some rest
  | none => behindDigits 1 text

/-- The text behind a character. -/
def behind (c : Char) : List Char → Option (List Char)
  | [] => none
  | d :: rest => if c = d then some rest else none

def isYmd (text : List Char) : Bool :=
  (do behindDigits 2 (← behind '-' (← behindDigits 2 (← behind '-' (← behindDigits 4 text)))))
    == some []

/-- An offset from universal time, which may be left out. -/
def isZone (text : List Char) : Bool :=
  match text.dropWhile fun c ↦ c == ' ' || c == '\t' with
  | [] => text.isEmpty
  | ['Z'] => true
  | sign :: rest =>
    isSign sign &&
      match behindShort rest with
      | some [] => true
      | some (':' :: rest) => behindDigits 2 rest == some []
      | _ => false

/-- A time of day with an optional fraction and offset. -/
def isTime (text : List Char) : Bool :=
  let clock := do
    behindDigits 2 (← behind ':' (← behindDigits 2 (← behind ':' (← behindShort text))))
  match clock with
  | some ('.' :: rest) => isZone (rest.dropWhile Char.isDigit)
  | some rest => isZone rest
  | none => false

/-- A date and a time of day. -/
def isDateTime (text : List Char) : Bool :=
  let date := do
    behindShort (← behind '-' (← behindShort (← behind '-' (← behindDigits 4 text))))
  match date with
  | some (c :: rest) =>
    ((c == 'T' || c == 't') && isTime rest) ||
      ((c == ' ' || c == '\t') && isTime (rest.dropWhile fun c ↦ c == ' ' || c == '\t'))
  | _ => false

def isTimestamp (text : List Char) : Bool := isYmd text || isDateTime text

def boolWords : List String :=
  ["yes", "Yes", "YES", "no", "No", "NO", "true", "True", "TRUE", "false", "False", "FALSE", "on",
    "On", "ON", "off", "Off", "OFF"]

def nullWords : List String := ["", "~", "null", "Null", "NULL"]

/-- The kind of a plain scalar. -/
def ofPlain (text : List Char) : Kind :=
  let word := String.ofList text
  if boolWords.contains word then bool
  else if isFloat text then float
  else if isInt text then int
  else if word = "<<" then merge
  else if nullWords.contains word then null
  else if isTimestamp text then timestamp
  else if word = "=" then value
  else Kind.text

end Kind

end CommandLine.Yaml
