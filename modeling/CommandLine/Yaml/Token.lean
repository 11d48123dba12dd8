/-!
The tokens of a YAML text.
-/

set_option autoImplicit false

namespace CommandLine.Yaml

inductive Directive
  | version (major : Nat)
  /-- An abbreviation for the first part of tags. -/
  | handle (name stem : List Char)
  | other
  deriving DecidableEq, Repr

inductive Token
  | directive (directive : Directive)
  | documentStart
  | documentEnd
  | blockSequence
  | blockMapping
  | blockEnd
  | openSequence
  | closeSequence
  | openMapping
  | closeMapping
  | blockEntry
  | comma
  | key
  | value
  | alias (name : List Char)
  | anchor (name : List Char)
  /-- A tag, whole or behind a handle. -/
  | tag (handle : Option (List Char)) (suffix : List Char)
  | scalar (plain : Bool) (text : List Char)
  deriving DecidableEq, Repr

end CommandLine.Yaml
