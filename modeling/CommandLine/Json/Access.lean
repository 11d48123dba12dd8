import CommandLine.Json.Basic

/-!
What a value cannot give because of its kind: only objects have members, only objects and arrays can
be copied, and arrays have no keys.
-/

set_option autoImplicit false

namespace CommandLine.Json

inductive AccessError
  | noCopy (kind : Kind)
  | noItems (kind : Kind)
  | noLookup (kind : Kind)
  /-- A key was put into an array. -/
  | noKeys
  deriving DecidableEq, Repr

namespace AccessError

def lacking (kind : Kind) (name : String) : String :=
  "'" ++ kind.name ++ "' object has no attribute '" ++ name ++ "'"

def message : AccessError → String
  | noCopy kind => lacking kind "copy"
  | noItems kind => lacking kind "items"
  | noLookup kind => lacking kind "get"
  | noKeys => "list indices must be integers or slices, not str"

end AccessError

/-- The members of an object; any other value gives the error for its kind. -/
def members (error : Kind → AccessError) : Json → Except AccessError Members
  | object members => .ok members
  | value => .error (error value.kind)

end CommandLine.Json
