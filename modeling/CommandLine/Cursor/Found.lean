/-!
What a cursor finds when it moves on: whether there is an argument, its value, and what follows.
-/

set_option autoImplicit false

namespace CommandLine.Cursor

/-- The outcome of moving on. An argument is simple if its value does not depend on expansion; the
value of any other is left empty. -/
structure Found where
  success : Bool
  rest : List Char
  value : List Char
  simple : Bool
  deriving DecidableEq, Repr

end CommandLine.Cursor
