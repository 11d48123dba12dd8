/-!
Why macros cannot be put into a line so that their values stay literal.
-/

set_option autoImplicit false

namespace CommandLine.Macro

inductive Failure
  /-- A token of the shell's language reaches into the macro that starts at the offset. -/
  | insideToken (offset : Nat)
  | afterBackslash
  | afterDollar
  | unterminatedBackquote
  /-- The closing character at the offset closes nothing. -/
  | unbalanced (c : Char) (offset : Nat)
  /-- A construct ends of which none is open. -/
  | nothingOpen
  | afterCircumflex
  | outOfStep
  | quotedAfterQuoted
  | quotedAfterClosing
  | openingAfterQuoted
  deriving DecidableEq, Repr

def Failure.message : Failure → String
  | insideToken offset => "macro at offset " ++ toString offset ++ " is part of a shell token"
  | afterBackslash => "macro follows a backslash"
  | afterDollar => "macro follows a '$'"
  | unterminatedBackquote => "unterminated backtick expression"
  | unbalanced c offset =>
    "unbalanced '" ++ String.singleton c ++ "' at offset " ++ toString offset
  | nothingOpen => "a construct ends that is not open"
  | afterCircumflex => "macro is escaped with a circumflex"
  | outOfStep => "cmd and argv quoting are out of sync"
  | quotedAfterQuoted => "quoted macro right after another quoted macro"
  | quotedAfterClosing => "quoted macro right after a closing quote"
  | openingAfterQuoted => "opening quote right after a quoted macro"

end CommandLine.Macro
