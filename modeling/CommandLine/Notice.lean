import CommandLine.Dialect
import CommandLine.Macro.Failure

/-!
What the library reports to its log besides its answers.
-/

set_option autoImplicit false

namespace CommandLine

inductive Level
  | debug
  | warning
  deriving DecidableEq, Repr

def Level.name : Level → String
  | .debug => "DEBUG"
  | .warning => "WARNING"

inductive Notice
  /-- Macros were put into a line that ends with this many constructs open. -/
  | openContexts (count : Nat)
  | expansionFailed (failure : Macro.Failure) (line : List Char)
  | refused (program : List Char) (refusal : Refusal)
  | fellBack (shell program : List Char)
  | unreadableSettings (path : String)
  | missingMacros (path : String)
  | malformedMacros (path cause : String)
  | noMapping (path : String)
  deriving DecidableEq, Repr

namespace Notice

def level : Notice → Level
  | openContexts _ | expansionFailed .. | refused .. | fellBack .. => .debug
  | unreadableSettings _ | missingMacros _ | malformedMacros .. | noMapping _ => .warning

def message : Notice → String
  | openContexts count =>
    "Command line ends inside " ++ toString count ++ " open shell context(s)"
  | expansionFailed failure line =>
    "Macro expansion failed (" ++ failure.message ++ "): " ++ String.ofList line
  | refused program refusal =>
    "Refusing to prepare " ++ String.ofList program ++ ": " ++ refusal.name
  | fellBack shell program =>
    "Falling back to " ++ String.ofList shell ++ " for " ++ String.ofList program
  | unreadableSettings path => "Ignoring unreadable config " ++ path ++ ", using defaults"
  | missingMacros path => "Macro file not found: " ++ path
  | malformedMacros path cause => "Failed to parse macro file " ++ path ++ ": " ++ cause
  | noMapping path => "Macro file " ++ path ++ " does not contain a mapping"

end Notice

end CommandLine
