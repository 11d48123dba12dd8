import CommandLine.Macro.File
import CommandLine.Settings.Basic

/-!
What a run of the program shows and leaves behind.
-/

set_option autoImplicit false

namespace CommandLine.Program

inductive Output
  | print (text : List Char)
  /-- The result of a command, to be used as it is. -/
  | echo (text : List Char)
  | table (title : List Char) (columns : List (List Char)) (rows : List (List (List Char)))
  | panel (title text : List Char)
  deriving DecidableEq, Repr

/-- The output of a run, its exit code, and the files behind it. -/
structure Report where
  output : List Output
  exitCode : Nat
  tree : Files.Tree
  deriving DecidableEq

/-- A failure that no output tells of. -/
inductive Failure
  | settings (error : Settings.Error)
  | macros (error : Macro.FileError)
  deriving DecidableEq

def Failure.message : Failure → String
  | settings error => error.message
  | macros error => error.message

/-- What ends a command early: an exit behind output that says why, or a failure. -/
inductive Stop
  | exit (output : List Output)
  | failure (failure : Failure)
  deriving DecidableEq

end CommandLine.Program
