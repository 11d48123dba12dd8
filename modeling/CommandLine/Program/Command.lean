import CommandLine.Table
import CommandLine.Files.Path

/-!
The commands of the program.
-/

set_option autoImplicit false

namespace CommandLine.Program

/-- Where the variables of a line come from: the environment of the process, if it is used, and
assignments; and the working directory, if it is told. -/
structure Variables where
  fromProcess : Bool
  assignments : List (List Char)
  directory : Option (List Char)
  deriving DecidableEq, Repr

inductive Command
  /-- Shows the version, where that is asked for. -/
  | version (asked : Bool)
  /-- Writes the settings of a directory, over those that are there, or afresh. -/
  | init (afresh : Bool)
  | split (line : List Char) (strict : Bool) (sources : Variables)
  | quote (words : List (List Char))
  /-- Walks the arguments of a line. -/
  | walk (line : List Char)
  | expand (line : List Char) (assignments : List (List Char)) (file : Option Files.Path)
  | prepare (program arguments : List Char) (sources : Variables)
  deriving DecidableEq, Repr

/-- A command with the directory and the dialect that it is for. -/
structure Request where
  command : Command
  directory : Files.Path
  dialect : Option String
  deriving DecidableEq, Repr

end CommandLine.Program
