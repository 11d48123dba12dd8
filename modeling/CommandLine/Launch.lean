import CommandLine.Line
import CommandLine.Notice
import CommandLine.Text.Quoted

/-!
Launching a command. Programs receive their arguments in native form, on Windows as one line and on
Unix as a list of words. A command whose arguments need a shell is handed to one; a command whose
quoting is bad is not launched at all.
-/

set_option autoImplicit false

namespace CommandLine

/-- Arguments in the form in which a program receives them. -/
inductive NativeArgs
  | line (text : List Char)
  | words (words : List Word)
  deriving DecidableEq, Repr

/-- Why arguments cannot be had in the form in which they are wanted. -/
inductive NativeArgsError
  | holdsWords
  | holdsLine
  /-- Neither or both of the forms are given. -/
  | notOneForm
  deriving DecidableEq, Repr

def NativeArgsError.message : NativeArgsError → String
  | holdsWords => "CommandArgs holds a Unix word list"
  | holdsLine => "CommandArgs holds a Windows command line"
  | notOneForm => "exactly one of windows_args and unix_args is required"

namespace NativeArgs

/-- Arguments that are given in one of the two forms. -/
def ofForms (line? : Option (List Char)) (words? : Option (List Word)) :
    Except NativeArgsError NativeArgs :=
  match line?, words? with
  | some text, none => .ok (line text)
  | none, some list => .ok (words list)
  | _, _ => .error .notOneForm

/-- No arguments. -/
def empty : Dialect → NativeArgs
  | .windows => line []
  | .unix => words []

def isLine : NativeArgs → Bool
  | line _ => true
  | words _ => false

def asLine : NativeArgs → Except NativeArgsError (List Char)
  | line text => .ok text
  | words _ => .error .holdsWords

def asWords : NativeArgs → Except NativeArgsError (List Word)
  | line _ => .error .holdsLine
  | words list => .ok list

/-- The arguments as one line. -/
def asText : NativeArgs → List Char
  | line text => text
  | words list => Dialect.unix.join list

/-- The displayed form of arguments. -/
def display : NativeArgs → String
  | line text => "CommandArgs(windows_args=" ++ String.ofList (Text.quoted text) ++ ")"
  | words list =>
    "CommandArgs(unix_args=" ++ String.ofList (Text.bracketed (list.map Text.quoted)) ++ ")"

end NativeArgs

/-- The native form of a line of arguments. A Windows program takes its line apart itself, which has
to be possible. -/
def Dialect.nativeArgs (dialect : Dialect) (strict : Bool) (surroundings : Surroundings)
    (line : List Char) : Except Refusal NativeArgs :=
  match dialect with
  | .unix => (Unix.split strict surroundings line).map .words
  | .windows => do
    let received ← Windows.prepare surroundings line
    let _ ← Windows.arguments received
    return .line received

/-- How a command is to be launched. -/
inductive Launch
  | direct (args : NativeArgs)
  | throughShell (shell : List Char) (args : NativeArgs)
  | refused (refusal : Refusal)
  deriving DecidableEq, Repr

/-- The shell that runs a command: the one that is asked for, else the one that the process has in
its environment, else the usual one. An empty name does not count. -/
def Dialect.shell (dialect : Dialect) (asked : Option (List Char))
    (process : Table (List Char) (List Char)) : List Char :=
  let named (name : Option (List Char)) := name.filter (!·.isEmpty)
  match dialect with
  | .unix =>
    (named asked <|> named (process.get? "SHELL".toList)).getD "/bin/sh".toList
  | .windows =>
    (named asked <|> named (process.get? "COMSPEC".toList)).getD "cmd.exe".toList

/-- The arguments that make a shell run a command. -/
def Dialect.shellArgs (dialect : Dialect) (program arguments : List Char) : NativeArgs :=
  match dialect with
  | .unix => .words ["-c".toList, Unix.quote program ++ ' ' :: arguments]
  | .windows =>
    .line ("/v:off /s /c \"".toList ++ Windows.quote (Windows.nativeSeparators program) ++
      ' ' :: arguments ++ ['"'])

/-- How to launch a program with a line of arguments. -/
def Dialect.launch (dialect : Dialect) (surroundings : Surroundings)
    (process : Table (List Char) (List Char)) (shell : Option (List Char))
    (program arguments : List Char) : Launch :=
  match dialect.nativeArgs true surroundings arguments with
  | .ok args => .direct args
  | .error .foundMeta =>
    .throughShell (dialect.shell shell process) (dialect.shellArgs program arguments)
  | .error refusal => .refused refusal

namespace Launch

/-- The arguments of a command that is launched. -/
def args? : Launch → Option NativeArgs
  | direct args | throughShell _ args => some args
  | refused _ => none

/-- Why the arguments could not be handed over as words, if they could not. -/
def refusal? : Launch → Option Refusal
  | direct _ => none
  | throughShell .. => some .foundMeta
  | refused refusal => some refusal

/-- The program that is started, when `program` is wanted. -/
def executable (program : List Char) : Launch → List Char
  | throughShell shell _ => shell
  | direct _ | refused _ => program

def isThroughShell : Launch → Bool
  | throughShell .. => true
  | direct _ | refused _ => false

/-- What there is to report on the launch of `program`. -/
def notices (program : List Char) : Launch → List Notice
  | direct _ => []
  | throughShell shell _ => [.fellBack shell program]
  | refused refusal => [.refused program refusal]

end Launch

end CommandLine
