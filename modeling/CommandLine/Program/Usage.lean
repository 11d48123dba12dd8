import CommandLine.Dialect
import CommandLine.Program.Command

/-!
Reading the words that the program is called with. Options may stand anywhere behind the name of the
command, until two dashes end them; what is left are the arguments.
-/

set_option autoImplicit false

namespace CommandLine.Program

inductive UsageError
  | noCommand
  | unknownCommand (name : String)
  | unknownOption (option : String)
  | missingValue (option : String)
  | unexpectedValue (option : String)
  | missingArgument (name : String)
  | extraArgument (word : String)
  deriving DecidableEq, Repr

def UsageError.message : UsageError → String
  | noCommand => "Missing command."
  | unknownCommand name => "No such command '" ++ name ++ "'."
  | unknownOption option => "No such option: " ++ option
  | missingValue option => "Option '" ++ option ++ "' requires an argument."
  | unexpectedValue option => "Option '" ++ option ++ "' does not take a value."
  | missingArgument name => "Missing argument '" ++ name ++ "'."
  | extraArgument word => "Got unexpected extra argument (" ++ word ++ ")"

/-- An option: its long name, its letter if it has one, and whether a value belongs to it. -/
structure OptionForm where
  long : String
  letter : Option Char
  hasValue : Bool

def directoryForm : OptionForm := ⟨"--dir", none, true⟩
def dialectForm : OptionForm := ⟨"--dialect", some 'd', true⟩
def variableForm : OptionForm := ⟨"--var", some 'e', true⟩
def environmentForm : OptionForm := ⟨"--env", none, false⟩
def workingForm : OptionForm := ⟨"--pwd", none, true⟩
def forceForm : OptionForm := ⟨"--force", none, false⟩
def strictForm : OptionForm := ⟨"--abort-on-meta", none, false⟩
def macroForm : OptionForm := ⟨"--macro", some 'm', true⟩
def macroFileForm : OptionForm := ⟨"--macros-file", none, true⟩

/-- What is given: options with their values, by their long names, and arguments. -/
structure Given where
  options : List (String × String)
  words : List String

namespace Given

def empty : Given := ⟨[], []⟩

def option (given : Given) (form : OptionForm) (value : String) : Given :=
  { given with options := (form.long, value) :: given.options }

def has (given : Given) (form : OptionForm) : Bool :=
  given.options.any (·.1 == form.long)

/-- The values of an option, in order. -/
def values (given : Given) (form : OptionForm) : List String :=
  (given.options.filter (·.1 == form.long)).map (·.2)

/-- The last value of an option. -/
def last? (given : Given) (form : OptionForm) : Option String := (given.values form).getLast?

end Given

/-- An option as it is written: its name, and the value that is written along with it. -/
def written? (word : List Char) : Option (String × Option String) :=
  match word with
  | '-' :: '-' :: _ :: _ =>
    match word.span (· != '=') with
    | (name, _ :: value) => some (String.ofList name, some (String.ofList value))
    | (name, []) => some (String.ofList name, none)
  | '-' :: letter :: [] => some (String.ofList ['-', letter], none)
  | '-' :: letter :: value => some (String.ofList ['-', letter], some (String.ofList value))
  | _ => none

/-- The form of a written option. -/
def form? (forms : List OptionForm) (name : String) : Option OptionForm :=
  forms.find? fun form ↦
    name == form.long || (form.letter.map fun letter ↦ String.ofList ['-', letter]) == some name

/-- Sorts words into options and arguments. `waiting` is the option that the next word belongs to. -/
def sortWords (forms : List OptionForm) (waiting : Option OptionForm) :
    List String → Except UsageError Given
  | [] =>
    match waiting with
    | some form => .error (.missingValue form.long)
    | none => .ok .empty
  | word :: rest =>
    match waiting with
    | some form => (sortWords forms none rest).map (·.option form word)
    | none =>
      if word = "--" then .ok ⟨[], rest⟩
      else
        match written? word.toList with
        | none =>
          (sortWords forms none rest).map fun given ↦ { given with words := word :: given.words }
        | some (name, value) =>
          match form? forms name with
          | none => .error (.unknownOption name)
          | some form =>
            match form.hasValue, value with
            | true, some value => (sortWords forms none rest).map (·.option form value)
            | true, none => sortWords forms (some form) rest
            | false, none => (sortWords forms none rest).map (·.option form "")
            | false, some _ => .error (.unexpectedValue name)

/-- The forms of a command's options besides those for the directory and the dialect. -/
def formsOf : String → Option (List OptionForm)
  | "init" => some [forceForm]
  | "split" => some [strictForm, environmentForm, variableForm, workingForm]
  | "quote" | "args" => some []
  | "expand" => some [macroForm, macroFileForm]
  | "prepare" => some [environmentForm, variableForm, workingForm]
  | _ => none

/-- The only argument of a command. -/
def onlyWord (name : String) : List String → Except UsageError (List Char)
  | [word] => .ok word.toList
  | [] => .error (.missingArgument name)
  | _ :: extra :: _ => .error (.extraArgument extra)

def variablesOf (given : Given) : Variables :=
  ⟨given.has environmentForm, (given.values variableForm).map String.toList,
    (given.last? workingForm).map String.toList⟩

def commandOf (name : String) (given : Given) : Except UsageError Command :=
  match name, given.words with
  | "init", [] => .ok (.init (given.has forceForm))
  | "init", extra :: _ => .error (.extraArgument extra)
  | "split", words => do
    return .split (← onlyWord "TEXT" words) (given.has strictForm) (variablesOf given)
  | "quote", [] => .error (.missingArgument "WORDS...")
  | "quote", words => .ok (.quote (words.map String.toList))
  | "args", words => return .walk (← onlyWord "TEXT" words)
  | "expand", words => do
    return .expand (← onlyWord "TEXT" words) ((given.values macroForm).map String.toList)
      ((given.last? macroFileForm).map fun file ↦ .ofText file.toList)
  | "prepare", [] => .error (.missingArgument "EXECUTABLE")
  | "prepare", [program] => .ok (.prepare program.toList [] (variablesOf given))
  | "prepare", [program, arguments] =>
    .ok (.prepare program.toList arguments.toList (variablesOf given))
  | "prepare", _ :: _ :: extra :: _ => .error (.extraArgument extra)
  | name, _ => .error (.unknownCommand name)

/-- The request that words make, in a working directory. -/
def Request.ofWords (working : Files.Path) : List String → Except UsageError Request
  | "--version" :: _ | "-v" :: _ => .ok ⟨.version true, working, none⟩
  | "--debug" :: rest => ofWords working rest
  | [] => .error .noCommand
  | name :: rest =>
    match formsOf name with
    | none => .error (.unknownCommand name)
    | some forms => do
      let given ← sortWords (directoryForm :: dialectForm :: forms) none rest
      let command ← commandOf name given
      let command : Command :=
        match command with
        | .expand line assignments file => .expand line assignments (file.map working.join)
        | command => command
      let missing := if name = "init" then some Dialect.automatic else none
      return ⟨command, working.join (.ofText ((given.last? directoryForm).getD ".").toList),
        (given.last? dialectForm).or missing⟩

end CommandLine.Program
