import CommandLine.Cursor.Basic
import CommandLine.Launch
import CommandLine.Macro.Expansion
import CommandLine.Platform
import CommandLine.Program.Command
import CommandLine.Program.Output
import CommandLine.Settings.Store
import CommandLine.Settings.Use

/-!
Running a command against the files and the environment that a host has.
-/

set_option autoImplicit false

namespace CommandLine.Program

/-- What a run finds around it: the platform, the files, the name of the operating system, the
environment of the process, and the home directory. -/
structure Host where
  platform : Platform
  tree : Files.Tree
  system : String
  environment : Table (List Char) (List Char)
  home : List Char

abbrev Run (α : Type) := Except Stop α

/-- Ends with output. -/
def exit {α : Type} (output : List Output) : Run α := .error (.exit output)

def orFail {α : Type} (found : Except Settings.Error α) : Run α :=
  found.mapError fun error ↦ .failure (.settings error)

def line (text : String) : Output := .print text.toList

def version : String := "0.1.0"

/-! ### Settings -/

def faultLines (margin : String) (faults : List Settings.Fault) : List Output :=
  faults.map fun fault ↦ line (margin ++ "Config error: " ++ fault.message)

/-- The setting for a dialect, null where none is asked for. -/
def dialectSetting (dialect : Option String) : Json := (dialect.map .string).getD .null

/-- What is asked for of settings by the dialect of a request. -/
def asked (dialect : Option String) : Json :=
  .object (.cons Settings.dialectKey (dialectSetting dialect) .nil)

/-- The settings for a request, without faults, and the dialect that they ask for. -/
def loadSettings (host : Host) (request : Request) : Run (Settings × Dialect) := do
  let (settings, _) ← orFail
    (Settings.load host.platform.limits host.tree request.directory (asked request.dialect))
  let faults ← orFail (settings.faults host.platform.compile)
  if !faults.isEmpty then exit (faultLines "" faults)
  let dialect ← orFail ((settings.dialect host.system).mapError Settings.Error.dialect)
  return (settings, dialect)

/-- The settings that are written for a directory: those that are there put over the defaults, or
the defaults. -/
def initialSettings (limits : Json.Limits) (tree : Files.Tree) (path : Files.Path)
    (afresh : Bool) : Run (Settings × Output) :=
  if tree.contains path && !afresh then do
    let stored ← orFail (Settings.readJson limits tree path)
    let merged ← orFail (Settings.mergeValue Settings.default stored)
    return (merged, line "  Merged with existing config")
  else .ok (Settings.default, line "  Created default config")

/-! ### Variables -/

/-- The name and the value of an assignment. -/
def assignment? (text : List Char) : Option (List Char × List Char) :=
  match text.span (· != '=') with
  | ([], _) | (_, []) => none
  | (name, _ :: value) => some (name, value)

/-- The table that assignments of macros or variables make up. -/
def assigned (what : String) (assignments : List (List Char)) :
    Run (Table (List Char) (List Char)) :=
  assignments.foldlM
    (fun table text ↦
      match assignment? text with
      | some (name, value) => .ok (table.put name value)
      | none =>
        exit [line ("Invalid " ++ what ++ " '" ++ String.ofList text ++ "' (expected NAME=VALUE)")])
    []

/-- The environment to take variables from, if there is one. -/
def environment (host : Host) (sources : Variables) (dialect : Dialect) :
    Run (Option Environment) :=
  if !sources.fromProcess && sources.assignments.isEmpty then .ok none
  else do
    let process := if sources.fromProcess then host.environment else []
    let values ← assigned "variable" sources.assignments
    return some (values.foldl (fun environment (name, value) ↦ environment.set name value)
      (Environment.forDialect dialect process))

def surroundings (host : Host) (sources : Variables) (dialect : Dialect) : Run Surroundings :=
  return ⟨← environment host sources dialect, sources.directory, host.home⟩

/-! ### Commands -/

def number (index : Nat) : List Char := (toString index).toList

/-- Writes the settings of a directory, with the dialect set. -/
def init (host : Host) (request : Request) (afresh : Bool) : Run (List Output × Files.Tree) := do
  let path := Settings.pathIn request.directory
  let (start, shown) ← initialSettings host.platform.limits host.tree path afresh
  let settings : Settings := start.put Settings.dialectKey (dialectSetting request.dialect)
  let faults ← orFail (settings.faults host.platform.compile)
  if !faults.isEmpty then exit (shown :: faultLines "  " faults)
  let tree ← orFail (Settings.save host.platform.limits host.tree request.directory settings)
  return ([shown, .panel "procargs".toList ("Config: ".toList ++ path.toText)], tree)

def split (host : Host) (request : Request) (text : List Char) (strict : Bool)
    (sources : Variables) : Run (List Output) := do
  let (_, dialect) ← loadSettings host request
  match dialect.split strict (← surroundings host sources dialect) text with
  | .error refusal => exit [line ("Split failed: " ++ refusal.name)]
  | .ok words =>
    return [.table ("Arguments (" ++ dialect.name ++ ")").toList ["#".toList, "Value".toList]
      (words.mapIdx fun index word ↦ [number index, Text.quoted word])]

def quote (host : Host) (request : Request) (words : List (List Char)) : Run (List Output) := do
  let (_, dialect) ← loadSettings host request
  return [.echo (dialect.join words)]

def walk (host : Host) (request : Request) (text : List Char) : Run (List Output) := do
  let (_, dialect) ← loadSettings host request
  return [.table "Arguments".toList ["#".toList, "Simple".toList, "Value".toList]
    ((Cursor.arguments dialect text).mapIdx fun index (value, simple) ↦
      if simple then [number index, "yes".toList, Text.quoted value]
      else [number index, "no".toList, "<needs expansion>".toList])]

/-- The values of macros: those of the settings, under those of a file, under those assigned. -/
def macroValues (host : Host) (settings : Settings) (assignments : List (List Char))
    (file : Option Files.Path) : Run (Table (List Char) (List Char)) := do
  let fromFile ←
    match file with
    | none => pure []
    | some path =>
      let (values, _) ← (Macro.load host.platform.document host.tree path).mapError
        fun error ↦ .failure (.macros error)
      pure values
  return (settings.macros.putAll fromFile).putAll (← assigned "macro" assignments)

def expand (host : Host) (request : Request) (text : List Char) (assignments : List (List Char))
    (file : Option Files.Path) : Run (List Output) := do
  let (settings, dialect) ← loadSettings host request
  let values ← macroValues host settings assignments file
  let expression ← orFail (settings.expression host.platform.compile)
  let expansion := Macro.expand dialect (expression.finder values) text
  if expansion.ok then return [.echo expansion.text]
  else exit [line ("Unsafe to expand: " ++ expansion.reason)]

/-- The lines that show the arguments of a launch. -/
def argumentLines : NativeArgs → List Output
  | .line text => [.print ("  Command line: ".toList ++ text)]
  | .words words =>
    words.mapIdx fun index word ↦
      .print ("  argv[".toList ++ number (index + 1) ++ "]: ".toList ++ Text.quoted word)

def prepare (host : Host) (request : Request) (program arguments : List Char)
    (sources : Variables) : Run (List Output) := do
  let (settings, dialect) ← loadSettings host request
  let around ← surroundings host sources dialect
  let shell := ((settings.shell? dialect).bind Settings.text?).map String.toList
  let launch := dialect.launch around host.environment shell program arguments
  match launch.args? with
  | none =>
    exit [line ("Cannot prepare command: " ++ (launch.refusal?.map Refusal.name).getD "")]
  | some args =>
    return line ("  Mode: " ++ if launch.isThroughShell then "shell" else "direct") ::
      .print ("  Program: ".toList ++ launch.executable program) :: argumentLines args

/-- Runs the command of a request: its output, and the files behind it. -/
def run (host : Host) (request : Request) : Run (List Output × Files.Tree) :=
  let unchanged (output : Run (List Output)) := output.map (·, host.tree)
  match request.command with
  | .version asked => .ok (if asked then [line ("procargs v" ++ version)] else [], host.tree)
  | .init afresh => init host request afresh
  | .split text strict sources => unchanged (split host request text strict sources)
  | .quote words => unchanged (quote host request words)
  | .walk text => unchanged (walk host request text)
  | .expand text assignments file => unchanged (expand host request text assignments file)
  | .prepare program arguments sources =>
    unchanged (prepare host request program arguments sources)

/-- The report of a run. A run that ends early leaves the files as they were. -/
def report (host : Host) (request : Request) : Except Failure Report :=
  match run host request with
  | .ok (output, tree) => .ok ⟨output, 0, tree⟩
  | .error (.exit output) => .ok ⟨output, 1, host.tree⟩
  | .error (.failure failure) => .error failure

end CommandLine.Program
