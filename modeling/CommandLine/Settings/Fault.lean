import CommandLine.Macro.Expression
import CommandLine.Settings.Basic

/-!
Faults of settings: what is said about those whose values are not of the right form, in the order in
which they are looked at.
-/

set_option autoImplicit false

namespace CommandLine.Settings

inductive Fault
  | dialect (shown : String)
  | shell (key : String)
  | pattern (reason : String)
  | macros
  | macroValue (name : String)
  deriving DecidableEq

/-- The names that the setting for the dialect may have. -/
def dialectNames : List String := ["auto", "unix", "windows"]

def Fault.message : Fault → String
  | dialect shown =>
    "Invalid dialect '" ++ shown ++ "' (expected one of " ++
      String.ofList (Text.bracketed (dialectNames.map fun name ↦ Text.quoted name.toList)) ++ ")"
  | shell key => "'" ++ key ++ "' must be a string or null"
  | pattern reason => "Invalid macro_pattern: " ++ reason
  | macros => "'macros' must be a mapping of name to value"
  | macroValue name => "Macro '" ++ name ++ "': value must be a string"

/-- The text of a value that is neither an array nor an object. -/
def shown : Json → Option String
  | .null => some "None"
  | .bool value => some (if value then "True" else "False")
  | .int value => some (toString value)
  | .float value => some (Decimal.text Decimal.plainLayout value)
  | .string text => some text
  | .array _ | .object _ => none

/-- The fault of the setting for the dialect. An array or object cannot be one of the names. -/
def dialectFaults (value : Json) : Except Error (List Fault) :=
  match shown value with
  | none => .error (.unhashable value.kind)
  | some text =>
    .ok (if dialectNames.any (value = .string ·) then [] else [.dialect text])

def shellFaults (key : String) : Option Json → List Fault
  | none | some .null | some (.string _) => []
  | some _ => [.shell key]

/-- The expression of a value; only text has one. -/
def compileValue (compile : Macro.Compiler) : Json → Except Macro.CompileError Macro.Expression
  | .string text => compile text.toList
  | .array _ => .error (.invalid (unhashableMessage .array))
  | .object _ => .error (.invalid (unhashableMessage .object))
  | _ => .error (.invalid "first argument must be string or compiled pattern")

/-- The fault of the pattern of macros, unless it makes the compiler fail. -/
def patternFaults (compile : Macro.Compiler) (value : Json) : Except Error (List Fault) :=
  match compileValue compile value with
  | .ok _ => .ok []
  | .error (.invalid reason) => .ok [.pattern reason]
  | .error (.failed reason) => .error (.pattern reason)

def macroFaults : Json → List Fault
  | .object members =>
    members.toList.filterMap fun (name, value) ↦
      match value with
      | .string _ => none
      | _ => some (.macroValue name)
  | _ => [.macros]

/-- The value of a setting, or its default. -/
def getD (settings : Settings) (key : String) : Json :=
  (settings.get? key).getD ((default.get? key).getD .null)

/-- The faults of settings. -/
def faults (compile : Macro.Compiler) (settings : Settings) : Except Error (List Fault) := do
  let dialect ← dialectFaults (settings.getD dialectKey)
  let pattern ← patternFaults compile (settings.getD patternKey)
  return dialect ++
    [unixShellKey, windowsShellKey].flatMap (fun key ↦ shellFaults key (settings.get? key)) ++
    pattern ++ macroFaults (settings.getD macrosKey)

end CommandLine.Settings
