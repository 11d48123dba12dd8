import CommandLine.Settings.Fault

/-!
Settings in use: what settings without faults say.
-/

set_option autoImplicit false

namespace CommandLine.Settings

/-- The text of a setting, where it has one. -/
def text? : Json → Option String
  | .string text => some text
  | _ => none

/-- The dialect that settings ask for on a host. -/
def dialect (settings : Settings) (system : String) : Except UnknownDialect Dialect :=
  Dialect.resolve system (text? (settings.getD dialectKey))

/-- The expression that recognises macros. -/
def expression (compile : Macro.Compiler) (settings : Settings) : Except Error Macro.Expression :=
  (compileValue compile (settings.getD patternKey)).mapError fun
    | .invalid reason | .failed reason => .pattern reason

/-- The values of macros. -/
def macros (settings : Settings) : Table (List Char) (List Char) :=
  match settings.getD macrosKey with
  | .object members =>
    members.toList.filterMap fun (name, value) ↦
      (text? value).map fun text ↦ (name.toList, text.toList)
  | _ => []

end CommandLine.Settings
