import CommandLine.Text.Quoted

/-!
The two dialects of command lines, and the two reasons for which a line has no words.
-/

set_option autoImplicit false

namespace CommandLine

/-- The rules by which a command line is read: those of the POSIX shell, or those of the Windows
command processor on top of its C runtime. -/
inductive Dialect
  | unix
  | windows
  deriving DecidableEq, Repr

namespace Dialect

def name : Dialect → String
  | unix => "unix"
  | windows => "windows"

/-- The dialect of a name. -/
def ofName? : String → Option Dialect
  | "unix" => some unix
  | "windows" => some windows
  | _ => none

@[simp] theorem ofName?_name (dialect : Dialect) : ofName? dialect.name = some dialect := by
  cases dialect <;> rfl

end Dialect

/-- A name that no dialect has. -/
structure UnknownDialect where
  name : String
  deriving DecidableEq, Repr

def UnknownDialect.message (error : UnknownDialect) : String :=
  String.ofList (Text.quoted error.name.toList) ++ " is not a valid Dialect"

namespace Dialect

/-- The dialect of a name, or the complaint about it. -/
def named (name : String) : Except UnknownDialect Dialect :=
  match ofName? name with
  | some dialect => .ok dialect
  | none => .error ⟨name⟩

/-- The dialect of a host, by the name of its operating system. -/
def ofHost (system : String) : Dialect := if system = "Windows" then windows else unix

/-- The name that stands for the dialect of the host. -/
def automatic : String := "auto"

/-- The dialect that a setting asks for: nothing, an empty name and the automatic one ask for that
of the host. -/
def resolve (system : String) : Option String → Except UnknownDialect Dialect
  | none => .ok (ofHost system)
  | some name =>
    if name = "" ∨ name = automatic then .ok (ofHost system) else named name

end Dialect

/-- Why a line is refused: a quotation, substitution or escape is open at its end, or it holds
shell syntax that has no literal reading. -/
inductive Refusal
  | badQuoting
  | foundMeta
  deriving DecidableEq, Repr

def Refusal.name : Refusal → String
  | badQuoting => "bad_quoting"
  | foundMeta => "found_meta"

/-- A word, the characters of one argument. -/
abbrev Word := List Char

end CommandLine
