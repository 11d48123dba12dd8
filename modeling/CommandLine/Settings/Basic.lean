import CommandLine.Dialect
import CommandLine.Files.Tree
import CommandLine.Json.Access
import CommandLine.Json.Limits
import CommandLine.Macro.Pattern

/-!
Settings: the members of a JSON object, of which some have a meaning and a default. Members without
a meaning are kept as they are.
-/

set_option autoImplicit false

namespace CommandLine

abbrev Settings := Json.Members

namespace Settings

def versionKey : String := "version"
def dialectKey : String := "dialect"
def unixShellKey : String := "unix_shell"
def windowsShellKey : String := "windows_shell"
def patternKey : String := "macro_pattern"
def macrosKey : String := "macros"

/-- The settings where nothing is set. -/
def default : Settings :=
  .ofList
    [(versionKey, .int 1), (dialectKey, .string Dialect.automatic), (unixShellKey, .null),
      (windowsShellKey, .null), (patternKey, .string (String.ofList Macro.Pattern.defaultText)),
      (macrosKey, .empty)]

/-- Why settings are not read, checked, used or written. -/
inductive Error
  | read (error : Files.ReadError)
  | write (error : Files.FileError)
  /-- A value of a file is beyond what a reader takes. -/
  | unreadable (obstacle : Json.Obstacle)
  /-- A setting is beyond what a writer takes. -/
  | unwritable (obstacle : Json.Obstacle)
  | access (error : Json.AccessError)
  /-- An array or object is looked up among names. -/
  | unhashable (kind : Json.Kind)
  /-- The pattern of macros makes its compiler fail. -/
  | pattern (reason : String)
  | dialect (error : UnknownDialect)
  deriving DecidableEq, Repr

def unhashableMessage (kind : Json.Kind) : String := "unhashable type: '" ++ kind.name ++ "'"

def Error.message : Error → String
  | read error => error.message
  | write error => error.message
  | unreadable obstacle => obstacle.readingMessage
  | unwritable obstacle => obstacle.writingMessage
  | access error => error.message
  | unhashable kind => unhashableMessage kind
  | pattern reason => reason
  | dialect error => error.message

/-- The key of the setting for the shell of a dialect. -/
def shellKey : Dialect → String
  | .unix => unixShellKey
  | .windows => windowsShellKey

/-- The shell that is set for a dialect; a blank value sets none. -/
def shell? (settings : Settings) (dialect : Dialect) : Option Json :=
  (settings.get? (shellKey dialect)).filter (!·.isBlank)

end Settings

end CommandLine
