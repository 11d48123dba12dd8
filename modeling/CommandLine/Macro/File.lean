import CommandLine.Files.Tree
import CommandLine.Notice
import CommandLine.Yaml.Value

/-!
Files of macro values: a YAML mapping of names to values, at the top of the file or under a key of
its own. Every value is taken as it is shown, and an empty one is an empty text.
-/

set_option autoImplicit false

namespace CommandLine.Macro

/-- Why macro values are not read. -/
inductive FileError
  | read (error : Files.ReadError)
  | value (error : Yaml.Error)
  deriving DecidableEq, Repr

def FileError.message : FileError → String
  | read error => error.message
  | value error => error.message

/-- The key that the values may stand under. -/
def valuesKey : Yaml.Scalar := .text "macros".toList

/-- The mapping of names to values in a document. -/
def mapping? (document : Yaml.Document) : Option (List (Yaml.Scalar × Yaml.Value)) :=
  match document.root with
  | .mapping _ members =>
    match (Yaml.Value.get? members valuesKey).map document.follow with
    | some (.mapping _ inner) => some inner
    | _ => some members
  | _ => none

/-- The value of a macro. -/
def valueText (document : Yaml.Document) : Yaml.Value → List Char
  | .scalar .null => []
  | value => document.text value

/-- The macro values in a document, if it holds a mapping. -/
def values? (document : Yaml.Document) : Option (Table (List Char) (List Char)) :=
  (mapping? document).map fun members ↦
    Table.putAll [] (members.map fun (name, value) ↦ (name.alone, valueText document value))

/-- The macro values of a file, with a reader of documents. A missing file and a malformed one have
none. -/
def load (read : List Char → Except Yaml.Error Yaml.Document) (tree : Files.Tree)
    (path : Files.Path) : Except FileError (Table (List Char) (List Char) × List Notice) :=
  let shown := String.ofList path.toText
  match tree.readText path with
  | .error (.file ⟨.missing, _⟩) => .ok ([], [.missingMacros shown])
  | .error error => .error (.read error)
  | .ok text =>
    match read text with
    | .error .malformed => .ok ([], [.malformedMacros shown Yaml.Error.malformed.message])
    | .error error => .error (.value error)
    | .ok document =>
      match values? document with
      | some values => .ok (values, [])
      | none => .ok ([], [.noMapping shown])

end CommandLine.Macro
