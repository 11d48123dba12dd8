import CommandLine.Json.Merge
import CommandLine.Json.Reader
import CommandLine.Json.Text
import CommandLine.Notice
import CommandLine.Settings.Basic

/-!
Where settings are kept: in a file of the directory that they are for, or of the nearest one above
it. Loading puts what is stored, and then what is asked for, over the defaults; saving leaves out
what has its default value.
-/

set_option autoImplicit false

namespace CommandLine.Settings

/-- The path of the settings of a directory. -/
def pathIn (directory : Files.Path) : Files.Path :=
  (directory.child ".procargs".toList).child "config.json".toList

/-- The path with the given number of its last parts taken away. -/
def above (path : Files.Path) (count : Nat) : Files.Path :=
  ⟨path.root, path.parts.take (path.parts.length - count)⟩

/-- A directory and those above it, nearest first. -/
def upward (directory : Files.Path) : List Files.Path :=
  (List.range (directory.parts.length + 1)).map (above directory)

/-- The path of the settings for a directory: that of the nearest file, or that of the directory
itself where there is none. -/
def path (tree : Files.Tree) (directory : Files.Path) : Files.Path :=
  (((upward directory.resolve).map pathIn).find? tree.isFile).getD (pathIn directory.resolve)

/-- The JSON value of a text. One that is not JSON counts as an empty object. -/
def value (limits : Json.Limits) (text : List Char) : Except Error Json :=
  match Json.read limits text with
  | .ok value => .ok value
  | .error .malformed => .ok .empty
  | .error (.obstacle obstacle) => .error (.unreadable obstacle)

/-- The JSON value of a file. A missing file counts as an empty object, too. -/
def readJson (limits : Json.Limits) (tree : Files.Tree) (path : Files.Path) : Except Error Json :=
  match tree.readText path with
  | .ok text => value limits text
  | .error (.file ⟨.missing, _⟩) => .ok .empty
  | .error error => .error (.read error)

/-- Puts the members of a value over settings. -/
def mergeValue (settings : Settings) (value : Json) : Except Error Settings :=
  match value.members .noItems with
  | .ok members => .ok (settings.merge members)
  | .error error => .error (.access error)

/-- Puts over settings what a path holds. -/
def withStored (limits : Json.Limits) (tree : Files.Tree) (path : Files.Path)
    (settings : Settings) : Except Error (Settings × List Notice) :=
  if tree.contains path then do
    let stored ← readJson limits tree path
    let merged ← mergeValue settings stored
    return (merged,
      if stored.isBlank then [.unreadableSettings (String.ofList path.toText)] else [])
  else .ok (settings, [])

/-- Puts over settings what is asked for, where that is not blank. Null members ask for nothing. -/
def withAsked (asked : Json) (settings : Settings) : Except Error Settings :=
  if asked.isBlank then .ok settings
  else do
    let members ← (asked.members .noItems).mapError Error.access
    return settings.merge (members.filter fun _ value ↦ value ≠ .null)

/-- The settings for a directory. -/
def load (limits : Json.Limits) (tree : Files.Tree) (directory : Files.Path) (asked : Json) :
    Except Error (Settings × List Notice) := do
  let (settings, notices) ← withStored limits tree (path tree directory) default
  return (← withAsked asked settings, notices)

/-- What is stored of settings: the version, and what differs from its default. A null member
without a meaning has no default to differ from. -/
def changed (settings : Settings) : Settings :=
  settings.filter fun key value ↦ key = versionKey ∨ (default.get? key).getD .null ≠ value

/-- The text of a settings file. -/
def fileText (settings : Settings) : List Char := Json.indented (.object settings) ++ ['\n']

/-- The tree with settings saved for a directory. -/
def save (limits : Json.Limits) (tree : Files.Tree) (directory : Files.Path) (settings : Settings) :
    Except Error Files.Tree := do
  let path := pathIn directory
  let made ← (tree.makeDirectories path.parent).mapError Error.write
  match (Json.object (changed settings)).obstacle? limits.digits limits.writingDepth with
  | some obstacle => .error (.unwritable obstacle)
  | none => (made.writeText path (fileText (changed settings))).mapError Error.write

end CommandLine.Settings
