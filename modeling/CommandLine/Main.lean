import CommandLine.Program.Run
import CommandLine.Program.Usage
import CommandLine.Text.Lines

/-!
The program on the command line: gathers the files that a request can look at, runs it, and shows
and writes what it leaves behind.
-/

set_option autoImplicit false

namespace CommandLine.Main

open Program

/-- Puts the file at a path, if there is one, into a tree. -/
def gather (tree : Files.Tree) (path : Files.Path) : IO Files.Tree := do
  try
    let octets ← IO.FS.readBinFile (String.ofList path.toText)
    let put := (tree.makeDirectories path.parent).bind (·.write path octets.toList)
    return put.toOption.getD tree
  catch _ => return tree

/-- The paths that a request may read. -/
def paths (request : Request) : List Files.Path :=
  let settings := (Settings.upward request.directory.resolve).map Settings.pathIn
  match request.command with
  | .expand _ _ (some file) => Settings.pathIn request.directory :: file :: settings
  | _ => Settings.pathIn request.directory :: settings

/-- The environment of the process, with names and values between zeros. -/
def readEnvironment : IO (Table (List Char) (List Char)) := do
  try
    let octets ← IO.FS.readBinFile "/proc/self/environ"
    let text := (Text.decode octets.toList).toOption.getD []
    let items := (String.ofList text).splitOn "\x00"
    return items.foldl
      (fun table item ↦
        match assignment? item.toList with
        | some (name, value) => table.put name value
        | none => table) []
  catch _ => return []

def showOutput : Output → IO Unit
  | .print text | .echo text => IO.println (String.ofList text)
  | .table title columns rows => do
    IO.println (String.ofList title)
    for row in columns :: rows do
      IO.println (String.ofList (List.intercalate [' ', ' '] row))
  | .panel title text => do
    IO.println (String.ofList title)
    IO.println (String.ofList text)

/-- Writes the settings of a directory, where a run has changed them. -/
def writeSettings (path : Files.Path) (before after : Files.Tree) : IO Unit := do
  match after.read path with
  | .error _ => return
  | .ok octets =>
    if (before.read path).toOption ≠ some octets then
      IO.FS.createDirAll (String.ofList path.parent.toText)
      IO.FS.writeBinFile (String.ofList path.toText) (ByteArray.mk octets.toArray)

/-- Runs a request and gives the exit code. -/
def serve (request : Request) : IO UInt32 := do
  let environment ← readEnvironment
  let tree ← (paths request).foldlM gather .empty
  let system := if environment.get? "OS".toList = some "Windows_NT".toList then "Windows" else ""
  let home := (Files.Path.home ((environment.get? "HOME".toList).getD [])).toText
  match report ⟨.plain, tree, system, environment, home⟩ request with
  | .error failure =>
    IO.eprintln failure.message
    return 1
  | .ok report =>
    report.output.forM showOutput
    writeSettings (Settings.pathIn request.directory) tree report.tree
    return report.exitCode.toUInt32

end CommandLine.Main

def main (args : List String) : IO UInt32 := do
  let working := CommandLine.Files.Path.ofText (← IO.currentDir).toString.toList
  match CommandLine.Program.Request.ofWords working args with
  | .ok request => CommandLine.Main.serve request
  | .error error => do
    IO.eprintln error.message
    return 2
