import CommandLine.Files.Path
import CommandLine.Table
import CommandLine.Text.Lines
import CommandLine.Text.Quoted
import CommandLine.Text.Utf8

/-!
Trees of files: what stands at each place, reading and writing files, and making directories. A path
is walked part by part, so that each part in front of the last has to be a directory, also in front
of a double dot.
-/

set_option autoImplicit false

namespace CommandLine.Files

/-- What stands at a place. -/
inductive Entry
  | file (octets : List UInt8)
  | directory
  deriving DecidableEq, Repr

/-- Why a path does not lead to what is asked for. -/
inductive Obstacle
  | missing
  | present
  | notDirectory
  | isDirectory
  deriving DecidableEq, Repr

namespace Obstacle

def number : Obstacle → Nat
  | missing => 2
  | present => 17
  | notDirectory => 20
  | isDirectory => 21

def message : Obstacle → String
  | missing => "No such file or directory"
  | present => "File exists"
  | notDirectory => "Not a directory"
  | isDirectory => "Is a directory"

end Obstacle

structure FileError where
  obstacle : Obstacle
  path : Path
  deriving DecidableEq, Repr

def FileError.message (error : FileError) : String :=
  "[Errno " ++ toString error.obstacle.number ++ "] " ++ error.obstacle.message ++ ": " ++
    String.ofList (Text.quoted error.path.toText)

/-- Why a text is not read from a file. -/
inductive ReadError
  | file (error : FileError)
  | encoding (error : Text.Utf8Error)
  deriving DecidableEq, Repr

def ReadError.message : ReadError → String
  | file error => error.message
  | encoding error => error.message

/-- A place in a tree, by the names that lead to it from the top. -/
abbrev Place := List (List Char)

structure Tree where
  entries : Table Place Entry
  deriving DecidableEq, Repr

namespace Tree

def empty : Tree := ⟨[]⟩

/-- What stands at a place. The top is a directory. -/
def get? (tree : Tree) (place : Place) : Option Entry :=
  if place = [] then some .directory else tree.entries.get? place

def put (tree : Tree) (place : Place) (entry : Entry) : Tree := ⟨tree.entries.put place entry⟩

@[simp] theorem get?_put (tree : Tree) (place other : Place) (entry : Entry)
    (h : place ≠ []) :
    (tree.put place entry).get? other = if place = other then some entry else tree.get? other := by
  by_cases ho : other = []
  · simp [get?, ho, h]
  · simp [get?, put, ho]

/-! ### Walking -/

/-- The place one part on from another. -/
def step (place : Place) (part : List Char) : Place :=
  if part = ['.', '.'] then place.dropLast else place ++ [part]

/-- The place to which parts lead. Every place that is left has to be a directory. -/
def walk (tree : Tree) (place : Place) : List (List Char) → Except Obstacle Place
  | [] => .ok place
  | part :: rest =>
    match tree.get? place with
    | some .directory => walk tree (step place part) rest
    | some (.file _) => .error .notDirectory
    | none => .error .missing

def placeOf (tree : Tree) (path : Path) : Except Obstacle Place := walk tree [] path.parts

/-- What stands at the end of a path. -/
def find (tree : Tree) (path : Path) : Except Obstacle Entry := do
  match tree.get? (← tree.placeOf path) with
  | some entry => return entry
  | none => throw .missing

def contains (tree : Tree) (path : Path) : Bool := (tree.find path).isOk

def isFile (tree : Tree) (path : Path) : Bool :=
  match tree.find path with
  | .ok (.file _) => true
  | _ => false

def isDirectory (tree : Tree) (path : Path) : Bool :=
  match tree.find path with
  | .ok .directory => true
  | _ => false

/-! ### Files -/

/-- The octets of a file. -/
def read (tree : Tree) (path : Path) : Except FileError (List UInt8) :=
  match tree.find path with
  | .ok (.file octets) => .ok octets
  | .ok .directory => .error ⟨.isDirectory, path⟩
  | .error obstacle => .error ⟨obstacle, path⟩

/-- The text of a file, with a line feed behind each of its lines. -/
def readText (tree : Tree) (path : Path) : Except ReadError (List Char) :=
  match tree.read path with
  | .error error => .error (.file error)
  | .ok octets =>
    match Text.decode octets with
    | .error error => .error (.encoding error)
    | .ok text => .ok (Text.unifyLineEnds text)

/-- Puts a file at the end of a path, over one that is there. -/
def write (tree : Tree) (path : Path) (octets : List UInt8) : Except FileError Tree :=
  match tree.placeOf path with
  | .error obstacle => .error ⟨obstacle, path⟩
  | .ok place =>
    if tree.get? place = some .directory then .error ⟨.isDirectory, path⟩
    else .ok (tree.put place (.file octets))

def writeText (tree : Tree) (path : Path) (text : List Char) : Except FileError Tree :=
  tree.write path (Text.encode text)

/-! ### Directories -/

/-- Makes a directory in one that is there. -/
def makeDirectory (tree : Tree) (path : Path) : Except FileError Tree :=
  match tree.placeOf path with
  | .error obstacle => .error ⟨obstacle, path⟩
  | .ok place =>
    if (tree.get? place).isSome then .error ⟨.present, path⟩ else .ok (tree.put place .directory)

/-- The tree after a directory could not be made, if a directory is there anyway. -/
def orPresent (tree : Tree) (path : Path) (error : FileError) : Except FileError Tree :=
  if tree.isDirectory path then .ok tree else .error error

/-- Makes the directory to which reversed parts lead, and first those above it that are missing. -/
def makeAbove (root : Root) (tree : Tree) : List (List Char) → Except FileError Tree
  | [] => .ok tree
  | part :: above =>
    let path : Path := ⟨root, (part :: above).reverse⟩
    match tree.makeDirectory path with
    | .ok made => .ok made
    | .error ⟨.missing, _⟩ => do
      let made ← makeAbove root tree above
      match made.makeDirectory path with
      | .ok made => .ok made
      | .error ⟨.missing, path⟩ => .error ⟨.missing, path⟩
      | .error error => made.orPresent path error
    | .error error => tree.orPresent path error

/-- Makes a directory and those above it, where they are missing. -/
def makeDirectories (tree : Tree) (path : Path) : Except FileError Tree :=
  makeAbove path.root tree path.parts.reverse

end Tree

end CommandLine.Files
