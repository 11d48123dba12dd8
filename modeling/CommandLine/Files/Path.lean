/-!
Paths of files. A path is a root and the parts below it; empty parts and single dots say nothing
and are left out, double dots stay until the path is resolved.
-/

set_option autoImplicit false

namespace CommandLine.Files

/-- Where a path starts. Two leading slashes are a root of their own. -/
inductive Root
  | relative
  | slash
  | doubleSlash
  deriving DecidableEq, Repr

structure Path where
  root : Root
  parts : List (List Char)
  deriving DecidableEq, Repr

namespace Path

/-- The runs of a text between slashes. -/
def runs (text : List Char) : List (List Char) :=
  text.foldr
    (fun c found ↦
      if c = '/' then [] :: found
      else
        match found with
        | [] => [[c]]
        | run :: rest => (c :: run) :: rest)
    [[]]

/-- A part that takes the path somewhere. -/
def isPart (part : List Char) : Bool := !part.isEmpty && part != ['.']

/-- The root that a text starts with. -/
def rootOf (text : List Char) : Root :=
  match (text.takeWhile (· == '/')).length with
  | 0 => .relative
  | 2 => .doubleSlash
  | _ => .slash

/-- The path that a text writes. -/
def ofText (text : List Char) : Path := ⟨rootOf text, (runs text).filter isPart⟩

def rootText : Root → List Char
  | .relative => []
  | .slash => ['/']
  | .doubleSlash => ['/', '/']

/-- The text of a path. -/
def toText (path : Path) : List Char :=
  match rootText path.root ++ List.intercalate ['/'] path.parts with
  | [] => ['.']
  | text => text

/-- A path below another; one with a root of its own stands for itself. -/
def join (path other : Path) : Path :=
  if other.root = .relative then ⟨path.root, path.parts ++ other.parts⟩ else other

/-- The path one part further down. -/
def child (path : Path) (name : List Char) : Path := ⟨path.root, path.parts ++ [name]⟩

/-- The path one part further up. -/
def parent (path : Path) : Path := ⟨path.root, path.parts.dropLast⟩

/-- The parts of a path with every double dot taken together with the part in front of it. -/
def resolvedParts (parts : List (List Char)) : List (List Char) :=
  (parts.foldl (fun reversed part ↦
    if part = ['.', '.'] then reversed.tail else part :: reversed) []).reverse

/-- The path with its double dots taken away. -/
def resolve (path : Path) : Path := ⟨path.root, resolvedParts path.parts⟩

/-- The home directory, from the value of the variable that names it. -/
def home (value : List Char) : Path :=
  match (value.reverse.dropWhile (· == '/')).reverse with
  | [] => ⟨.slash, []⟩
  | trimmed => ofText trimmed

theorem join_relative (path other : Path) (h : other.root = .relative) :
    (path.join other).parts = path.parts ++ other.parts := by
  simp [join, h]

end Path

end CommandLine.Files
