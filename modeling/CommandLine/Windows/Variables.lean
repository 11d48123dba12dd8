import CommandLine.Environment

/-!
References to variables between percent signs. One pass from left to right over the text replaces
each reference whose upper-cased name has a value that is not empty; the closing sign of any other
may open the next reference. A value is never read again.
-/

set_option autoImplicit false

namespace CommandLine.Windows

/-- A path with backslashes for slashes. -/
def nativeSeparators (path : List Char) : List Char :=
  path.map fun c ↦ if c = '/' then '\\' else c

/-- Expands a text. The name, in reverse order, that follows the last percent sign is given when
that sign may still open a reference. -/
def expandFrom {ε : Type} (value : List Char → Except ε (Option (List Char))) :
    Option (List Char) → List Char → Except ε (List Char)
  | none, [] => .ok []
  | some reversed, [] => .ok ('%' :: reversed.reverse)
  | none, c :: rest =>
    if c = '%' then expandFrom value (some []) rest
    else (expandFrom value none rest).map (c :: ·)
  | some reversed, c :: rest =>
    if c = '%' then do
      match (← value (Text.upper reversed.reverse)).filter (!·.isEmpty) with
      | some found => return found ++ (← expandFrom value none rest)
      | none => return '%' :: reversed.reverse ++ (← expandFrom value (some []) rest)
    else expandFrom value (some (c :: reversed)) rest

/-- Replaces the references in a text. -/
def expandWith {ε : Type} (value : List Char → Except ε (Option (List Char))) (text : List Char) :
    Except ε (List Char) :=
  expandFrom value none text

/-- What a name stands for: the working directory for `CD`, if it is known, else a variable. -/
def value? (environment : Environment) (directory : Option (List Char)) (name : List Char) :
    Option (List Char) :=
  match if name = ['C', 'D'] then directory else none with
  | some directory => some (nativeSeparators directory)
  | none => environment.lookup name

/-- Replaces the references in a text from an environment and the working directory. -/
def expand (environment : Environment) (directory : Option (List Char)) (text : List Char) :
    List Char :=
  match expandWith (ε := Empty) (fun name ↦ .ok (value? environment directory name)) text with
  | .ok expanded => expanded

/-- A name had to be looked up where there is no environment. -/
inductive NoEnvironment
  | mk
  deriving DecidableEq, Repr

/-- Replaces the references in a text from the working directory alone. -/
def expandDirectory (directory : Option (List Char)) (text : List Char) :
    Except NoEnvironment (List Char) :=
  expandWith (fun name ↦
    match if name = ['C', 'D'] then directory else none with
    | some directory => .ok (some (nativeSeparators directory))
    | none => .error .mk) text

end CommandLine.Windows
