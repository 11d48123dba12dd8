import CommandLine.Dialect
import CommandLine.Table
import CommandLine.Text.Uppercase

/-!
Environments: variables with their values, in the order in which they were set. Where case does not
matter, names are kept in upper case, so that two spellings of a name are one variable.
-/

set_option autoImplicit false

namespace CommandLine

structure Environment where
  caseSensitive : Bool
  values : Table (List Char) (List Char)
  deriving DecidableEq

namespace Environment

/-- The form in which a name is kept. -/
def key (environment : Environment) (name : List Char) : List Char :=
  if environment.caseSensitive then name else Text.upper name

/-- Sets a variable. -/
def set (environment : Environment) (name value : List Char) : Environment :=
  { environment with values := environment.values.put (environment.key name) value }

/-- The value of a variable. -/
def lookup (environment : Environment) (name : List Char) : Option (List Char) :=
  environment.values.get? (environment.key name)

def contains (environment : Environment) (name : List Char) : Bool :=
  (environment.lookup name).isSome

def size (environment : Environment) : Nat := environment.values.length

def empty (caseSensitive : Bool) : Environment := ⟨caseSensitive, []⟩

/-- The environment that holds the values of a table, set in the table's order. -/
def ofTable (caseSensitive : Bool) (values : Table (List Char) (List Char)) : Environment :=
  values.foldl (fun environment pair ↦ environment.set pair.1 pair.2) (empty caseSensitive)

/-- The environment of a dialect: Windows does not tell the case of names apart. -/
def forDialect (dialect : Dialect) (values : Table (List Char) (List Char)) : Environment :=
  ofTable (dialect != .windows) values

@[simp] theorem key_set (environment : Environment) (name value other : List Char) :
    (environment.set name value).key other = environment.key other := rfl

theorem lookup_set (environment : Environment) (name value other : List Char) :
    (environment.set name value).lookup other =
      if environment.key name = environment.key other then some value
      else environment.lookup other :=
  Table.get?_put environment.values (environment.key name) (environment.key other) value

end Environment

/-- What a splitter may consult besides the line: an environment, if variables are to be expanded,
the working directory, if it is known, and the home directory. -/
structure Surroundings where
  environment : Option Environment
  directory : Option (List Char)
  home : List Char

namespace Surroundings

/-- Nothing to expand variables from. -/
def bare (home : List Char) : Surroundings := ⟨none, none, home⟩

/-- The working directory, when it is known and not empty. -/
def directory? (surroundings : Surroundings) : Option (List Char) :=
  surroundings.directory.filter (!·.isEmpty)

end Surroundings

end CommandLine
