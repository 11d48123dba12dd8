import CommandLine.Windows.Arguments
import CommandLine.Windows.Command
import CommandLine.Windows.Variables

/-!
Splitting a line by the rules of Windows. A strict split reads the line as the command processor
does before the C runtime takes it apart; a lenient one only expands variables first.
-/

set_option autoImplicit false

namespace CommandLine.Windows

/-- The line with its variables expanded, if there is an environment. -/
def expanded (surroundings : Surroundings) (line : List Char) : List Char :=
  match surroundings.environment with
  | some environment => expand environment surroundings.directory? line
  | none => line

/-- The line as the program receives it from the command processor. Without an environment every
percent sign is refused. -/
def prepare (surroundings : Surroundings) (line : List Char) : Except Refusal (List Char) :=
  if surroundings.environment.isNone && line.contains '%' then .error .foundMeta
  else received (expanded surroundings line)

/-- The words of a line. -/
def split (strict : Bool) (surroundings : Surroundings) (line : List Char) :
    Except Refusal (List Word) :=
  if strict then prepare surroundings line >>= arguments
  else arguments (expanded surroundings line)

end CommandLine.Windows
