import CommandLine.Proofs.Cursor.Written
import CommandLine.Proofs.Launch

/-!
Commands that are handed to a shell. The shell is given one line: the quoted program and, behind a
space, the arguments as they stand. Whatever shell syntax the arguments hold, the program is the
first argument of that line, and the search for it stops in front of the space, so that nothing of
the arguments is taken into the program and nothing of the program is left to them. On Windows a
percent sign in the program may begin the name of a variable; the line is then written in the same
way, but a cursor does not know the program's value.
-/

set_option autoImplicit false

namespace CommandLine.Dialect

variable {dialect : Dialect} {surroundings : Surroundings} {process : Table (List Char) (List Char)}
  {shell : Option (List Char)} {program arguments line : List Char}

/-- The line that a shell is given for a command. -/
def shellLine (dialect : Dialect) (program arguments : List Char) : List Char :=
  dialect.quote (dialect.nativePath program) ++ ' ' :: arguments

/-- The arguments that make a shell run a line. Between its own quotes the command processor takes
the line as it stands. -/
def shellInvocation (line : List Char) : Dialect → NativeArgs
  | .unix => .words ["-c".toList, line]
  | .windows => .line ("/v:off /s /c \"".toList ++ line ++ ['"'])

theorem shellArgs_eq (dialect : Dialect) (program arguments : List Char) :
    dialect.shellArgs program arguments =
      shellInvocation (dialect.shellLine program arguments) dialect := by
  cases dialect with
  | unix => rfl
  | windows => simp [shellArgs, shellInvocation, shellLine, quote, nativePath]

theorem args?_launch
    (hshell : (dialect.launch surroundings process shell program arguments).isThroughShell = true) :
    (dialect.launch surroundings process shell program arguments).args? =
      some (dialect.shellArgs program arguments) := by
  have hfound := nativeArgs_eq_error_iff .foundMeta |>.mpr (isThroughShell_launch_iff.mp hshell)
  rw [launch, hfound]
  rfl

theorem percent_notMem_nativeSeparators (hprogram : '%' ∉ program) :
    '%' ∉ Windows.nativeSeparators program := by
  intro hmem
  obtain ⟨c, hc, hreplaced⟩ := List.mem_map.mp hmem
  split at hreplaced
  · exact absurd hreplaced (by decide)
  · exact hprogram (hreplaced ▸ hc)

theorem percent_notMem_nativePath (hprogram : dialect = .windows → '%' ∉ program) :
    dialect = .windows → '%' ∉ dialect.nativePath program := by
  rintro rfl
  exact percent_notMem_nativeSeparators (hprogram rfl)

/-- A command that is handed to a shell is one line for it: the quoted program, a space, and the
arguments untouched. A cursor in that line first comes upon the program, whose value it knows, and
stands then in front of the space. -/
theorem advance_shellLine (dialect : Dialect) (surroundings : Surroundings)
    (process : Table (List Char) (List Char)) (shell : Option (List Char))
    (program arguments : List Char)
    (hshell : (dialect.launch surroundings process shell program arguments).isThroughShell = true)
    (hprogram : dialect = .windows → '%' ∉ program) :
    ∃ line, (dialect.launch surroundings process shell program arguments).args? =
        some (shellInvocation line dialect) ∧
      line = dialect.quote (dialect.nativePath program) ++ ' ' :: arguments ∧
      (Cursor.ofLine dialect line).advance =
        (true, { dialect, passed := [],
                 current := dialect.quote (dialect.nativePath program), rest := ' ' :: arguments,
                 value := dialect.nativePath program, simple := true }) := by
  refine ⟨dialect.shellLine program arguments, ?_, rfl, ?_⟩
  · rw [args?_launch hshell, shellArgs_eq]
  · have hfind := Cursor.find_quote (percent_notMem_nativePath hprogram) 0
      (.inr ⟨arguments, rfl⟩ : Cursor.Apart (' ' :: arguments))
    exact Cursor.advance_of_find rfl hfind

/-- A program with blanks, quotes and a backslash at its end, and arguments that hold a quotation
which only the shell closes. -/
theorem advance_shellLine_quotations :
    (∃ line, (Dialect.windows.launch ⟨none, none, []⟩ [] none "C:/my \"app\"/".toList
          "| \"x".toList).args? = some (shellInvocation line .windows) ∧
        line = "\"C:\\my \"\\^\"\"app\"\\^\"\"\"\\ | \"x".toList ∧
        (Cursor.ofLine .windows line).advance.2.value = "C:\\my \"app\"\\".toList) ∧
      ∃ line, (Dialect.unix.launch ⟨none, none, []⟩ [] none "it's".toList "x; 'y".toList).args? =
          some (shellInvocation line .unix) ∧
        line = "'it'\\''s' x; 'y".toList ∧
        (Cursor.ofLine .unix line).advance.2.value = "it's".toList := by
  constructor
  · obtain ⟨line, hargs, hline, hadvance⟩ := advance_shellLine .windows ⟨none, none, []⟩ [] none
      "C:/my \"app\"/".toList "| \"x".toList (by decide +kernel) (fun _ ↦ by decide)
    refine ⟨line, hargs, hline.trans (by decide +kernel), ?_⟩
    rw [hadvance]
    decide +kernel
  · obtain ⟨line, hargs, hline, hadvance⟩ := advance_shellLine .unix ⟨none, none, []⟩ [] none
      "it's".toList "x; 'y".toList (by decide +kernel) (fun h ↦ by cases h)
    refine ⟨line, hargs, hline.trans (by decide +kernel), ?_⟩
    rw [hadvance]
    rfl

end CommandLine.Dialect
