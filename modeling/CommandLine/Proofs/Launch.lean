import CommandLine.Launch
import CommandLine.Proofs.ShellSyntax
import CommandLine.Proofs.Unix.Lenient
import CommandLine.Proofs.Windows.Circumflex
import Mathlib.Data.List.Basic

/-!
Commands whose arguments are badly quoted. The arguments of a command are read strictly, and the
reading ends at the first thing that is wrong with them. A line that a lenient splitter finds badly
quoted cannot be read strictly either: where it holds something for a shell, the command goes to the
shell with its quotation open, and elsewhere it is refused. On Windows a lenient splitter takes
circumflexes for characters of the line, so that quoting which is meant for the command processor as
well may look bad to it.
-/

set_option autoImplicit false

namespace CommandLine

variable {dialect : Dialect} {surroundings : Surroundings} {line : List Char}

/-- Arguments can be handed over in native form unless they cannot be split strictly. -/
theorem Dialect.nativeArgs_eq_error_iff (refusal : Refusal) :
    dialect.nativeArgs true surroundings line = .error refusal ↔
      dialect.split true surroundings line = .error refusal := by
  cases dialect with
  | unix =>
    simp only [nativeArgs, split]
    cases Unix.split true surroundings line <;> simp [Except.map]
  | windows =>
    simp only [nativeArgs, split, Windows.split, if_true]
    cases Windows.prepare surroundings line with
    | error other => simp [bind, Except.bind]
    | ok received =>
      simp only [bind, Except.bind, pure, Except.pure]
      cases Windows.arguments received <;> simp

/-- A shell is needed where a strict splitter comes upon something for a shell. -/
theorem Dialect.isThroughShell_launch_iff {process : Table (List Char) (List Char)}
    {shell : Option (List Char)} {program arguments : List Char} :
    (dialect.launch surroundings process shell program arguments).isThroughShell = true ↔
      dialect.split true surroundings arguments = .error .foundMeta := by
  rw [← nativeArgs_eq_error_iff, launch]
  cases dialect.nativeArgs true surroundings arguments with
  | ok args => simp [Launch.isThroughShell]
  | error refusal => cases refusal <;> simp [Launch.isThroughShell]

theorem Dialect.launch_eq_throughShell
    (h : dialect.split true surroundings line = .error .foundMeta)
    (process : Table (List Char) (List Char)) (shell : Option (List Char)) (program : List Char) :
    dialect.launch surroundings process shell program line =
      .throughShell (dialect.shell shell process) (dialect.shellArgs program line) := by
  rw [launch, (nativeArgs_eq_error_iff .foundMeta).mpr h]

/-- A command whose arguments are badly quoted to a strict splitter is refused. -/
theorem Dialect.launch_eq_refused (h : dialect.split true surroundings line = .error .badQuoting)
    (process : Table (List Char) (List Char)) (shell : Option (List Char)) (program : List Char) :
    dialect.launch surroundings process shell program line = .refused .badQuoting := by
  rw [launch, (nativeArgs_eq_error_iff .badQuoting).mpr h]

/-- With nothing to expand, a line that can be split strictly is well quoted to a lenient splitter
too. On Windows no circumflex may part backslashes and quotes from each other. -/
theorem Dialect.split_lenient_ne_badQuoting {directory : Option (List Char)} {home : List Char}
    {words : List Word} (hparts : dialect = .windows → Windows.partsMarks .plain line = false)
    (h : dialect.split true ⟨none, directory, home⟩ line = .ok words) :
    dialect.split false ⟨none, directory, home⟩ line ≠ .error .badQuoting := by
  intro hlenient
  cases dialect with
  | unix =>
    obtain ⟨others, hothers⟩ := Unix.exists_split_lenient h
    have hok : Unix.split false ⟨none, directory, home⟩ line = .error .badQuoting := hlenient
    rw [hothers] at hok
    cases hok
  | windows =>
    have hraw : Windows.arguments line = .error .badQuoting := hlenient
    rw [split, Windows.split_strict_eq] at h
    split at h
    · cases h
    · cases hreceived : Windows.received line with
      | error refusal =>
        rw [hreceived] at h
        cases h
      | ok passed =>
        rw [hreceived] at h
        have harguments : Windows.arguments passed = .ok words := h
        rw [(Windows.arguments_received_eq_badQuoting_iff (hparts rfl) hreceived).mpr hraw]
          at harguments
        cases harguments

/-- Bad quoting is handed to a shell only where the shell is needed for something else. With nothing
to expand, a command whose line of arguments a lenient splitter finds badly quoted goes to a shell
if some character of the line calls for one; otherwise it does not, and it is refused for its
quoting and gets no arguments. On Windows no circumflex that the command processor takes away may
then stand directly between two characters each of which is a backslash or a double quote. -/
theorem Dialect.launch_of_badQuoting (dialect : Dialect) (directory : Option (List Char))
    (home : List Char) (process : Table (List Char) (List Char)) (shell : Option (List Char))
    (program arguments : List Char)
    (hlenient : dialect.split false ⟨none, directory, home⟩ arguments = .error .badQuoting) :
    let launch := dialect.launch ⟨none, directory, home⟩ process shell program arguments
    (CallsForShell arguments dialect → launch =
        .throughShell (dialect.shell shell process) (dialect.shellArgs program arguments)) ∧
      (¬CallsForShell arguments dialect → launch.isThroughShell = false ∧
        ((dialect = .windows → Windows.partsMarks .plain arguments = false) →
          launch = .refused .badQuoting ∧ launch.args? = none)) := by
  intro launch
  rw [← split_strict_eq_foundMeta_iff dialect directory home]
  refine ⟨fun hfound ↦ ?_, fun hfound ↦ ⟨?_, fun hparts ↦ ?_⟩⟩
  · exact launch_eq_throughShell hfound process shell program
  · rw [← Bool.not_eq_true]
    exact fun hshell ↦ hfound (isThroughShell_launch_iff.mp hshell)
  · have hrefused : dialect.split true ⟨none, directory, home⟩ arguments =
        .error .badQuoting := by
      cases hsplit : dialect.split true ⟨none, directory, home⟩ arguments with
      | ok words => exact absurd hlenient (split_lenient_ne_badQuoting hparts hsplit)
      | error refusal =>
        cases refusal with
        | badQuoting => rfl
        | foundMeta => exact absurd hsplit hfound
    have hlaunch : launch = .refused .badQuoting :=
      launch_eq_refused hrefused process shell program
    rw [hlaunch]
    exact ⟨rfl, rfl⟩

/-- An escaped quote closes no quotation, on Windows whatever circumflexes stand elsewhere. With an
ampersand in front of the quotation the shell is handed it. -/
theorem Dialect.launch_of_open_quotations :
    Dialect.windows.launch ⟨none, none, []⟩ [] none "app".toList "\"C:\\dir\\\" x^^y".toList =
        .refused .badQuoting ∧
      Dialect.unix.launch ⟨none, none, []⟩ [] (some "/bin/zsh".toList) "app".toList
          "a \\'b\" 'c".toList =
        .refused .badQuoting ∧
      Dialect.unix.launch ⟨none, none, []⟩ [] none "app".toList "& '".toList =
        .throughShell "/bin/sh".toList (.words ["-c".toList, "app & '".toList]) := by
  refine ⟨?_, ?_, ?_⟩
  · have hlenient : Dialect.windows.split false ⟨none, none, []⟩
        "\"C:\\dir\\\" x^^y".toList = .error .badQuoting :=
      (Windows.arguments_eq_badQuoting_iff "\"C:\\dir\\\" x^^y".toList).mpr rfl
    have hlaunch := launch_of_badQuoting .windows none [] [] none "app".toList _ hlenient
    exact ((hlaunch.2 (by decide)).2 fun _ ↦ by decide).1
  · have hlaunch := launch_of_badQuoting .unix none [] [] (some "/bin/zsh".toList) "app".toList
      "a \\'b\" 'c".toList rfl
    exact ((hlaunch.2 (by decide)).2 fun h ↦ by cases h).1
  · have hlaunch := launch_of_badQuoting .unix none [] [] none "app".toList "& '".toList rfl
    exact (hlaunch.1 (by decide)).trans (congrArg₂ Launch.throughShell rfl rfl)

/-- Quoting for both readers of a line on Windows looks bad to a lenient splitter, and what a shell
has to interpret may stand in front of a quotation that stays open. -/
theorem Dialect.launch_despite_badQuoting :
    (Dialect.windows.split false ⟨none, none, []⟩ "\"foo \"\\^\"\" bar\"".toList =
        .error .badQuoting ∧
      Dialect.windows.launch ⟨none, none, []⟩ [] none "app".toList
          "\"foo \"\\^\"\" bar\"".toList =
        .direct (.line "\"foo \"\\\"\" bar\"".toList)) ∧
    Dialect.unix.split false ⟨none, none, []⟩ "& '".toList = .error .badQuoting ∧
      (Dialect.unix.launch ⟨none, none, []⟩ [] none "app".toList "& '".toList).isThroughShell =
        true := by
  decide +kernel

end CommandLine
