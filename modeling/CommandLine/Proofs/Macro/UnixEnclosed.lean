import CommandLine.Proofs.Macro.UnixBackquoted
import CommandLine.Proofs.Macro.UnixOnward

/-!
Commands inside of command substitutions. What is open around a substitution does not matter to the
command in it: its macros are put in as they are in the command alone, at any depth and also where
the substitution stands in a double quotation. A command that begins with a parenthesis is left out,
because behind `$(` it would begin arithmetic.
-/

set_option autoImplicit false

namespace CommandLine.Macro.Unix

/-- What a command substitution begins with: its own mark, or a double quotation around it. -/
inductive Opening
  | plain
  | quoted
  deriving DecidableEq, Repr

namespace Opening

def text : Opening → List Char
  | plain => ['$', '(']
  | quoted => ['"', '$', '(']

/-- The contexts around the substitution. -/
def around : Opening → List Context
  | plain => [.basic]
  | quoted => [.doubleQuotation, .basic]

theorem head?_text_append (opening : Opening) (behind : List Char) :
    (opening.text ++ behind).head? ≠ some '(' := by
  cases opening <;> simp [text]

end Opening

namespace Scan

variable {macros : Macros}

/-- A scan outside of single quotes enters a substitution that is ahead. -/
theorem run_substitution (find : Finder) {scan : Scan} {text : List Char} {found : Occurrence}
    (hcontext : scan.context.construct ≠ .singleQuote) (hrest : scan.rest = '$' :: '(' :: text)
    (hstart : text.head? ≠ some '(') (hnext : scan.next = some (found.farther 2))
    (hgap : 0 ≤ found.gap) :
    scan.run find = (Scan.mk ([.literal '(', .literal '$'] ++ scan.finished) text (some found)
      .substitution (scan.context :: scan.stack) scan.saves).run find := by
  have hstep : scan.step find = .more (scan.push 2 .substitution) :=
    step_of_substitution find hcontext hrest hstart hnext (by rw [Occurrence.farther_gap]; omega)
  rw [run_of_more hstep]
  simp [push, skip, hrest, hnext, Occurrence.nearer_farther]

/-- A scan enters the substitution that a line begins with. -/
theorem run_opening (find : Finder) (opening : Opening) {text : List Char} {found : Occurrence}
    (hstart : text.head? ≠ some '(') (hgap : 0 ≤ found.gap) :
    (start (opening.text ++ text) (found.farther opening.text.length)).run find =
      (Scan.mk (opening.text.reverse.map .literal) text (some found) .substitution opening.around
        []).run find := by
  cases opening with
  | plain => exact run_substitution find (by simp [start, Context.basic]) rfl hstart rfl hgap
  | quoted =>
    let line := start ('"' :: '$' :: '(' :: text) (found.farther 3)
    let quotation := line.push 1 .doubleQuotation
    have hquote : line.step find = .more quotation :=
      step_of_quote rfl rfl rfl (by simp only [Occurrence.farther_gap]; omega)
    have hnearer : (found.farther 3).nearer 1 = found.farther 2 := by
      rw [← Occurrence.farther_farther found 2 1, Occurrence.nearer_farther]
    have hcontext : quotation.context.construct ≠ .singleQuote := by
      simp [quotation, push, Context.doubleQuotation]
    exact (run_of_more hquote).trans
      (run_substitution find hcontext rfl hstart (congrArg some hnearer) hgap)

/-- In a substitution, whatever is finished and open around it, a scan does what it does in the
command alone. -/
theorem exists_run_enclosed {text : List Char} {found : Occurrence} {last : Scan}
    (hrun : (start text found).run macros.finder = .done last) (before : List Fragment)
    (around : List Context) :
    ∃ final, (Scan.mk before text (some found) .substitution around []).run macros.finder =
        .done final ∧ final.text = textOf before ++ last.text := by
  have hstart : Beside (Onward [] before) nested around (start text found)
      ⟨before, text, some found, .substitution, around, []⟩ :=
    ⟨⟨rfl, rfl, .nil⟩, ⟨[], rfl, rfl⟩, rfl, rfl⟩
  obtain ⟨final, hfinal, honward⟩ := exists_run_onward nests_nested hstart hrun
  obtain ⟨newer, hlast, hother, hrest, -⟩ := honward.exists_newer
  refine ⟨final, hfinal, ?_⟩
  rw [Scan.text, Scan.text, hlast, hother, hrest]
  simp [textOf]

end Scan

variable {macros : Macros} (hpattern : macros.pattern = .default)

include hpattern in
theorem expand_unix_opening (opening : Opening) {text : List Char}
    (hstart : text.head? ≠ some '(') (hok : (Macro.expand .unix macros.finder text).ok = true) :
    (Macro.expand .unix macros.finder (opening.text ++ text)).ok = true ∧
      (Macro.expand .unix macros.finder (opening.text ++ text)).text =
        opening.text ++ (Macro.expand .unix macros.finder text).text := by
  have hplain : '%' ∉ opening.text := by cases opening <;> decide
  have hahead : macros.finder [] (opening.text ++ text) =
      (macros.finder [] text).map (·.farther opening.text.length) :=
    Macros.find_append_of_notMem hpattern hplain text
  cases hfind : macros.finder [] text with
  | none =>
    rw [hfind] at hahead
    have hnone (line : List Char) (h : macros.finder [] line = none) :
        Macro.expand .unix macros.finder line = ⟨line, none, 0⟩ := by
      rw [Macro.expand, expand, h]
    rw [hnone _ hahead, hnone _ hfind]
    exact ⟨rfl, rfl⟩
  | some found =>
    rw [hfind] at hahead
    cases hrun : (Scan.start text found).run macros.finder with
    | failed | underflow =>
      rw [expand_of_find hfind, hrun] at hok
      cases hok
    | done last =>
      obtain ⟨final, hfinal, htext⟩ := Scan.exists_run_enclosed hrun
        (opening.text.reverse.map .literal) opening.around
      have hentered := Scan.run_opening macros.finder opening hstart
        (macros.gap_nonneg_of_find hfind)
      rw [expand_of_run_eq_done hahead (hentered.trans hfinal), expand_of_run_eq_done hfind hrun]
      refine ⟨rfl, htext.trans ?_⟩
      cases opening <;> rfl

include hpattern in
/-- A command substitution is a fresh context. Wherever a command can be expanded, it is expanded to
the same text inside of any number of substitutions, each of which may stand in a double quotation
of its own. -/
theorem expand_unix_enclosed {text : List Char} (hstart : text.head? ≠ some '(')
    (hok : (Macro.expand .unix macros.finder text).ok = true) (openings : List Opening) :
    (Macro.expand .unix macros.finder (openings.flatMap Opening.text ++ text)).ok = true ∧
      (Macro.expand .unix macros.finder (openings.flatMap Opening.text ++ text)).text =
        openings.flatMap Opening.text ++ (Macro.expand .unix macros.finder text).text := by
  induction openings with
  | nil => exact ⟨hok, rfl⟩
  | cons opening inner ih =>
    obtain ⟨hinner, htext⟩ := ih
    have hhead : (inner.flatMap Opening.text ++ text).head? ≠ some '(' := by
      cases inner with
      | nil => exact hstart
      | cons next inner =>
        rw [List.flatMap_cons, List.append_assoc]
        exact next.head?_text_append _
    obtain ⟨hopened, hfull⟩ := expand_unix_opening hpattern opening hhead hinner
    rw [List.flatMap_cons, List.append_assoc, List.append_assoc, ← htext]
    exact ⟨hopened, hfull⟩

/-- A command that holds a backquoted command, and arithmetic that is given up, in a double-quoted
substitution and once more in the substitution that this one begins with. -/
theorem expand_unix_enclosed_twice :
    (Macro.expand .unix (Macros.mk [(['X'], "a b".toList)] .default).finder
        "\"$($(`cat \"%\x7bX\x7d\"` $((cd %\x7bX\x7d) | ls %\x7bX\x7d)".toList).text =
      "\"$($($( cat \"a b\") $((cd 'a b') | ls 'a b')".toList := by
  have hok : (Macro.expand .unix (Macros.mk [(['X'], "a b".toList)] .default).finder
      "`cat \"%\x7bX\x7d\"` $((cd %\x7bX\x7d) | ls %\x7bX\x7d)".toList).ok = true := by
    decide +kernel
  obtain ⟨-, htext⟩ := expand_unix_enclosed rfl (by decide) hok [.quoted, .plain]
  have halone : (Macro.expand .unix (Macros.mk [(['X'], "a b".toList)] .default).finder
      "`cat \"%\x7bX\x7d\"` $((cd %\x7bX\x7d) | ls %\x7bX\x7d)".toList).text =
        "$( cat \"a b\") $((cd 'a b') | ls 'a b')".toList := by
    decide +kernel
  rw [halone] at htext
  exact htext

end CommandLine.Macro.Unix
