import CommandLine.Proofs.Macro.UnixApart
import CommandLine.Proofs.Macro.UnixOnward

/-!
A blank between the parentheses of a `$((`. Where a scan takes a `$((` for arithmetic and later
gives the arithmetic up, the line with a blank between the parentheses is expanded in the same way:
the scan of the line with the blank opens at once what the other one opens when it comes back.
-/

set_option autoImplicit false

namespace CommandLine.Macro.Unix

/-- The scan of a text comes to the first `$((`, takes it for the beginning of arithmetic, and later
comes back behind it, as it does only where a single parenthesis would close the arithmetic. How
many openers are left tells the first one also where backquoted commands have been rewritten. -/
structure GivesUp (find : Finder) (text : List Char) (opening : Scan) : Prop where
  reached : ∃ found count, find [] text = some found ∧
    Scan.after find count (Scan.start text found) = some opening
  first : openers opening.rest = openers text
  guessed : opening.step find = .more opening.openArithmetic
  returned : ∃ count reopened,
    Scan.after find (count + 1) opening.openArithmetic = some reopened ∧
      reopened.place = opening.openArithmetic.place

namespace Scan

variable {macros : Macros} {first second : Scan}

/-! ### At the opener -/

/-- A step that opens arithmetic does so at an opener. -/
theorem of_step_eq_openArithmetic {find : Finder} {scan : Scan}
    (h : scan.step find = .more scan.openArithmetic) :
    (∃ inside, scan.rest = '$' :: '(' :: '(' :: inside) ∧
      scan.context.construct ≠ .singleQuote := by
  have hsaves : scan.openArithmetic.saves.length = scan.saves.length + 1 := rfl
  generalize scan.openArithmetic = next at h hsaves
  cases shifts_step h with
  | kept _ _ _ heq | entered _ _ _ heq | left _ _ _ heq =>
    rw [heq] at hsaves
    omega
  | guessed hrest hcontext => exact ⟨⟨_, hrest⟩, hcontext⟩
  | confirmed _ _ _ heq =>
    rw [heq, List.length_cons] at hsaves
    omega
  | abandoned _ heq =>
    rw [heq, List.length_cons] at hsaves
    dsimp only at hsaves
    omega

/-- Both scans come to the opener with the same macro ahead. -/
theorem Apart.of_opener {total : Nat} (h : Apart total first.place second.place)
    {inside : List Char} (hopener : first.rest = '$' :: '(' :: '(' :: inside) :
    second.finished = first.finished ∧ second.rest = '$' :: '(' :: ' ' :: '(' :: inside ∧
      ∀ found, first.next = some found →
        3 ≤ found.gap ∧ second.next = some (found.farther 1) := by
  obtain ⟨front, behind, hfinished, hfirst, hsecond, hfront, -, hnext⟩ := h.exists_front
  rw [hopener] at hfirst
  obtain rfl := eq_nil_of_opener hfront hfirst.symm
  obtain rfl : inside = behind := by simpa [opener] using hfirst
  refine ⟨hfinished, hsecond, fun found hfound ↦ ?_⟩
  rw [hfound] at hnext
  generalize second.next = ahead at hnext
  cases hnext with
  | near hbefore => simp at hbefore
  | far _ hgap =>
    refine ⟨?_, rfl⟩
    rw [hgap, List.length_nil]
    omega

/-- A scan reads the opener with a blank as the beginning of a substitution with a parenthesis. -/
theorem run_spaced_opener {find : Finder} {scan : Scan} {inside : List Char} {found : Occurrence}
    (hcontext : scan.context.construct ≠ .singleQuote)
    (hrest : scan.rest = '$' :: '(' :: ' ' :: '(' :: inside) (hnext : scan.next = some found)
    (hgap : 4 ≤ found.gap) :
    scan.run find = (Scan.mk
      ([.literal '(', .literal ' ', .literal '(', .literal '$'] ++ scan.finished) inside
      (some (found.nearer 4)) .subshell (.substitution :: scan.context :: scan.stack)
      scan.saves).run find := by
  let substitution := scan.push 2 .substitution
  let blank := substitution.skip 1
  have hdollar : scan.step find = .more substitution :=
    step_of_substitution find hcontext hrest (by simp) hnext (by omega)
  have hsubstitution : substitution.step find = .more blank := by
    have hahead : substitution.next = some (found.nearer 2) := by
      simp only [substitution, push, skip, hnext, Option.map_some]
    have hbehind : substitution.rest = ' ' :: '(' :: inside := by
      simp only [substitution, push, skip, hrest, List.drop_succ_cons, List.drop_zero]
    rw [step_eq_read find hbehind hahead (by rw [Occurrence.nearer_gap]; omega)]
    rfl
  have hblank : blank.step find = .more (blank.push 1 .subshell) := by
    have hahead : blank.next = some ((found.nearer 2).nearer 1) := by
      simp only [blank, substitution, push, skip, hnext, Option.map_some]
    have hbehind : blank.rest = '(' :: inside := by
      simp only [blank, substitution, push, skip, hrest, List.drop_succ_cons, List.drop_zero]
    rw [step_eq_read find hbehind hahead (by simp only [Occurrence.nearer_gap]; omega)]
    rfl
  have hnearer : ((found.nearer 2).nearer 1).nearer 1 = found.nearer 4 := by
    rw [Occurrence.nearer_nearer, Occurrence.nearer_nearer]
  rw [run_of_more hdollar, run_of_more hsubstitution, run_of_more hblank, ← hnearer]
  congr 1
  simp only [blank, substitution, push, skip, hrest, hnext]
  rfl

/-- Once arithmetic was given up, both scans do the same behind the opener. -/
theorem exists_run_of_returned {total count : Nat} {opening reopened last : Scan}
    (halongside : Alongside (Tracks total) id [] opening second)
    (hapart : Apart total opening.place second.place) (hsaves : opening.saves = [])
    (hguessed : opening.step macros.finder = .more opening.openArithmetic)
    (hreturned : after macros.finder (count + 1) opening.openArithmetic = some reopened)
    (hplace : reopened.place = opening.openArithmetic.place)
    (hrun : opening.run macros.finder = .done last) :
    ∃ final inside, second.run macros.finder = .done final ∧
      last.text = textOf opening.finished ++ '$' :: '(' :: '(' :: inside ∧
      final.text = textOf opening.finished ++ '$' :: '(' :: ' ' :: '(' :: inside := by
  obtain ⟨⟨inside, hopener⟩, hcontext⟩ := of_step_eq_openArithmetic hguessed
  obtain ⟨hfinished, hrest, hahead⟩ := hapart.of_opener hopener
  obtain ⟨found, hfound⟩ : ∃ found, opening.next = some found := by
    refine Option.ne_none_iff_exists'.mp fun hnone ↦ ?_
    have hdone := (@step_eq_done_iff macros.finder opening).mpr (.inr ⟨hnone, hsaves⟩)
    rw [hguessed] at hdone
    cases hdone
  obtain ⟨hgap, hnext⟩ := hahead found hfound
  have hsame : second.context = opening.context := halongside.context
  have hopened := @run_spaced_opener macros.finder second inside _ (hsame ▸ hcontext) hrest hnext
    (by rw [Occurrence.farther_gap]; omega)
  have hbeside : Beside (Onward opening.openArithmetic.finished
      ([.literal '(', .literal ' ', .literal '(', .literal '$'] ++ opening.finished)) id []
      reopened ⟨[.literal '(', .literal ' ', .literal '(', .literal '$'] ++ second.finished, inside,
        some ((found.farther 1).nearer 4), .subshell,
        .substitution :: second.context :: second.stack, second.saves⟩ := by
    have hstack : second.stack = opening.stack := by simpa using halongside.stack
    have hnil : second.saves = [] := by
      have hboth := halongside.saves
      rw [hsaves] at hboth
      exact List.forall₂_nil_left_iff.mp hboth
    have hnearer : (found.farther 1).nearer 4 = found.nearer 3 := by
      have hsplit := Occurrence.nearer_nearer (found.farther 1) 1 3
      rw [← hsplit, Occurrence.nearer_farther]
    rw [eq_of_after_openArithmetic hsaves hreturned hplace, hnil, hstack, hsame, hfinished, hnearer]
    refine ⟨⟨rfl, by simp, .nil⟩, ⟨[], rfl, rfl⟩, ?_, ?_⟩
    · simp [place, openArithmetic, push, skip, hopener]
    · simp [place, openArithmetic, push, skip, hfound]
  rw [run_of_more hguessed, run_of_after hreturned] at hrun
  obtain ⟨final, hfinal, honward⟩ := exists_run_onward Nests.refl hbeside hrun
  obtain ⟨newer, hlast, hother, hlater, -⟩ := honward.exists_newer
  have hbase : opening.openArithmetic.finished =
      [.literal '(', .literal '(', .literal '$'] ++ opening.finished := by
    simp [openArithmetic, push, skip, hopener]
  refine ⟨final, textOf newer ++ last.rest, hopened.trans hfinal, ?_, ?_⟩
  · rw [text, hlast, hbase]
    simp [textOf, Fragment.text]
  · rw [text, hother, hlater]
    simp [textOf, Fragment.text]

end Scan

/-! ### Expanded lines -/

/-- Where arithmetic is given up, a blank in its opener changes nothing but the opener, unless the
name of a macro holds the opener with the blank. -/
theorem expand_unix_of_givesUp {macros : Macros} (hpattern : macros.pattern = .default)
    (hnames : Scan.HasNoOpener macros) {front behind : List Char}
    (hplain : ¬['$', '(', '('] <:+: front) {opening : Scan}
    (hgives : GivesUp macros.finder (front ++ '$' :: '(' :: '(' :: behind) opening)
    (hok : (Macro.expand .unix macros.finder (front ++ '$' :: '(' :: '(' :: behind)).ok = true) :
    (Macro.expand .unix macros.finder (front ++ '$' :: '(' :: ' ' :: '(' :: behind)).ok = true ∧
      ∃ inside,
        (Macro.expand .unix macros.finder (front ++ '$' :: '(' :: '(' :: behind)).text =
            textOf opening.finished ++ '$' :: '(' :: '(' :: inside ∧
          (Macro.expand .unix macros.finder (front ++ '$' :: '(' :: ' ' :: '(' :: behind)).text =
            textOf opening.finished ++ '$' :: '(' :: ' ' :: '(' :: inside := by
  obtain ⟨found, count, hfind, hafter⟩ := hgives.reached
  obtain ⟨further, reopened, hreturned, hplace⟩ := hgives.returned
  obtain ⟨⟨inside, hopener⟩, -⟩ := Scan.of_step_eq_openArithmetic hgives.guessed
  have hfront : openers front = 0 := openers_eq_zero hplain
  obtain ⟨other, second, hspaced, hsecond, halongside, hapart, hsaves⟩ :=
    Scan.exists_apart_of_after hpattern hnames hfront hfind hafter hopener hgives.first
  have hreached := Scan.run_of_after hafter
  cases hrun : opening.run macros.finder with
  | failed | underflow =>
    rw [expand_of_find hfind, hreached, hrun] at hok
    cases hok
  | done last =>
    obtain ⟨final, rest, hfinal, hlast, hboth⟩ := Scan.exists_run_of_returned halongside hapart
      hsaves hgives.guessed hreturned hplace hrun
    have hother : macros.finder [] (front ++ '$' :: '(' :: ' ' :: '(' :: behind) = some other :=
      hspaced
    rw [expand_of_run_eq_done hfind (hreached.trans hrun),
      expand_of_run_eq_done hother (hsecond.trans hfinal)]
    exact ⟨rfl, rest, hlast, hboth⟩

/-- A list in a subshell, which is not arithmetic, with a macro behind the subshell. -/
theorem expand_unix_of_givesUp_subshell :
    (Macro.expand .unix (Macros.mk [(['X'], "a b".toList)] .default).finder
        "echo $( (cd /x) && ls %\x7bX\x7d)".toList).ok = true ∧
      ∃ inside, "echo $((cd /x) && ls 'a b')".toList = "echo $((".toList ++ inside ∧
        (Macro.expand .unix (Macros.mk [(['X'], "a b".toList)] .default).finder
          "echo $( (cd /x) && ls %\x7bX\x7d)".toList).text = "echo $( (".toList ++ inside := by
  have hnames : Scan.HasNoOpener (Macros.mk [(['X'], "a b".toList)] .default) := by
    intro name value hvalue
    have hmem : name ∈ [['X']] := (Table.isSome_get? _ name).mp (Option.isSome_of_eq_some hvalue)
    obtain rfl := List.mem_singleton.mp hmem
    decide
  have hplain : ¬['$', '(', '('] <:+: "echo ".toList := by decide
  have hgives : GivesUp (Macros.mk [(['X'], "a b".toList)] .default).finder
      ("echo ".toList ++ '$' :: '(' :: '(' :: "cd /x) && ls %\x7bX\x7d)".toList)
      ⟨"echo ".toList.reverse.map .literal, "$((cd /x) && ls %\x7bX\x7d)".toList,
        some ⟨16, 4, "a b".toList, by decide⟩, .basic, [], []⟩ :=
    ⟨⟨⟨21, 4, "a b".toList, by decide⟩, 5, by decide +kernel, rfl⟩, by decide, rfl, 5, _, rfl, rfl⟩
  obtain ⟨hok, inside, hfirst, hsecond⟩ :=
    expand_unix_of_givesUp rfl hnames hplain hgives (by decide +kernel)
  have hexpanded : (Macro.expand .unix (Macros.mk [(['X'], "a b".toList)] .default).finder
      ("echo ".toList ++ '$' :: '(' :: '(' :: "cd /x) && ls %\x7bX\x7d)".toList)).text =
        "echo $((cd /x) && ls 'a b')".toList := by
    decide +kernel
  rw [hexpanded] at hfirst
  exact ⟨hok, inside, hfirst, hsecond⟩

/-- The blank may make the name of a macro out of what was none. -/
theorem not_expand_unix_of_givesUp_in_name :
    ¬∀ opening,
      GivesUp (Macros.mk [(['X'], ['1']), ("a$( (b) )".toList, ['v'])] .default).finder
          ("%\x7ba".toList ++ '$' :: '(' :: '(' :: "b) )\x7d%\x7bX\x7d".toList) opening →
        (Macro.expand .unix
          (Macros.mk [(['X'], ['1']), ("a$( (b) )".toList, ['v'])] .default).finder
          ("%\x7ba".toList ++ '$' :: '(' :: '(' :: "b) )\x7d%\x7bX\x7d".toList)).ok = true →
        (Macro.expand .unix
            (Macros.mk [(['X'], ['1']), ("a$( (b) )".toList, ['v'])] .default).finder
            ("%\x7ba".toList ++ '$' :: '(' :: ' ' :: '(' :: "b) )\x7d%\x7bX\x7d".toList)).ok =
          true ∧
        ∃ inside,
          (Macro.expand .unix
              (Macros.mk [(['X'], ['1']), ("a$( (b) )".toList, ['v'])] .default).finder
              ("%\x7ba".toList ++ '$' :: '(' :: '(' :: "b) )\x7d%\x7bX\x7d".toList)).text =
            textOf opening.finished ++ '$' :: '(' :: '(' :: inside ∧
          (Macro.expand .unix
              (Macros.mk [(['X'], ['1']), ("a$( (b) )".toList, ['v'])] .default).finder
              ("%\x7ba".toList ++ '$' :: '(' :: ' ' :: '(' :: "b) )\x7d%\x7bX\x7d".toList)).text =
            textOf opening.finished ++ '$' :: '(' :: ' ' :: '(' :: inside := by
  intro hclaim
  have hgives : GivesUp (Macros.mk [(['X'], ['1']), ("a$( (b) )".toList, ['v'])] .default).finder
      ("%\x7ba".toList ++ '$' :: '(' :: '(' :: "b) )\x7d%\x7bX\x7d".toList)
      ⟨"%\x7ba".toList.reverse.map .literal, "$((b) )\x7d%\x7bX\x7d".toList,
        some ⟨8, 4, ['1'], by decide⟩, ⟨.brace, false⟩, [.basic], []⟩ :=
    ⟨⟨⟨11, 4, ['1'], by decide⟩, 3, by decide +kernel, rfl⟩, by decide, rfl, 1, _, rfl, rfl⟩
  obtain ⟨-, inside, -, hspaced⟩ := hclaim _ hgives (by decide +kernel)
  have hexpanded : (Macro.expand .unix
      (Macros.mk [(['X'], ['1']), ("a$( (b) )".toList, ['v'])] .default).finder
      ("%\x7ba".toList ++ '$' :: '(' :: ' ' :: '(' :: "b) )\x7d%\x7bX\x7d".toList)).text =
        ['v', '1'] := by
    decide +kernel
  rw [hexpanded] at hspaced
  exact absurd (List.cons.inj hspaced).1 (by decide)

end CommandLine.Macro.Unix
