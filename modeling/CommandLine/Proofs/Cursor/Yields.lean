import CommandLine.Cursor.Basic

/-!
What a cursor comes upon on its way to the end of a line, as a relation between the text in front of
it and the arguments. The way leaves the line as it is: what is in front of the cursor is always a
last part of the line, also where a scan goes back.
-/

set_option autoImplicit false

namespace CommandLine.Cursor

/-! ### What is left of a text -/

namespace Unix

theorem suffix_afterBackquote {text rest : List Char} (h : afterBackquote text = some rest) :
    rest <:+ text := by
  fun_induction afterBackquote text with
  | case1 => cases h
  | case2 =>
    cases h
    exact List.suffix_cons ..
  | case3 c text ih => exact ((ih h).trans (List.suffix_cons ..)).trans (List.suffix_cons ..)
  | case4 c text _ _ ih => exact (ih h).trans (List.suffix_cons ..)

namespace Scan

/-- What is left, and all that the scan may go back to, are last parts of a text. -/
structure Within (text : List Char) (scan : Scan) : Prop where
  rest : scan.rest <:+ text
  saves : ∀ save ∈ scan.saves, save <:+ text

section

variable {text rest : List Char} {scan next : Scan} {c : Char}

theorem Within.moved (h : Within text scan) (hrest : next.rest <:+ scan.rest)
    (hsaves : next.saves = scan.saves) : Within text next :=
  ⟨hrest.trans h.rest, fun save hsave ↦ h.saves save (hsaves ▸ hsave)⟩

theorem Within.pop (h : Within text scan) (hrest : rest <:+ scan.rest)
    (hstep : scan.pop rest = .more next) : Within text next := by
  unfold Scan.pop at hstep
  split at hstep <;> cases hstep
  exact h.moved hrest rfl

theorem Within.closeArithmetic (h : Within text scan) (hrest : rest <:+ scan.rest)
    (hstep : scan.closeArithmetic rest = .more next) : Within text next := by
  unfold Scan.closeArithmetic at hstep
  split at hstep
  · cases hstep
  · rename_i save saves hsaves
    have hkept : Within text { scan with saves := saves } :=
      ⟨h.rest, fun other hother ↦ h.saves other (hsaves ▸ List.mem_cons_of_mem _ hother)⟩
    exact hkept.pop hrest hstep

theorem Within.reopen (h : Within text scan) (hstep : scan.reopen = .more next) :
    Within text next := by
  unfold Scan.reopen at hstep
  split at hstep <;> cases hstep
  rename_i save saves hsaves
  exact ⟨h.saves save (hsaves ▸ List.mem_cons_self),
    fun other hother ↦ h.saves other (hsaves ▸ List.mem_cons_of_mem _ hother)⟩

theorem Within.readEscaped (h : Within text scan) (hrest : rest <:+ scan.rest)
    (hstep : scan.readEscaped rest = .more next) : Within text next := by
  unfold Scan.readEscaped at hstep
  split at hstep <;> cases hstep
  exact h.moved ((List.suffix_cons ..).trans hrest) rfl

theorem Within.readDollar (h : Within text scan) (hrest : rest <:+ scan.rest)
    (hstep : scan.readDollar rest = .more next) : Within text next := by
  unfold Scan.readDollar at hstep
  split at hstep <;> cases hstep
  · exact h.moved (List.nil_suffix ..) rfl
  · rename_i behind
    have hbehind : behind <:+ scan.rest :=
      ((List.suffix_cons ..).trans (List.suffix_cons ..)).trans hrest
    refine ⟨hbehind.trans h.rest, fun save hsave ↦ ?_⟩
    rcases List.mem_cons.mp hsave with rfl | hsave
    · exact hbehind.trans h.rest
    · exact h.saves save hsave
  · exact h.moved ((List.suffix_cons ..).trans hrest) rfl
  · exact h.moved ((List.suffix_cons ..).trans hrest) rfl
  · exact h.moved hrest rfl

theorem Within.readBackquote (h : Within text scan) (hrest : rest <:+ scan.rest)
    (hstep : scan.readBackquote rest = .more next) : Within text next := by
  unfold Scan.readBackquote at hstep
  split at hstep <;> cases hstep
  rename_i hafter
  exact h.moved ((suffix_afterBackquote hafter).trans hrest) rfl

theorem Within.readParenthesis (h : Within text scan) (hrest : rest <:+ scan.rest)
    (hstep : scan.readParenthesis rest = .more next) : Within text next := by
  unfold Scan.readParenthesis at hstep
  split at hstep
  · split at hstep
    · cases hstep
    · exact h.closeArithmetic ((List.suffix_cons ..).trans hrest) hstep
    · exact h.reopen hstep
  · exact h.pop hrest hstep
  · exact h.pop hrest hstep
  · cases hstep

theorem Within.readPlain (h : Within text scan) (hrest : rest <:+ scan.rest)
    (hstep : scan.readPlain c rest = .more next) : Within text next := by
  unfold Scan.readPlain at hstep
  repeat' split at hstep
  · exact h.readParenthesis hrest hstep
  all_goals cases hstep
  all_goals exact h.moved hrest rfl

theorem Within.step (h : Within text scan) (hstep : scan.step = .more next) :
    Within text next := by
  unfold Scan.step at hstep
  split at hstep
  · cases hstep
  rename_i c rest hscan
  have hrest : rest <:+ scan.rest := hscan ▸ List.suffix_cons ..
  unfold read at hstep
  repeat' split at hstep
  all_goals first
    | exact h.pop hrest hstep
    | exact h.readEscaped hrest hstep
    | exact h.readDollar hrest hstep
    | exact h.readBackquote hrest hstep
    | exact h.readPlain hrest hstep
    | cases hstep
  all_goals exact h.moved hrest rfl

theorem Within.run (h : Within text scan) {final : Scan} {complete : Bool}
    (hrun : scan.run = some (final, complete)) : final.rest <:+ text := by
  fun_induction Scan.run scan with
  | case1 scan next hstep ih => exact ih (h.step hstep) hrun
  | case2 scan found complete hstep =>
    cases hrun
    obtain ⟨-, hsame | ⟨hnil, -⟩⟩ := rest_of_ended hstep
    · exact hsame ▸ h.rest
    · exact hnil ▸ List.nil_suffix ..
  | case3 => cases hrun

end

end Scan

theorem suffix_next (text : List Char) : (next text).rest <:+ text := by
  unfold next
  split
  · rename_i hrun
    have hstart : Scan.Within text (.start text) := ⟨List.suffix_refl text, by simp [Scan.start]⟩
    exact hstart.run hrun
  · exact List.nil_suffix ..

end Unix

theorem Windows.Scan.suffix_run (scan : Windows.Scan) (text : List Char) :
    (scan.run text).rest <:+ text := by
  induction text generalizing scan with
  | nil => exact (rest_finish scan []).symm ▸ List.suffix_refl []
  | cons c rest ih =>
    have hrun (next : Windows.Scan) : (next.run rest).rest <:+ c :: rest :=
      (ih next).trans (List.suffix_cons ..)
    have hfinish : (scan.finish (c :: rest)).rest <:+ c :: rest :=
      (rest_finish scan (c :: rest)).symm ▸ List.suffix_refl _
    unfold run
    repeat' split
    · exact hrun _
    · exact hfinish
    · exact hrun _
    · exact hfinish
    · exact hrun _

/-- What follows an argument is a last part of the text in which it was found. -/
theorem suffix_find (dialect : Dialect) (text : List Char) :
    (find dialect text).rest <:+ text := by
  cases dialect with
  | unix => exact Unix.suffix_next text
  | windows => exact Windows.Scan.suffix_run .start text

/-! ### Moving on -/

@[simp] theorem dialect_advance (cursor : Cursor) : cursor.advance.2.dialect = cursor.dialect := by
  unfold advance
  dsimp only
  split <;> rfl

/-- Moving on leaves the line as it is. -/
@[simp] theorem line_advance (cursor : Cursor) : cursor.advance.2.line = cursor.line := by
  obtain ⟨consumed, hconsumed⟩ := suffix_find cursor.dialect cursor.rest
  have htake : cursor.rest.take
      (cursor.rest.length - (find cursor.dialect cursor.rest).rest.length) = consumed := by
    have hlength := congrArg List.length hconsumed
    rw [List.length_append] at hlength
    rw [← hlength, Nat.add_sub_cancel]
    exact (congrArg (List.take consumed.length) hconsumed).symm.trans List.take_left
  unfold advance
  dsimp only
  rw [htake]
  split <;> simp only [line, List.append_assoc, hconsumed]

/-- Moving over an argument that is found. -/
theorem advance_of_find {cursor : Cursor} {consumed tail : List Char} {value : Word} {simple : Bool}
    (hrest : cursor.rest = consumed ++ tail)
    (hfind : find cursor.dialect (consumed ++ tail) = ⟨true, tail, value, simple⟩) :
    cursor.advance = (true, ⟨cursor.dialect, cursor.passed ++ cursor.current, consumed, tail, value,
      simple⟩) := by
  simp [advance, hrest, hfind]

/-- What has been found where moving on succeeds. -/
theorem find_of_advance {cursor next : Cursor} (h : cursor.advance = (true, next)) :
    find cursor.dialect cursor.rest = ⟨true, next.rest, next.value, next.simple⟩ ∧
      cursor.rest = next.current ++ next.rest ∧ next.dialect = cursor.dialect ∧
        next.passed = cursor.passed ++ cursor.current := by
  obtain ⟨consumed, hconsumed⟩ := suffix_find cursor.dialect cursor.rest
  have hsuccess : (find cursor.dialect cursor.rest).success = true := congrArg Prod.fst h
  generalize hfound : find cursor.dialect cursor.rest = found at hconsumed hsuccess
  obtain ⟨success, rest, value, simple⟩ := found
  obtain rfl : success = true := hsuccess
  rw [advance_of_find hconsumed.symm (hconsumed.symm ▸ hfound)] at h
  cases h
  exact ⟨rfl, hconsumed.symm, rfl, rfl⟩

/-- Moving on to the end of the line where nothing is found. -/
theorem advance_of_not_find {cursor : Cursor} {value : Word} {simple : Bool}
    (hfind : find cursor.dialect cursor.rest = ⟨false, [], value, simple⟩) :
    cursor.advance = (false, ⟨cursor.dialect, cursor.passed, cursor.current ++ cursor.rest, [],
      value, simple⟩) := by
  simp [advance, hfind]

theorem collect_of_advance {cursor next : Cursor} (h : cursor.advance = (true, next)) :
    cursor.collect = ((next.value, next.simple) :: next.collect.1, next.collect.2) := by
  rw [collect]
  split
  · rename_i found hfound
    rw [h] at hfound
    cases hfound
    rfl
  · rename_i found hfound
    rw [h] at hfound
    cases hfound

theorem collect_of_not_advance {cursor next : Cursor} (h : cursor.advance = (false, next)) :
    cursor.collect = ([], next) := by
  rw [collect]
  split
  · rename_i found hfound
    rw [h] at hfound
    cases hfound
  · rename_i found hfound
    rw [h] at hfound
    cases hfound
    rfl

/-- Moving to the end leaves the line as it is. -/
theorem line_collect (cursor : Cursor) : cursor.collect.2.line = cursor.line := by
  fun_induction collect cursor with
  | case1 cursor next h behind ih =>
    have hline : next.line = cursor.line := by rw [← line_advance cursor, h]
    rw [← hline]
    exact ih
  | case2 cursor next h =>
    rw [← line_advance cursor, h]

/-! ### All arguments of a text -/

/-- Finding one argument after the other in a text comes upon these, and then upon no more. -/
inductive Yields (dialect : Dialect) : List Char → List (Word × Bool) → Prop
  | done {text : List Char} (h : (find dialect text).success = false) : Yields dialect text []
  | next {text rest : List Char} {value : Word} {simple : Bool} {arguments : List (Word × Bool)}
      (h : find dialect text = ⟨true, rest, value, simple⟩)
      (hrest : Yields dialect rest arguments) :
      Yields dialect text ((value, simple) :: arguments)

/-- Every text yields its arguments. -/
theorem exists_yields (dialect : Dialect) (text : List Char) :
    ∃ arguments, Yields dialect text arguments := by
  induction hlength : text.length using Nat.strongRecOn generalizing text with
  | ind length ih =>
    cases hsuccess : (find dialect text).success with
    | false => exact ⟨[], .done hsuccess⟩
    | true =>
      obtain ⟨arguments, hrest⟩ := ih _ (hlength ▸ length_find hsuccess) _ rfl
      have hfind : find dialect text = ⟨true, (find dialect text).rest, (find dialect text).value,
          (find dialect text).simple⟩ := by
        rw [← hsuccess]
      exact ⟨_, .next hfind hrest⟩

/-- A cursor collects what the text in front of it yields. -/
theorem Yields.collect {cursor : Cursor} {text : List Char} {arguments : List (Word × Bool)}
    (h : Yields cursor.dialect text arguments) (htext : cursor.rest = text) :
    cursor.collect.1 = arguments := by
  generalize hdialect : cursor.dialect = dialect at h
  induction h generalizing cursor with
  | done hfind =>
    have hadvance : cursor.advance = (false, cursor.advance.2) :=
      Prod.ext (by simp [advance, hdialect, htext, hfind]) rfl
    rw [collect_of_not_advance hadvance]
  | next hfind _ ih =>
    have hadvance : cursor.advance = (true, cursor.advance.2) :=
      Prod.ext (by simp [advance, hdialect, htext, hfind]) rfl
    have hrest := cursor.rest_advance
    rw [hdialect, htext, hfind] at hrest
    rw [collect_of_advance hadvance, ih hrest (by rw [dialect_advance, hdialect])]
    simp [advance, hdialect, htext, hfind]

/-- Moving on succeeds as long as there are arguments. -/
theorem Yields.success_find {dialect : Dialect} {text : List Char}
    {arguments : List (Word × Bool)} (h : Yields dialect text arguments) :
    (find dialect text).success = !arguments.isEmpty := by
  cases h with
  | done hdone => exact hdone
  | next hnext _ => rw [hnext]; rfl

/-- Only what is found matters. -/
theorem Yields.of_find_eq {dialect : Dialect} {text other : List Char}
    {arguments : List (Word × Bool)} (h : Yields dialect text arguments)
    (hfind : find dialect other = find dialect text) : Yields dialect other arguments := by
  cases h with
  | done hdone => exact .done (hfind ▸ hdone)
  | next hnext hrest => exact .next (hfind.trans hnext) hrest

/-- Words of which the first is found next, and the others lie ahead of what follows it, are all
that is found. -/
theorem Yields.of_ahead {dialect : Dialect} {ahead : List Char → List Word → Prop}
    (hahead : ∀ text words, ahead text words →
      (words = [] ∧ (find dialect text).success = false) ∨
        ∃ word others rest behind, words = word :: others ∧
          find dialect text = ⟨true, rest, word, true⟩ ∧
            find dialect rest = find dialect behind ∧ ahead behind others)
    {text : List Char} {words : List Word} (h : ahead text words) :
    Yields dialect text (words.map fun word ↦ (word, true)) := by
  induction words generalizing text with
  | nil =>
    rcases hahead text [] h with ⟨-, hdone⟩ | ⟨_, _, _, _, hwords, -⟩
    · exact .done hdone
    · cases hwords
  | cons word words ih =>
    rcases hahead text _ h with ⟨hwords, -⟩ | ⟨_, _, rest, behind, hwords, hfind, hrest, hothers⟩
    · cases hwords
    · cases hwords
      exact .next hfind ((ih hothers).of_find_eq hrest)

theorem Yields.arguments_eq {dialect : Dialect} {line : List Char}
    {arguments : List (Word × Bool)} (h : Yields dialect line arguments) :
    Cursor.arguments dialect line = arguments := by
  have hstart : Yields (ofLine dialect line).dialect line arguments := h
  exact hstart.collect rfl

end CommandLine.Cursor
