import CommandLine.Proofs.Cursor.Stopping
import Mathlib.Data.List.TakeWhile

/-!
What a cursor takes from a line when it deletes the argument that it has found last. All that it has
moved over goes: also what it has moved over since, in a search that came upon no argument, and at
the start of the line any blanks. So an argument goes alone, with the spaces and tabs next to it, as
long as those blanks are spaces and tabs and such a search has nothing but spaces and tabs to move
over; a quotation that is left open, or a blank of another kind, goes with it. What the cursor comes
upon further on does not depend on what it deletes.
-/

set_option autoImplicit false

namespace CommandLine.Cursor

open CommandLine.Windows (isSeparator)

variable {dialect : Dialect} {c : Char} {text rest : List Char}

/-! ### Searches -/

namespace Unix

namespace Scan

variable {next final : Scan}

/-- A scan goes on over the first character of an argument, or comes to the end of the text. -/
theorem rest_of_ended_start (hc : isSeparator c = false) (hends : endsArguments .unix c = false)
    {complete : Bool} (hstep : (start (c :: rest)).step = .ended final complete) :
    final.rest = [] := by
  have hsettled : final.Settled complete := by
    have hsound := (balanced_start (c :: rest)).sound_step
    rwa [hstep] at hsound
  obtain ⟨hword, hsame | ⟨hnil, -⟩⟩ := rest_of_ended hstep
  · rcases hsettled with ⟨-, -, hin⟩ | hend
    · rw [hword] at hin
      cases hin
    · rw [hsame, start, atEnd_cons_of_not_isSeparator hc, hends] at hend
      cases hend
  · exact hnil

/-- A step from the start of a text takes up a character of it. -/
theorem within_of_step_start (hstep : (start (c :: rest)).step = .more next) :
    Within rest next := by
  have hwithin : Within (c :: rest) next :=
    Within.step ⟨List.suffix_refl _, by simp [start]⟩ hstep
  have htail (left : List Char) (hleft : left <:+ c :: rest)
      (hlength : left.length < (c :: rest).length) : left <:+ rest := by
    rcases List.suffix_cons_iff.mp hleft with rfl | htail
    · exact absurd hlength (Nat.lt_irrefl _)
    · exact htail
  rcases (follows_step hstep).rest with ⟨hlength, hsaves⟩ | hback
  · refine ⟨htail _ hwithin.rest hlength, fun save hsave ↦ ?_⟩
    rcases hsaves save hsave with hold | hless
    · cases hold
    · exact htail save (hwithin.saves save hsave) hless
  · cases hback

end Scan

theorem suffix_next_cons (hc : isSeparator c = false) (hends : endsArguments .unix c = false)
    (rest : List Char) : (next (c :: rest)).rest <:+ rest := by
  rw [next, Scan.run]
  split
  · rename_i final complete hrun
    split at hrun
    · rename_i hstep
      exact (Scan.within_of_step_start hstep).run hrun
    · rename_i hstep
      cases hrun
      rw [Scan.rest_of_ended_start hc hends hstep]
      exact List.nil_suffix
    · cases hrun
  · exact List.nil_suffix

end Unix

theorem Windows.suffix_next_cons (hc : isSeparator c = false)
    (hends : endsArguments .windows c = false) (rest : List Char) :
    (next (c :: rest)).rest <:+ rest := by
  rw [next, Scan.run]
  by_cases hcircumflex : Scan.start.shell = .plain ∧ c = '^'
  · rw [if_pos hcircumflex]
    exact Scan.suffix_run _ rest
  · rw [if_neg hcircumflex, if_neg (fun h ↦ by rw [endsArguments, h.2] at hends; cases hends),
      if_neg (fun h ↦ by rw [hc] at h; cases h.2)]
    exact Scan.suffix_run _ rest

/-- A search that does not stop at the first character takes it up. -/
theorem suffix_find_cons (hc : isSeparator c = false) (hends : endsArguments dialect c = false)
    (rest : List Char) : (find dialect (c :: rest)).rest <:+ rest := by
  cases dialect with
  | unix => exact Unix.suffix_next_cons hc hends rest
  | windows => exact Windows.suffix_next_cons hc hends rest

/-- What a search moves over is spaces and tabs only where nothing else is in front of the end of
the arguments. -/
theorem exists_moved (dialect : Dialect) (text : List Char) : ∃ moved,
    text = moved ++ (find dialect text).rest ∧
      (atEnd dialect text = false → ∃ c ∈ moved, isSeparator c = false) := by
  induction text with
  | nil =>
    obtain ⟨moved, hmoved⟩ := suffix_find dialect []
    exact ⟨moved, hmoved.symm, fun h ↦ by cases h⟩
  | cons c rest ih =>
    by_cases hc : isSeparator c = true
    · obtain ⟨moved, hmoved, hother⟩ := ih
      refine ⟨c :: moved, ?_, fun h ↦ ?_⟩
      · rw [find_separator dialect hc, List.cons_append, ← hmoved]
      · rw [atEnd, List.dropWhile_cons_of_pos hc] at h
        obtain ⟨other, hmem, hother⟩ := hother h
        exact ⟨other, List.mem_cons_of_mem _ hmem, hother⟩
    · rw [Bool.not_eq_true] at hc
      by_cases hends : endsArguments dialect c = true
      · refine ⟨[], ?_, fun h ↦ ?_⟩
        · rw [find_of_endsArguments hends]
          rfl
        · rw [atEnd, List.dropWhile_cons_of_neg (by simp [hc])] at h
          exact absurd hends (by simpa using h)
      · obtain ⟨moved, hmoved⟩ := suffix_find_cons hc (by simpa using hends) rest
        exact ⟨c :: moved, by rw [List.cons_append, hmoved], fun _ ↦ ⟨c, List.mem_cons_self, hc⟩⟩

/-! ### A cursor at an argument -/

/-- Moves over so many arguments, if there are as many. -/
def moveOver : Nat → Cursor → Option Cursor
  | 0, cursor => some cursor
  | count + 1, cursor =>
    match cursor.advance with
    | (true, next) => moveOver count next
    | (false, _) => none

/-- The spaces and tabs in front of the current argument. -/
def blanks (cursor : Cursor) : List Char := cursor.current.takeWhile isSeparator

/-- The current argument as it is written. -/
def source (cursor : Cursor) : List Char := cursor.current.dropWhile isSeparator

variable {cursor next last : Cursor} {line moved others : List Char} {count : Nat}

/-- A cursor that has found an argument of a line, the first one or one behind `count` others. -/
structure Located (dialect : Dialect) (line : List Char) (count : Nat) (cursor : Cursor) :
    Prop where
  line : cursor.line = line
  passed : cursor.passed = [] ↔ count = 0
  found : find dialect (cursor.current ++ cursor.rest) =
    ⟨true, cursor.rest, cursor.value, cursor.simple⟩
  dialect : cursor.dialect = dialect

theorem Located.current_ne_nil (h : Located dialect line count cursor) : cursor.current ≠ [] := by
  intro hnil
  have hlength := length_find (congrArg Found.success h.found)
  rw [h.found, hnil] at hlength
  exact absurd hlength (Nat.lt_irrefl _)

theorem located_ofLine (h : (ofLine dialect line).advance = (true, next)) :
    Located dialect line 0 next := by
  obtain ⟨hfind, hrest, hdialect, hpassed⟩ := find_of_advance h
  have hline : (ofLine dialect line).advance.2.line = line := line_advance _
  rw [h] at hline
  exact ⟨hline, by simp [hpassed, ofLine], hrest ▸ hfind, hdialect⟩

theorem Located.advance (h : Located dialect line count cursor)
    (hadvance : cursor.advance = (true, next)) : Located dialect line (count + 1) next := by
  obtain ⟨hfind, hrest, hdialect, hpassed⟩ := find_of_advance hadvance
  have hline : cursor.advance.2.line = line := (line_advance cursor).trans h.line
  rw [hadvance] at hline
  rw [h.dialect] at hfind hdialect
  exact ⟨hline, by simp [hpassed, h.current_ne_nil], hrest ▸ hfind, hdialect⟩

theorem Located.moveOver {more : Nat} (h : Located dialect line count cursor)
    (hmove : moveOver more cursor = some last) : Located dialect line (count + more) last := by
  induction more generalizing cursor count with
  | zero =>
    cases hmove
    exact h
  | succ more ih =>
    rw [Cursor.moveOver] at hmove
    split at hmove
    · rename_i next hadvance
      have hlast := ih (h.advance hadvance) hmove
      rwa [Nat.add_assoc, Nat.add_comm 1] at hlast
    · cases hmove

/-- However far a cursor has moved, it is at an argument of its line. -/
theorem located_of_moveOver (h : moveOver (count + 1) (ofLine dialect line) = some cursor) :
    Located dialect line count cursor := by
  rw [moveOver] at h
  split at h
  · rename_i next hadvance
    have hlast := (located_ofLine hadvance).moveOver h
    rwa [Nat.zero_add] at hlast
  · cases h

/-! ### What a deletion leaves -/

/-- The current argument is lost, and nothing else but spaces and tabs next to it. -/
def OnlyLoses (cursor : Cursor) (left : List Char) : Prop :=
  ∃ kept before after others, cursor.passed ++ cursor.blanks = kept ++ before ∧
    cursor.rest = after ++ others ∧ (∀ c ∈ before ++ after, isSeparator c = true) ∧
      left = kept ++ others

/-- The number of characters that are neither spaces nor tabs. -/
def visible (text : List Char) : Nat := text.countP (!isSeparator ·)

theorem visible_append (first second : List Char) :
    visible (first ++ second) = visible first + visible second := List.countP_append

theorem visible_eq_zero : visible text = 0 ↔ ∀ c ∈ text, isSeparator c = true := by
  simp [visible, List.countP_eq_zero]

/-- If what was passed is kept, and some text behind the argument is not, then this text must be
spaces and tabs. -/
theorem onlyLoses_iff (hrest : cursor.rest = moved ++ others) :
    cursor.OnlyLoses (cursor.passed ++ others) ↔ ∀ c ∈ moved, isSeparator c = true := by
  have hblanks : ∀ c ∈ cursor.blanks, isSeparator c = true := fun c hc ↦ List.mem_takeWhile_imp hc
  constructor
  · rintro ⟨kept, before, after, behind, hfront, hback, hlost, hleft⟩
    rw [← visible_eq_zero]
    rw [← visible_eq_zero] at hblanks hlost
    rw [hrest] at hback
    have hfront := congrArg visible hfront
    have hback := congrArg visible hback
    have hleft := congrArg visible hleft
    simp only [visible_append] at hfront hback hleft hlost
    omega
  · intro hmoved
    refine ⟨cursor.passed, cursor.blanks, moved, others, rfl, hrest, fun c hc ↦ ?_, rfl⟩
    rcases List.mem_append.mp hc with hblank | hmem
    · exact hblanks c hblank
    · exact hmoved c hmem

/-- At the start of the line a deletion goes on over the blanks behind the cursor. -/
theorem line_deleteCurrent (cursor : Cursor) : ∃ eaten others, cursor.rest = eaten ++ others ∧
    cursor.deleteCurrent.line = cursor.passed ++ others ∧
      eaten = if cursor.passed = [] then cursor.rest.takeWhile Text.isBlank else [] := by
  by_cases hpassed : cursor.passed = []
  · refine ⟨_, cursor.rest.dropWhile Text.isBlank, List.takeWhile_append_dropWhile.symm, ?_,
      (if_pos hpassed).symm⟩
    simp [deleteCurrent, Cursor.line, hpassed]
  · refine ⟨[], cursor.rest, rfl, ?_, (if_neg hpassed).symm⟩
    simp [deleteCurrent, Cursor.line, hpassed]

theorem onlyLoses_deleteCurrent_iff : cursor.OnlyLoses cursor.deleteCurrent.line ↔
    (cursor.passed = [] → ∀ c ∈ cursor.rest.takeWhile Text.isBlank, isSeparator c = true) := by
  obtain ⟨eaten, others, hrest, hline, heaten⟩ := line_deleteCurrent cursor
  rw [hline, onlyLoses_iff hrest, heaten]
  by_cases hpassed : cursor.passed = []
  · rw [if_pos hpassed]
    exact ⟨fun h _ ↦ h, fun h ↦ h hpassed⟩
  · rw [if_neg hpassed]
    exact ⟨fun _ h ↦ absurd h hpassed, fun _ ↦ by simp⟩

theorem takeWhile_isBlank_of_atEnd (h : atEnd dialect text = true) :
    (text.dropWhile isSeparator).takeWhile Text.isBlank = [] := by
  unfold atEnd at h
  cases hrest : text.dropWhile isSeparator with
  | nil => rfl
  | cons c rest =>
    rw [hrest] at h
    exact List.takeWhile_cons_of_neg (by simp [isBlank_of_endsArguments h])

/-- After a search that came upon nothing, the cursor has moved over more than the argument, unless
it was in front of the end of the arguments. -/
theorem onlyLoses_deleteCurrent_advance_iff (h : cursor.advance = (false, last)) :
    cursor.OnlyLoses last.deleteCurrent.line ↔ atEnd cursor.dialect cursor.rest = true := by
  have hsuccess : (find cursor.dialect cursor.rest).success = false := congrArg Prod.fst h
  obtain rfl : cursor.advance.2 = last := congrArg Prod.snd h
  have hpassed : cursor.advance.2.passed = cursor.passed := by simp [advance, hsuccess]
  obtain ⟨eaten, others, hrest, hline, heaten⟩ := line_deleteCurrent cursor.advance.2
  obtain ⟨moved, hmoved, hother⟩ := exists_moved cursor.dialect cursor.rest
  rw [rest_advance] at hrest heaten
  have hbehind : cursor.rest = (moved ++ eaten) ++ others := by
    rw [List.append_assoc, ← hrest, ← hmoved]
  rw [hline, hpassed, onlyLoses_iff hbehind]
  constructor
  · intro hall
    by_contra hend
    obtain ⟨c, hc, hseparator⟩ := hother (by simpa using hend)
    rw [hall c (List.mem_append_left _ hc)] at hseparator
    cases hseparator
  · intro hend
    rw [find_of_atEnd hend] at hmoved heaten
    dsimp only at hmoved heaten
    have hseparators : moved = cursor.rest.takeWhile isSeparator := by
      have hsplit := List.takeWhile_append_dropWhile (p := isSeparator) (l := cursor.rest)
      exact (List.append_cancel_right (hsplit.trans hmoved)).symm
    rw [takeWhile_isBlank_of_atEnd hend, ite_self] at heaten
    rw [heaten, hseparators, List.append_nil]
    exact fun c hc ↦ List.mem_takeWhile_imp hc

/-- However far a cursor has moved, the argument that it has found last is found where it is
written. To delete it takes away nothing else but spaces and tabs next to it, unless the argument is
the first one of the line and a blank of another kind follows on it. To delete it after a search
that came upon nothing does so just if the argument is in front of the end of the arguments. -/
theorem onlyLoses_deleteCurrent (dialect : Dialect) (line : List Char) {count : Nat}
    {found : Cursor} (h : moveOver (count + 1) (ofLine dialect line) = some found) :
    line = found.passed ++ found.blanks ++ found.source ++ found.rest ∧
      find dialect (found.source ++ found.rest) =
        ⟨true, found.rest, found.value, found.simple⟩ ∧
      (found.OnlyLoses found.deleteCurrent.line ↔
        (count = 0 → ∀ c ∈ found.rest.takeWhile Text.isBlank, isSeparator c = true)) ∧
      ∀ last, found.advance = (false, last) →
        (found.OnlyLoses last.deleteCurrent.line ↔ atEnd dialect found.rest = true) := by
  obtain ⟨hline, hpassed, hfound, rfl⟩ := located_of_moveOver h
  have hcurrent : found.current = found.blanks ++ found.source :=
    List.takeWhile_append_dropWhile.symm
  refine ⟨?_, ?_, ?_, fun last hlast ↦ onlyLoses_deleteCurrent_advance_iff hlast⟩
  · rw [← hline, Cursor.line, hcurrent, ← List.append_assoc]
  · rw [← hfound, hcurrent, List.append_assoc]
    exact (find_separators _ (fun c hc ↦ List.mem_takeWhile_imp hc) _).symm
  · rw [onlyLoses_deleteCurrent_iff, hpassed]

/-- The last argument in front of a pipe goes alone before and after the cursor has come upon the
pipe. -/
theorem onlyLoses_deleteCurrent_pipe :
    let found : Cursor := ⟨.windows, ['a'], [' ', 'b'], [' ', '|', 'c'], ['b'], true⟩
    let last : Cursor := ⟨.windows, ['a'], [' ', 'b', ' '], ['|', 'c'], [], true⟩
    moveOver 2 (ofLine .windows "a b |c".toList) = some found ∧ found.advance = (false, last) ∧
      found.OnlyLoses found.deleteCurrent.line ∧ found.OnlyLoses last.deleteCurrent.line := by
  intro found last
  have hfound : moveOver (1 + 1) (ofLine .windows "a b |c".toList) = some found := by decide +kernel
  have hlast : found.advance = (false, last) := by decide +kernel
  obtain ⟨-, -, hnow, hlater⟩ := onlyLoses_deleteCurrent .windows "a b |c".toList hfound
  have hfirst : ¬(1 = 0) := by decide
  exact ⟨hfound, hlast, hnow.mpr fun h ↦ absurd h hfirst, (hlater last hlast).mpr (by decide)⟩

/-- A quotation that is left open goes with the argument in front of it, and so does a line feed
behind the first argument. -/
theorem not_onlyLoses_deleteCurrent :
    (∃ found last, moveOver 1 (ofLine .windows "a \"b".toList) = some found ∧
      found.advance = (false, last) ∧ last.deleteCurrent.line = [] ∧
        ¬found.OnlyLoses last.deleteCurrent.line) ∧
    ∃ found, moveOver 1 (ofLine .windows "a \nb".toList) = some found ∧
      found.deleteCurrent.line = ['b'] ∧ ¬found.OnlyLoses found.deleteCurrent.line := by
  constructor
  · let found : Cursor := ⟨.windows, [], ['a'], [' ', '"', 'b'], ['a'], true⟩
    let last : Cursor := ⟨.windows, [], ['a', ' ', '"', 'b'], [], [], true⟩
    have hlast : found.advance = (false, last) := by decide +kernel
    refine ⟨found, last, by decide +kernel, hlast, by decide +kernel, ?_⟩
    rw [onlyLoses_deleteCurrent_advance_iff hlast]
    decide
  · let found : Cursor := ⟨.windows, [], ['a'], [' ', '\n', 'b'], ['a'], true⟩
    refine ⟨found, by decide +kernel, by decide +kernel, ?_⟩
    rw [onlyLoses_deleteCurrent_iff]
    intro hblanks
    exact absurd (hblanks rfl '\n' (by decide +kernel)) (by decide)

/-! ### Deletions on the way -/

theorem suffix_deleteCurrent (cursor : Cursor) : cursor.deleteCurrent.rest <:+ cursor.rest := by
  unfold deleteCurrent
  split
  · exact List.dropWhile_suffix _
  · exact List.suffix_refl _

/-- Moves to the end, deletes some of the arguments as soon as they are found, and collects all of
them, each with whether it is simple. -/
def collectDeleting (deletes : Nat → Bool) (cursor : Cursor) : List (Word × Bool) :=
  match _h : cursor.advance with
  | (true, next) =>
    (next.value, next.simple) ::
      collectDeleting (fun index ↦ deletes (index + 1))
        (if deletes 0 then next.deleteCurrent else next)
  | (false, _) => []
termination_by cursor.rest.length
decreasing_by
  have hrest : next.rest.length < cursor.rest.length := by
    have hlength := length_find (congrArg Prod.fst _h)
    rwa [← rest_advance, _h] at hlength
  split
  · exact Nat.lt_of_le_of_lt (suffix_deleteCurrent next).length_le hrest
  · exact hrest

theorem collectDeleting_of_advance {deletes : Nat → Bool} (h : cursor.advance = (true, next)) :
    cursor.collectDeleting deletes = (next.value, next.simple) ::
      (if deletes 0 then next.deleteCurrent else next).collectDeleting
        fun index ↦ deletes (index + 1) := by
  rw [collectDeleting]
  split
  · rename_i found hfound
    rw [h] at hfound
    cases hfound
    rfl
  · rename_i hfound
    rw [h] at hfound
    cases hfound

theorem collectDeleting_of_not_advance {deletes : Nat → Bool}
    (h : cursor.advance = (false, next)) : cursor.collectDeleting deletes = [] := by
  rw [collectDeleting]
  split
  · rename_i hfound
    rw [h] at hfound
    cases hfound
  · rfl

theorem find_dropWhile_isBlank (dialect : Dialect)
    (hblank : ∀ c ∈ text, Text.isBlank c = true → isSeparator c = true) :
    find dialect (text.dropWhile Text.isBlank) = find dialect text := by
  have hsplit := List.takeWhile_append_dropWhile (p := Text.isBlank) (l := text)
  have hseparators : ∀ c ∈ text.takeWhile Text.isBlank, isSeparator c = true := fun c hc ↦
    hblank c ((List.takeWhile_prefix _).subset hc) (List.mem_takeWhile_imp hc)
  rw [← find_separators dialect hseparators, hsplit]

/-- Where all blanks are spaces and tabs, the same argument is found behind a deletion. -/
theorem find_deleteCurrent (dialect : Dialect) (cursor : Cursor)
    (hblank : ∀ c ∈ cursor.rest, Text.isBlank c = true → isSeparator c = true) :
    find dialect cursor.deleteCurrent.rest = find dialect cursor.rest := by
  unfold deleteCurrent
  split
  · exact find_dropWhile_isBlank dialect hblank
  · rfl

/-- What is found of a text does not depend on the deletions on the way. -/
theorem Yields.collectDeleting {arguments : List (Word × Bool)}
    (h : Yields cursor.dialect text arguments)
    (hfind : find cursor.dialect cursor.rest = find cursor.dialect text)
    (hblank : ∀ c ∈ cursor.rest, Text.isBlank c = true → isSeparator c = true)
    (deletes : Nat → Bool) : cursor.collectDeleting deletes = arguments := by
  generalize hdialect : cursor.dialect = dialect at h hfind
  induction h generalizing cursor deletes with
  | done hdone =>
    have hadvance : cursor.advance = (false, cursor.advance.2) :=
      Prod.ext (by simp [advance, hdialect, hfind, hdone]) rfl
    exact collectDeleting_of_not_advance hadvance
  | next hnext _ ih =>
    have hadvance : cursor.advance = (true, cursor.advance.2) :=
      Prod.ext (by simp [advance, hdialect, hfind, hnext]) rfl
    obtain ⟨hfound, hrest, hsame, -⟩ := find_of_advance hadvance
    rw [hdialect, hfind, hnext, Found.mk.injEq] at hfound
    obtain ⟨-, rfl, rfl, rfl⟩ := hfound
    have hbehind : ∀ c ∈ cursor.advance.2.rest, Text.isBlank c = true → isSeparator c = true :=
      fun c hc ↦ hblank c (hrest ▸ List.mem_append_right _ hc)
    rw [collectDeleting_of_advance hadvance]
    congr 1
    split
    · exact ih (fun c hc ↦ hbehind c ((suffix_deleteCurrent _).subset hc)) _
        (hsame.trans hdialect) (find_deleteCurrent _ _ hbehind)
    · exact ih hbehind _ (hsame.trans hdialect) rfl

/-- Where all blanks are spaces and tabs, a cursor finds the arguments of a line whichever of them
it deletes as soon as it has found them. -/
theorem collectDeleting_eq_arguments (dialect : Dialect) {line : List Char}
    (hblank : ∀ c ∈ line, Text.isBlank c = true → c = ' ' ∨ c = '\t') (deletes : Nat → Bool) :
    (ofLine dialect line).collectDeleting deletes = Cursor.arguments dialect line := by
  obtain ⟨arguments, hyields⟩ := exists_yields dialect line
  have hseparator : ∀ c ∈ line, Text.isBlank c = true → isSeparator c = true := fun c hc hc' ↦ by
    simpa [isSeparator] using hblank c hc hc'
  have hstart : Yields (ofLine dialect line).dialect line arguments := hyields
  rw [hstart.collectDeleting rfl hseparator, hyields.arguments_eq]

/-- All arguments but the second are deleted. -/
theorem collectDeleting_quotations :
    (ofLine .windows "\ta  %b% \"c d\"\t& e".toList).collectDeleting (fun index ↦ index != 1) =
      [(['a'], true), ([], false), ("c d".toList, true)] := by
  have hyields : Yields .windows "\ta  %b% \"c d\"\t& e".toList
      [(['a'], true), ([], false), ("c d".toList, true)] :=
    .next rfl (.next rfl (.next rfl (.done rfl)))
  have hall : "\ta  %b% \"c d\"\t& e".toList.all
      (fun c ↦ decide (Text.isBlank c = true → c = ' ' ∨ c = '\t')) = true := by decide
  rw [← hyields.arguments_eq]
  exact collectDeleting_eq_arguments .windows
    (fun c hc ↦ of_decide_eq_true (List.all_eq_true.mp hall c hc)) _

/-- A line feed belongs to the argument that it begins, but goes when the first argument of the line
is deleted in front of it. -/
theorem collectDeleting_lineFeed :
    Cursor.arguments .windows "a \nb".toList = [(['a'], true), (['\n', 'b'], true)] ∧
      (ofLine .windows "a \nb".toList).collectDeleting (fun _ ↦ true) =
        [(['a'], true), (['b'], true)] := by
  have hyields : Yields .windows "a \nb".toList [(['a'], true), (['\n', 'b'], true)] :=
    .next rfl (.next rfl (.done rfl))
  refine ⟨hyields.arguments_eq, ?_⟩
  rw [collectDeleting_of_advance rfl, collectDeleting_of_advance rfl,
    collectDeleting_of_not_advance rfl]
  rfl

end CommandLine.Cursor
