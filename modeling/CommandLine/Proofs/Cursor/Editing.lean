import CommandLine.Proofs.Cursor.Written

/-!
A cursor that edits a line on its way, and the list of words with a place in it that it stands for.
Every edit keeps the words on the line apart, but for one: a word that is put in at the start of the
line stands directly in front of the next one, with the space between them before the cursor. A
further word at this place would run together with the next one.
-/

set_option autoImplicit false

namespace CommandLine.Cursor

/-- What can be done at a cursor. -/
inductive Edit
  | advance
  | insert (word : Word)
  | delete
  deriving DecidableEq, Repr

/-- Carries out an edit. -/
def edit (cursor : Cursor) : Edit → Cursor
  | .advance => cursor.advance.2
  | .insert word => cursor.insertBefore word
  | .delete => cursor.deleteCurrent

/-- How a cursor came to its place. -/
inductive Standing
  /-- By moving over a word. -/
  | found
  /-- By putting in a word at the start of a line with words. -/
  | opened
  | settled
  deriving DecidableEq, Repr

/-- The words on both sides of a cursor. -/
structure Zipper where
  before : List Word
  behind : List Word
  standing : Standing
  deriving DecidableEq, Repr

namespace Zipper

/-- What an edit does to the words. A word can be deleted directly after the cursor has moved over
it, and no word can be put in directly after another one that was put in at the start of a line
with words. -/
def edit (zipper : Zipper) : Edit → Option Zipper
  | .advance =>
    match zipper.behind with
    | [] => some { zipper with standing := .settled }
    | word :: behind => some ⟨zipper.before ++ [word], behind, .found⟩
  | .insert word =>
    if zipper.standing = .opened then none
    else
      some ⟨zipper.before ++ [word], zipper.behind,
        if zipper.before = [] ∧ zipper.behind ≠ [] then .opened else .settled⟩
  | .delete =>
    if zipper.standing = .found then some ⟨zipper.before.dropLast, zipper.behind, .settled⟩
    else none

/-- What edits one after the other do to the words. -/
def run (zipper : Zipper) : List Edit → Option Zipper
  | [] => some zipper
  | step :: rest => (zipper.edit step).bind (·.run rest)

end Zipper

/-- A cursor stands in its line where a zipper stands in the words. -/
structure Stands (cursor : Cursor) (zipper : Zipper) : Prop where
  before : Laid cursor.dialect (cursor.passed ++ cursor.current) zipper.before
  behind : Laid cursor.dialect cursor.rest zipper.behind
  /-- At the start of the words the cursor stands at the start of the line, which does not begin
  with a space. -/
  start : zipper.before = [] →
    cursor.passed = [] ∧ cursor.current = [] ∧ cursor.rest.head? ≠ some ' '
  /-- Elsewhere the words on both sides are kept apart by what is behind the cursor. -/
  apart : zipper.before ≠ [] → zipper.standing ≠ .opened → Apart cursor.rest
  opened : zipper.standing = .opened → ∃ word, zipper.before = [word] ∧
    IsPrintable word ∧ cursor.passed ++ cursor.current = cursor.dialect.quote word ++ [' ']
  found : zipper.standing = .found → Laid cursor.dialect cursor.passed zipper.before.dropLast ∧
    (zipper.before.dropLast = [] → cursor.passed = [])

variable {cursor : Cursor} {zipper next : Zipper} {word : Word}

/-- What is laid out behind the cursor is laid out behind the words in front of it. -/
theorem Stands.laid (h : Stands cursor zipper) {text : List Char} {words : List Word}
    (htext : Laid cursor.dialect text words) (hapart : Apart cursor.rest → Apart text) :
    Laid cursor.dialect (cursor.passed ++ cursor.current ++ text) (zipper.before ++ words) := by
  by_cases hstart : zipper.before = []
  · obtain ⟨hpassed, hcurrent, -⟩ := h.start hstart
    simpa [hstart, hpassed, hcurrent] using htext
  · by_cases hopened : zipper.standing = .opened
    · obtain ⟨word, hbefore, hword, hfront⟩ := h.opened hopened
      rw [hfront, hbefore, List.append_assoc]
      exact .word 0 hword (.inr ⟨text, rfl⟩) (htext.prepend 1)
    · exact h.before.append htext (hapart (h.apart hstart hopened))

/-- A cursor that stands where a zipper stands yields the words that the zipper has. -/
theorem Stands.arguments_eq (h : Stands cursor zipper) :
    Cursor.arguments cursor.dialect cursor.line =
        (zipper.before ++ zipper.behind).map (fun word ↦ (word, true)) ∧
      cursor.collect.1 = zipper.behind.map (fun word ↦ (word, true)) ∧
        cursor.advance.1 = !zipper.behind.isEmpty := by
  have hsuccess := h.behind.yields.success_find
  rw [List.isEmpty_map] at hsuccess
  exact ⟨(h.laid h.behind id).yields.arguments_eq, h.behind.yields.collect rfl, hsuccess⟩

/-- A joined line with a cursor at its start. -/
theorem stands_ofLine (dialect : Dialect) {words : List Word}
    (hwords : ∀ word ∈ words, IsPrintable word) :
    Stands (ofLine dialect (dialect.join words)) ⟨[], words, .settled⟩ where
  before := .nil dialect
  behind := laid_join hwords
  start _ := by
    refine ⟨rfl, rfl, ?_⟩
    cases words with
    | nil => simp [ofLine]
    | cons word words =>
      obtain ⟨c, rest, hquote, hblank⟩ :=
        exists_quote_eq_cons dialect (hwords word List.mem_cons_self)
      have hc : c ≠ ' ' := by rintro rfl; exact absurd hblank (by decide)
      simp [ofLine, Dialect.join_cons, hquote, hc]
  apart h := absurd rfl h
  opened h := by cases h
  found h := by cases h

/-! ### Every edit keeps the cursor in its place -/

/-- A word is put in. -/
theorem Stands.insert (h : Stands cursor zipper) (hword : IsPrintable word)
    (hnext : zipper.edit (.insert word) = some next) : Stands (cursor.insertBefore word) next := by
  simp only [Zipper.edit, Option.ite_none_left_eq_some, Option.some.injEq] at hnext
  obtain ⟨hopened, rfl⟩ := hnext
  have hsingle : Laid cursor.dialect (' ' :: cursor.dialect.quote word) [word] := by
    simpa using Laid.word 1 hword (.inl rfl) (Laid.nil cursor.dialect)
  have hfound : (if zipper.before = [] ∧ zipper.behind ≠ [] then Standing.opened else .settled) ≠
      .found := by
    split <;> decide
  by_cases hstart : zipper.before = []
  · obtain ⟨hpassed, hcurrent, hhead⟩ := h.start hstart
    have hinsert : cursor.insertBefore word =
        { cursor with current := cursor.dialect.quote word ++ [' '] } := by
      simp [insertBefore, hpassed, hcurrent]
    rw [hinsert]
    exact
      { before := by
          rw [hpassed, hstart]
          simpa using Laid.word 0 hword (.inr ⟨[], rfl⟩) (Laid.spaces 1)
        behind := h.behind
        start := fun hnil ↦ by simp at hnil
        apart := fun _ hsettled ↦ by
          have hbehind : zipper.behind = [] := by simpa [hstart] using hsettled
          exact .inl ((hbehind ▸ h.behind).eq_nil hhead)
        opened := fun _ ↦ ⟨word, by simp [hstart], hword, by simp [hpassed]⟩
        found := fun heq ↦ absurd heq hfound }
  · have hfront : cursor.passed ++ cursor.current ≠ [] := h.before.ne_nil hstart
    have hinsert : cursor.insertBefore word =
        { cursor with current := cursor.current ++ ' ' :: cursor.dialect.quote word } := by
      have hempty : ¬(cursor.passed.isEmpty ∧ cursor.current.isEmpty) := by
        simpa using hfront
      simp only [insertBefore, if_neg hempty]
    rw [hinsert]
    exact
      { before := by
          have hlaid := h.laid hsingle fun _ ↦ .inr ⟨_, rfl⟩
          rwa [List.append_assoc] at hlaid
        behind := h.behind
        start := fun hnil ↦ by simp at hnil
        apart := fun _ _ ↦ h.apart hstart hopened
        opened := fun heq ↦ by simp [hstart] at heq
        found := fun heq ↦ absurd heq hfound }

/-- The word that was just found is deleted. -/
theorem Stands.delete (h : Stands cursor zipper)
    (hnext : zipper.edit .delete = some next) : Stands cursor.deleteCurrent next := by
  simp only [Zipper.edit, Option.ite_none_right_eq_some, Option.some.injEq] at hnext
  obtain ⟨hstanding, rfl⟩ := hnext
  obtain ⟨hpassed, hstart⟩ := h.found hstanding
  by_cases hempty : zipper.before.dropLast = []
  · have hdelete : cursor.deleteCurrent =
        { cursor with current := [], rest := cursor.rest.dropWhile Text.isBlank } := by
      simp [deleteCurrent, hstart hempty]
    rw [hdelete]
    exact
      { before := by simpa using hpassed
        behind := h.behind.dropWhile.1
        start := fun _ ↦ ⟨hstart hempty, rfl, h.behind.dropWhile.2⟩
        apart := fun hne ↦ absurd hempty hne
        opened := fun heq ↦ by cases heq
        found := fun heq ↦ by cases heq }
  · have hdelete : cursor.deleteCurrent = { cursor with current := [] } := by
      simp [deleteCurrent, hpassed.ne_nil hempty]
    have hbefore : zipper.before ≠ [] := fun hnil ↦ hempty (by simp [hnil])
    rw [hdelete]
    exact
      { before := by simpa using hpassed
        behind := h.behind
        start := fun hnil ↦ absurd hnil hempty
        apart := fun _ _ ↦ h.apart hbefore (by rw [hstanding]; decide)
        opened := fun heq ↦ by cases heq
        found := fun heq ↦ by cases heq }

/-- The cursor moves on. -/
theorem Stands.advance (h : Stands cursor zipper)
    (hnext : zipper.edit .advance = some next) : Stands cursor.advance.2 next := by
  have hbehind := h.behind
  generalize hrest : cursor.rest = text at hbehind
  generalize hwords : zipper.behind = words at hbehind
  simp only [Zipper.edit, hwords] at hnext
  cases hbehind with
  | spaces count =>
    cases hnext
    have hmoved := advance_of_not_find (hrest ▸ find_replicate cursor.dialect count)
    rw [hmoved, hrest]
    exact
      { before := by
          have hlaid := h.laid (Laid.spaces count) (hrest ▸ id)
          rwa [List.append_assoc, List.append_nil] at hlaid
        behind := .nil cursor.dialect
        start := fun hnil ↦ by
          obtain ⟨hpassed, hcurrent, hhead⟩ := h.start hnil
          have hspaces : List.replicate count ' ' = [] :=
            (Laid.spaces count : Laid cursor.dialect _ _).eq_nil (hrest ▸ hhead)
          simp [hpassed, hcurrent, hspaces]
        apart := fun _ _ ↦ .inl rfl
        opened := fun heq ↦ by cases heq
        found := fun heq ↦ by cases heq }
  | word count hword htail hothers =>
    cases hnext
    have hmoved := advance_of_find (hrest.trans (List.append_assoc ..).symm) (by
      rw [List.append_assoc]
      exact find_quote (fun _ ↦ hword.percent_notMem) count htail)
    rw [hmoved]
    exact
      { before := by
          have hfront := Laid.word count hword (.inl rfl) (Laid.nil cursor.dialect)
          rw [List.append_nil] at hfront
          exact h.laid hfront fun hapart ↦ Laid.apart_front count hword (hrest ▸ hapart)
        behind := hothers
        start := fun hnil ↦ by simp at hnil
        apart := fun _ _ ↦ htail
        opened := fun heq ↦ by cases heq
        found := fun _ ↦ by
          rw [List.dropLast_concat]
          exact ⟨h.before, fun hnil ↦ by simp [h.start hnil]⟩ }

/-- Every edit that the words allow keeps the cursor in its place among them. -/
theorem Stands.edit {step : Edit} (h : Stands cursor zipper)
    (hword : ∀ word, step = .insert word → IsPrintable word)
    (hnext : zipper.edit step = some next) : Stands (cursor.edit step) next := by
  cases step with
  | advance => exact h.advance hnext
  | insert word => exact h.insert (hword word rfl) hnext
  | delete => exact h.delete hnext

theorem Stands.run {steps : List Edit} (h : Stands cursor zipper)
    (hwords : ∀ word, .insert word ∈ steps → IsPrintable word)
    (hrun : zipper.run steps = some next) : Stands (steps.foldl Cursor.edit cursor) next := by
  induction steps generalizing cursor zipper with
  | nil =>
    cases hrun
    exact h
  | cons step rest ih =>
    obtain ⟨middle, hstep, hrest⟩ := Option.bind_eq_some_iff.mp hrun
    exact ih (h.edit (fun word hword ↦ hwords word (hword ▸ List.mem_cons_self)) hstep)
      (fun word hword ↦ hwords word (List.mem_cons_of_mem _ hword)) hrest

@[simp] theorem dialect_edit (cursor : Cursor) (step : Edit) :
    (cursor.edit step).dialect = cursor.dialect := by
  cases step with
  | advance => exact dialect_advance cursor
  | insert | delete => rfl

theorem dialect_foldl_edit (cursor : Cursor) (steps : List Edit) :
    (steps.foldl edit cursor).dialect = cursor.dialect := by
  induction steps generalizing cursor with
  | nil => rfl
  | cons step rest ih => rw [List.foldl_cons, ih, dialect_edit]

/-- A cursor edits a line as a zipper edits the words. Whatever edits are made at a cursor that
starts in front of a line of words, if words are deleted only directly after the cursor has moved
over them and none is put in directly behind one that was put in at the start of a line with words,
the line holds the words before and behind the place of the zipper, and the cursor goes on to those
behind it as long as there are any. -/
theorem arguments_foldl_edit (dialect : Dialect) {words : List Word} {steps : List Edit}
    {final : Zipper} (hwords : ∀ word ∈ words, IsPrintable word)
    (hinserts : ∀ word, .insert word ∈ steps → IsPrintable word)
    (hrun : Zipper.run ⟨[], words, .settled⟩ steps = some final) :
    let cursor := steps.foldl edit (ofLine dialect (dialect.join words))
    Cursor.arguments dialect cursor.line =
        (final.before ++ final.behind).map (fun word ↦ (word, true)) ∧
      cursor.collect.1 = final.behind.map (fun word ↦ (word, true)) ∧
        cursor.advance.1 = !final.behind.isEmpty := by
  have hstands := (stands_ofLine dialect hwords).run hinserts hrun
  have hdialect : (steps.foldl edit (ofLine dialect (dialect.join words))).dialect = dialect :=
    dialect_foldl_edit _ steps
  have harguments := hstands.arguments_eq
  rwa [hdialect] at harguments

/-- A word is put in at the start and the next one deleted, and words are put in on both sides of
the one behind it. -/
theorem arguments_foldl_edit_around :
    let cursor := [.insert "a ".toList, .advance, .delete, .insert [], .advance,
      .insert "b\\".toList].foldl edit (ofLine .windows
        (Dialect.windows.join ["x\\".toList, "\\\" ".toList, "z y".toList]))
    Cursor.arguments .windows cursor.line =
        [("a ".toList, true), ([], true), ("\\\" ".toList, true), ("b\\".toList, true),
          ("z y".toList, true)] ∧
      cursor.collect.1 = [("z y".toList, true)] ∧ cursor.advance.1 = true := by
  have hinserts : ∀ word, Edit.insert word ∈ [.insert "a ".toList, .advance, .delete, .insert [],
      .advance, .insert "b\\".toList] → IsPrintable word := by
    simp only [List.mem_cons, Edit.insert.injEq, List.not_mem_nil, reduceCtorEq, false_or, or_false]
    rintro word (rfl | rfl | rfl) <;> decide
  have hwords : ∀ word ∈ ["x\\".toList, "\\\" ".toList, "z y".toList], IsPrintable word := by
    decide
  exact arguments_foldl_edit .windows hwords hinserts rfl

/-- The second of two words that are put in at the start of a line with words runs together with the
word behind it. -/
theorem arguments_insert_insert :
    let cursor := [.insert ['a'], .insert ['b']].foldl edit
      (ofLine .unix (Dialect.unix.join [['x']]))
    Cursor.arguments .unix cursor.line = [(['a'], true), (['b', 'x'], true)] := by
  intro cursor
  have hline : cursor.line = ['a', ' ', ' ', 'b', 'x'] := by decide +kernel
  have hfirst : IsPrintable ['a'] := by decide
  have hsecond : IsPrintable ['b', 'x'] := by decide
  have hlaid : Laid .unix ['a', ' ', ' ', 'b', 'x'] [['a'], ['b', 'x']] :=
    .word 0 hfirst (.inr ⟨_, rfl⟩) (.word 2 hsecond (.inl rfl) (.nil .unix))
  rw [hline]
  exact hlaid.yields.arguments_eq

end CommandLine.Cursor
