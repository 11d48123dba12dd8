import CommandLine.Macro.Finder

/-!
Texts with macros as templates. The known macros of a text, found from left to right, divide it into
characters of its own and places for values; a character may be put at each such place to mark it.
An expander walks over the template of its text, whatever it has already written.
-/

set_option autoImplicit false

namespace CommandLine

theorem Table.exists_mem_of_get? {κ ν : Type} [DecidableEq κ] {table : Table κ ν} {key : κ}
    {value : ν} (h : table.get? key = some value) : ∃ entry ∈ table, entry.2 = value := by
  induction table with
  | nil => cases h
  | cons entry rest ih =>
    rw [Table.get?] at h
    split at h
    · cases h
      exact ⟨entry, List.mem_cons_self, rfl⟩
    · obtain ⟨other, hother, heq⟩ := ih h
      exact ⟨other, List.mem_cons_of_mem _ hother, heq⟩

namespace Macro

/-! ### What a pattern takes -/

theorem length_le_of_matchRun {set : CharSet} {following : List Char → Option Capture}
    (hfollowing : ∀ text capture, following text = some capture →
      capture.taken.length ≤ text.length)
    {atLeast : Nat} {text : List Char} {capture : Capture}
    (h : matchRun set following atLeast text = some capture) :
    capture.taken.length ≤ text.length := by
  induction text generalizing atLeast capture with
  | nil =>
    rw [matchRun] at h
    split at h
    · exact hfollowing _ _ h
    · cases h
  | cons c rest ih =>
    rw [matchRun] at h
    have hstop : (if atLeast = 0 then following (c :: rest) else none) = some capture →
        capture.taken.length ≤ (c :: rest).length := by
      intro hstop
      split at hstop
      · exact hfollowing _ _ hstop
      · cases hstop
    by_cases hc : set.contains c = true
    · rw [if_pos hc] at h
      cases hfurther : matchRun set following (atLeast - 1) rest with
      | none => exact hstop (by simpa [hfurther] using h)
      | some shorter =>
        rw [hfurther] at h
        cases h
        exact Nat.succ_le_succ (ih hfurther)
    · exact hstop (by simpa [hc] using h)

/-- A match lies within the text. -/
theorem length_le_of_matchItems {items : List Item} {text : List Char} {capture : Capture}
    (h : matchItems items text = some capture) : capture.taken.length ≤ text.length := by
  induction items generalizing text capture with
  | nil =>
    cases h
    exact Nat.zero_le _
  | cons item items ih =>
    cases item with
    | one set =>
      cases text with
      | nil => cases h
      | cons c rest =>
        rw [matchItems] at h
        split at h
        · obtain ⟨shorter, hshorter, rfl⟩ := Option.map_eq_some_iff.mp h
          exact Nat.succ_le_succ (ih hshorter)
        · cases h
    | run set atLeast => exact length_le_of_matchRun (fun _ _ ↦ ih) h
    | opening group | closing group =>
      obtain ⟨inner, hinner, rfl⟩ := Option.map_eq_some_iff.mp h
      have := ih hinner
      split <;> exact this

theorem length_le_of_match? {pattern : Pattern} {text name : List Char} {length : Nat}
    (h : pattern.match? text = some (name, length)) : length ≤ text.length := by
  obtain ⟨capture, hcapture, heq⟩ := Option.map_eq_some_iff.mp h
  cases heq
  exact length_le_of_matchItems hcapture

/-- The next macro lies within the text. -/
theorem Macros.length_le_of_findFrom {macros : Macros} {skip gap : Nat} {text : List Char}
    {found : Occurrence} (h : macros.findFrom skip gap text = some found) :
    found.gap + found.length ≤ gap + text.length := by
  induction text generalizing skip gap with
  | nil => cases h
  | cons c rest ih =>
    have hlater {skip : Nat} (hrest : macros.findFrom skip (gap + 1) rest = some found) :
        found.gap + found.length ≤ gap + (c :: rest).length := by
      have := ih hrest
      simp only [List.length_cons]
      omega
    unfold findFrom at h
    split at h
    · exact hlater h
    · split at h
      · rename_i hmatch
        split at h
        · cases h
          have := length_le_of_match? hmatch
          simp only
          omega
        · exact hlater h
      · exact hlater h

/-- What the next macro stands for is one of the values. -/
theorem Macros.mem_values_of_findFrom {macros : Macros} {skip gap : Nat} {text : List Char}
    {found : Occurrence} (h : macros.findFrom skip gap text = some found) :
    ∃ entry ∈ macros.values, entry.2 = found.value := by
  induction text generalizing skip gap with
  | nil => cases h
  | cons c rest ih =>
    unfold findFrom at h
    split at h
    · exact ih h
    · split at h
      · split at h
        · rename_i hvalue
          cases h
          exact Table.exists_mem_of_get? hvalue
        · exact ih h
      · exact ih h

/-! ### Templates -/

/-- A part of a text: a character of its own, or a macro as it is written and its value. -/
inductive Part
  | literal (c : Char)
  | hole (written value : List Char)
  deriving DecidableEq, Repr

/-- A text divided into its characters and its macros. -/
abbrev Template := List Part

/-- The text of a part. -/
def Part.written : Part → List Char
  | literal c => [c]
  | hole written _ => written

def Part.value? : Part → Option (List Char)
  | literal _ => none
  | hole _ value => some value

namespace Template

def written (template : Template) : List Char := template.flatMap Part.written

/-- The values of the macros, in order. -/
def values (template : Template) : List (List Char) := template.filterMap Part.value?

/-- The characters of a template without its macros. -/
def literals : Template → List Char
  | [] => []
  | .literal c :: rest => c :: literals rest
  | .hole .. :: rest => literals rest

/-- The characters of a text are those of its template when no macro is in it. -/
theorem literals_map_literal (text : List Char) :
    literals (text.map .literal) = text := by
  induction text with
  | nil => rfl
  | cons c rest ih => rw [List.map_cons, literals, ih]

@[simp] theorem written_cons (part : Part) (rest : Template) :
    written (part :: rest) = part.written ++ rest.written := List.flatMap_cons

@[simp] theorem written_append (first second : Template) :
    written (first ++ second) = first.written ++ second.written := List.flatMap_append

@[simp] theorem written_map_literal (text : List Char) : written (text.map .literal) = text := by
  induction text with
  | nil => rfl
  | cons c rest ih => rw [List.map_cons, written_cons, ih, Part.written, List.singleton_append]

@[simp] theorem values_map_literal (text : List Char) : values (text.map .literal) = [] := by
  simp [values, Part.value?]

@[simp] theorem values_literal (c : Char) (rest : Template) :
    values (.literal c :: rest) = rest.values := rfl

@[simp] theorem values_hole (text value : List Char) (rest : Template) :
    values (.hole text value :: rest) = value :: rest.values := rfl

/-- The template with the character that is to stand at each part: its own, or a mark. -/
def mark : List Char → Template → List (Char × Part)
  | _, [] => []
  | marks, .literal c :: rest => (c, .literal c) :: mark marks rest
  | [], .hole .. :: rest => mark [] rest
  | c :: marks, .hole written value :: rest => (c, .hole written value) :: mark marks rest

end Template

namespace Macros

variable (macros : Macros)

theorem gap_nonneg_of_find {text : List Char} {found : Occurrence}
    (h : macros.find text = some found) : 0 ≤ found.gap := gap_le_of_findFrom h

/-- The known macros of a text, from left to right, and the characters between them. -/
def template (text : List Char) : Template :=
  match _h : macros.find text with
  | none => text.map .literal
  | some found =>
    (text.take found.gap.toNat).map .literal ++
      .hole ((text.drop found.gap.toNat).take found.length) found.value ::
        template (text.drop (found.gap.toNat + found.length))
termination_by text.length
decreasing_by
  have hlength := length_le_of_findFrom _h
  have hpos := found.length_pos
  have hgap := macros.gap_nonneg_of_find _h
  simp only [List.length_drop]
  omega

/-- The template of a text before which the next macro is known. -/
def ahead (next : Option Occurrence) (rest : List Char) : Template :=
  match next with
  | none => rest.map .literal
  | some found =>
    (rest.take found.gap.toNat).map .literal ++
      .hole ((rest.drop found.gap.toNat).take found.length) found.value ::
        macros.template (rest.drop (found.gap.toNat + found.length))

theorem template_eq_ahead (text : List Char) :
    macros.template text = macros.ahead (macros.find text) text := by
  rw [template]
  cases h : macros.find text <;> simp only [ahead]

/-- The next macro, if there is one, lies within the text. -/
def LiesAhead (next : Option Occurrence) (rest : List Char) : Prop :=
  ∀ found, next = some found → 0 ≤ found.gap ∧ found.gap + found.length ≤ rest.length

theorem liesAhead_find (text : List Char) : LiesAhead (macros.find text) text := fun found h ↦
  ⟨macros.gap_nonneg_of_find h, by simpa using length_le_of_findFrom h⟩

theorem ne_nil_of_liesAhead {found : Occurrence} {rest : List Char}
    (h : LiesAhead (some found) rest) : rest ≠ [] := by
  rintro rfl
  obtain ⟨hgap, hlength⟩ := h found rfl
  have hpos := found.length_pos
  simp only [List.length_nil] at hlength
  omega

/-- A macro that starts here is the next part. -/
theorem ahead_of_gap_eq_zero {found : Occurrence} (hgap : found.gap = 0) (rest : List Char) :
    macros.ahead (some found) rest =
      .hole (rest.take found.length) found.value ::
        macros.ahead (macros.find (rest.drop found.length)) (rest.drop found.length) := by
  rw [← template_eq_ahead]
  simp [ahead, hgap]

/-- A character in front of the next macro is the next part. -/
theorem ahead_cons {next : Option Occurrence} {c : Char} {rest : List Char}
    (hahead : LiesAhead next (c :: rest)) (hgap : ∀ found, next = some found → found.gap ≠ 0) :
    macros.ahead next (c :: rest) =
        .literal c :: macros.ahead (next.map (·.nearer 1)) rest ∧
      LiesAhead (next.map (·.nearer 1)) rest := by
  cases next with
  | none => exact ⟨rfl, fun found h ↦ by cases h⟩
  | some found =>
    obtain ⟨hnonneg, hlength⟩ := hahead found rfl
    have hne := hgap found rfl
    obtain ⟨before, hbefore⟩ : ∃ before : Nat, found.gap = before + 1 :=
      ⟨(found.gap - 1).toNat, by omega⟩
    have hnear : found.gap - 1 = before := by omega
    simp only [List.length_cons, hbefore] at hlength
    constructor
    · have hfar : found.gap.toNat = before + 1 := by omega
      have hskip : before + 1 + found.length = before + found.length + 1 := by omega
      simp [ahead, hfar, hnear, hskip, Occurrence.nearer]
    · intro closer hcloser
      cases hcloser
      simp only [Occurrence.nearer_gap, Occurrence.nearer_length]
      omega

/-- A template is a division of its text. -/
theorem written_template (text : List Char) : (macros.template text).written = text := by
  fun_induction template macros text with
  | case1 text => exact Template.written_map_literal text
  | case2 text found hfound ih =>
    rw [Template.written_append, Template.written_map_literal, Template.written_cons, ih,
      Part.written, ← List.drop_drop, List.take_append_drop, List.take_append_drop]

theorem written_ahead (next : Option Occurrence) (rest : List Char) :
    (macros.ahead next rest).written = rest := by
  cases next with
  | none => exact Template.written_map_literal rest
  | some found =>
    rw [ahead, Template.written_append, Template.written_map_literal, Template.written_cons,
      written_template, Part.written, ← List.drop_drop, List.take_append_drop,
      List.take_append_drop]

theorem next_eq_none_of_values {next : Option Occurrence} {rest : List Char}
    (h : (macros.ahead next rest).values = []) : next = none := by
  cases next with
  | none => rfl
  | some found => simp [ahead, Template.values, Part.value?] at h

/-- Every value in a template is one of the macros' values. -/
theorem mem_values_of_mem_template {text value : List Char}
    (h : value ∈ (macros.template text).values) : ∃ entry ∈ macros.values, entry.2 = value := by
  fun_induction template macros text with
  | case1 text =>
    rw [Template.values_map_literal] at h
    cases h
  | case2 text found hfound ih =>
    have hvalues : Template.values ((text.take found.gap.toNat).map .literal ++
        .hole ((text.drop found.gap.toNat).take found.length) found.value ::
          macros.template (text.drop (found.gap.toNat + found.length))) =
        found.value :: (macros.template (text.drop (found.gap.toNat + found.length))).values := by
      have := Template.values_map_literal (text.take found.gap.toNat)
      simp_all [Template.values, Part.value?]
    rw [hvalues] at h
    rcases List.mem_cons.mp h with rfl | hlater
    · exact mem_values_of_findFrom hfound
    · exact ih hlater

end Macros

/-! ### Marks -/

namespace Template

/-- Characters that stand at the places of a template: one at each place, none of them a character
of the text, and equal ones only where the values are equal. -/
structure Marks (template : Template) (marks : List Char) : Prop where
  length_eq : marks.length = template.values.length
  notMem : ∀ c ∈ marks, c ∉ template.written
  value_eq : ∀ first ∈ marks.zip template.values, ∀ second ∈ marks.zip template.values,
    first.1 = second.1 → first.2 = second.2

instance (template : Template) (marks : List Char) : Decidable (template.Marks marks) :=
  haveI : Decidable (∀ c ∈ marks, c ∉ template.written) := List.decidableBAll _ marks
  decidable_of_iff
    (marks.length = template.values.length ∧ (∀ c ∈ marks, c ∉ template.written) ∧
      ∀ first ∈ marks.zip template.values, ∀ second ∈ marks.zip template.values,
        first.1 = second.1 → first.2 = second.2)
    ⟨fun ⟨length_eq, notMem, value_eq⟩ ↦ ⟨length_eq, notMem, value_eq⟩,
      fun ⟨length_eq, notMem, value_eq⟩ ↦ ⟨length_eq, notMem, value_eq⟩⟩

/-- The text with a mark in place of each macro. -/
def marked (template : Template) (marks : List Char) : List Char :=
  (template.mark marks).map Prod.fst

/-- What a character of a marked text stands for: a mark for its value, any other for itself. -/
def unmark (template : Template) (marks : List Char) (c : Char) : List Char :=
  (Table.get? (marks.zip template.values) c).getD [c]

theorem map_snd_mark {template : Template} {marks : List Char}
    (h : marks.length = template.values.length) :
    (template.mark marks).map Prod.snd = template := by
  fun_induction mark marks template with
  | case1 => rfl
  | case2 marks c rest ih => simpa using ih h
  | case3 written value rest ih => simp at h
  | case4 c marks written value rest ih =>
    have hrest : marks.length = (values rest).length := by simpa using h
    simpa using ih hrest

/-- What stands at a part of a marked template. -/
theorem mem_mark {template : Template} {marks : List Char} {cell : Char × Part}
    (h : cell ∈ template.mark marks) :
    (∃ c ∈ template.written, cell = (c, .literal c)) ∨
      ∃ c written value, cell = (c, .hole written value) ∧
        (c, value) ∈ marks.zip template.values := by
  fun_induction mark marks template with
  | case1 => cases h
  | case2 marks d rest ih =>
    rcases List.mem_cons.mp h with rfl | hrest
    · exact .inl ⟨d, by simp [Part.written], rfl⟩
    · rcases ih hrest with ⟨c, hc, rfl⟩ | ⟨c, text, value, rfl, hvalue⟩
      · exact .inl ⟨c, by simp [hc], rfl⟩
      · exact .inr ⟨c, text, value, rfl, hvalue⟩
  | case3 text value rest ih =>
    rcases ih h with ⟨c, hc, rfl⟩ | ⟨c, text, value, rfl, hvalue⟩
    · exact .inl ⟨c, by simp [hc], rfl⟩
    · simp at hvalue
  | case4 d marks text value rest ih =>
    rcases List.mem_cons.mp h with rfl | hrest
    · exact .inr ⟨d, text, value, rfl, by simp⟩
    · rcases ih hrest with ⟨c, hc, rfl⟩ | ⟨c, text, value, rfl, hvalue⟩
      · exact .inl ⟨c, by simp [hc], rfl⟩
      · exact .inr ⟨c, text, value, rfl, by simp [hvalue]⟩

theorem unmark_of_notMem {template : Template} {marks : List Char} {c : Char} (h : c ∉ marks) :
    template.unmark marks c = [c] := by
  have hnone (values : List (List Char)) : Table.get? (marks.zip values) c = none := by
    induction marks generalizing values with
    | nil => rfl
    | cons mark marks ih =>
      simp only [List.mem_cons, not_or] at h
      cases values with
      | nil => rfl
      | cons value values =>
        rw [List.zip_cons_cons, Table.get?, if_neg (Ne.symm h.1), ih h.2]
  rw [unmark, hnone]
  rfl

/-- A character stands for itself or for one of the values. -/
theorem unmark_cases (template : Template) (marks : List Char) (c : Char) :
    template.unmark marks c = [c] ∨ template.unmark marks c ∈ template.values := by
  rw [unmark]
  cases hget : Table.get? (marks.zip template.values) c with
  | none => exact .inl rfl
  | some value =>
    obtain ⟨entry, hentry, rfl⟩ := Table.exists_mem_of_get? hget
    exact .inr (List.of_mem_zip hentry).2

theorem Marks.unmark_eq {template : Template} {marks : List Char} (h : template.Marks marks)
    {c : Char} {value : List Char} (hc : (c, value) ∈ marks.zip template.values) :
    template.unmark marks c = value := by
  have hget (pairs : Table Char (List Char)) (hpair : (c, value) ∈ pairs)
      (hvalue : ∀ pair ∈ pairs, pair.1 = c → pair.2 = value) : pairs.get? c = some value := by
    induction pairs with
    | nil => cases hpair
    | cons pair rest ih =>
      rw [Table.get?]
      split
      · rename_i heq
        rw [hvalue pair List.mem_cons_self heq]
      · rename_i hne
        rcases List.mem_cons.mp hpair with heq | hrest
        · rw [← heq] at hne
          exact absurd rfl hne
        · exact ih hrest fun other hother ↦ hvalue other (List.mem_cons_of_mem _ hother)
  rw [unmark, hget _ hc fun pair hpair heq ↦ h.value_eq pair hpair _ hc heq]
  rfl

end Template

/-! ### Reading a marked text along with a scan -/

/-- What the characters of a marked text stand for, which of them may be marks, and for which values
marks may stand. -/
structure Legend where
  isMark : Char → Prop
  isValue : List Char → Prop
  replacement : Char → List Char

/-- A character at a part stands for what is written there: for itself, or for a value. -/
def Legend.Explains (legend : Legend) : Char × Part → Prop
  | (c, .literal d) => c = d ∧ legend.replacement c = [c]
  | (c, .hole _ value) =>
    legend.isMark c ∧ legend.isValue value ∧ legend.replacement c = value

/-- The characters that stand at the parts that a scan has ahead. -/
structure Upcoming (macros : Macros) (legend : Legend) (next : Option Occurrence)
    (rest : List Char) (cells : List (Char × Part)) : Prop where
  parts : cells.map Prod.snd = macros.ahead next rest
  liesAhead : Macros.LiesAhead next rest
  explained : ∀ cell ∈ cells, legend.Explains cell

/-- A text with marks whose characters stand for themselves, and for values at the marks. -/
theorem Upcoming.ofTemplate {macros : Macros} {text marks : List Char}
    (hmarks : (macros.template text).Marks marks) {isMark : Char → Prop}
    (hmark : ∀ c ∈ marks, isMark c) {isValue : List Char → Prop}
    (hvalue : ∀ value ∈ (macros.template text).values, isValue value) :
    Upcoming macros ⟨isMark, isValue, (macros.template text).unmark marks⟩ (macros.find text) text
      ((macros.template text).mark marks) where
  parts := by rw [Template.map_snd_mark hmarks.length_eq, Macros.template_eq_ahead]
  liesAhead := macros.liesAhead_find text
  explained := by
    intro cell hcell
    rcases Template.mem_mark hcell with ⟨c, hc, rfl⟩ | ⟨c, written, value, rfl, hpair⟩
    · exact ⟨rfl, Template.unmark_of_notMem fun hmem ↦ hmarks.notMem c hmem hc⟩
    · obtain ⟨hc, hmem⟩ := List.of_mem_zip hpair
      exact ⟨hmark c hc, hvalue value hmem, hmarks.unmark_eq hpair⟩

theorem Upcoming.start {macros : Macros} {text marks : List Char}
    (hmarks : (macros.template text).Marks marks) {isMark : Char → Prop}
    (hmark : ∀ c ∈ marks, isMark c) {isValue : List Char → Prop}
    (hvalue : ∀ entry ∈ macros.values, isValue entry.2) :
    Upcoming macros ⟨isMark, isValue, (macros.template text).unmark marks⟩ (macros.find text) text
      ((macros.template text).mark marks) := by
  refine .ofTemplate hmarks hmark fun value hvalues ↦ ?_
  obtain ⟨entry, hentry, rfl⟩ := macros.mem_values_of_mem_template hvalues
  exact hvalue entry hentry

namespace Upcoming

variable {macros : Macros} {legend : Legend} {next : Option Occurrence} {rest : List Char}
  {cells : List (Char × Part)}

/-- At the end of the text no macro is ahead. -/
theorem next_eq_none (h : Upcoming macros legend next [] cells) : next = none := by
  cases next with
  | none => rfl
  | some found => exact absurd rfl (Macros.ne_nil_of_liesAhead h.liesAhead)

/-- A character that no macro begins with stands for itself. -/
theorem literal {c : Char} (h : Upcoming macros legend next (c :: rest) cells)
    (hgap : ∀ found, next = some found → found.gap ≠ 0) :
    ∃ later, cells = (c, .literal c) :: later ∧ legend.replacement c = [c] ∧
      Upcoming macros legend (next.map (·.nearer 1)) rest later := by
  obtain ⟨hahead, hlies⟩ := macros.ahead_cons h.liesAhead hgap
  have hparts := h.parts
  rw [hahead] at hparts
  cases cells with
  | nil => cases hparts
  | cons cell later =>
    obtain ⟨d, part⟩ := cell
    rw [List.map_cons, List.cons.injEq] at hparts
    obtain ⟨rfl, hlater⟩ := hparts
    obtain ⟨rfl, hself⟩ := h.explained _ List.mem_cons_self
    exact ⟨later, rfl, hself, hlater, hlies, fun other hother ↦
      h.explained other (List.mem_cons_of_mem _ hother)⟩

/-- Where a macro begins a mark stands for its value. -/
theorem hole {found : Occurrence} (h : Upcoming macros legend (some found) rest cells)
    (hgap : found.gap = 0) :
    ∃ c written later, cells = (c, .hole written found.value) :: later ∧ legend.isMark c ∧
      legend.isValue found.value ∧ legend.replacement c = found.value ∧
      Upcoming macros legend (macros.find (rest.drop found.length)) (rest.drop found.length)
        later := by
  have hparts := h.parts
  rw [macros.ahead_of_gap_eq_zero hgap] at hparts
  cases cells with
  | nil => cases hparts
  | cons cell later =>
    obtain ⟨c, part⟩ := cell
    rw [List.map_cons, List.cons.injEq] at hparts
    obtain ⟨rfl, hlater⟩ := hparts
    obtain ⟨hmark, hvalue, hreplacement⟩ := h.explained _ List.mem_cons_self
    exact ⟨c, _, later, rfl, hmark, hvalue, hreplacement, hlater,
      macros.liesAhead_find _, fun other hother ↦
        h.explained other (List.mem_cons_of_mem _ hother)⟩

/-- Where no macro is ahead every character stands for itself. -/
theorem of_next_eq_none (h : Upcoming macros legend none rest cells) :
    cells.map Prod.fst = rest ∧ ∀ c ∈ rest, legend.replacement c = [c] := by
  induction rest generalizing cells with
  | nil =>
    have hnil : cells = [] := by simpa [Macros.ahead] using h.parts
    exact ⟨by simp [hnil], by simp⟩
  | cons c rest ih =>
    obtain ⟨later, rfl, hself, hlater⟩ := h.literal (by simp)
    obtain ⟨hfst, hrest⟩ := ih hlater
    exact ⟨by rw [List.map_cons, hfst], by simpa using ⟨hself, hrest⟩⟩

end Upcoming

end Macro

end CommandLine
