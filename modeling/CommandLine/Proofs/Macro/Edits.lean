import CommandLine.Proofs.Macro.Finding
import Mathlib.Data.List.Infix

/-!
Texts that are edited. A text is divided into cells, which are left as they are or are changed into
something else; neither side of an edit holds a percent sign or a brace. Edits leave the names in
which they do nothing where they are, so that the macros of the edited text are those of the text
before, unless an edit reaches into one or makes a name known.
-/

set_option autoImplicit false

namespace CommandLine.Macro

/-- A part of a text that is edited: a character that stays, or what is put in place of some. -/
inductive Cell
  | same (c : Char)
  | edit (old new : List Char)
  deriving DecidableEq, Repr

namespace Cell

/-- What stands at a cell, before the edit or after it. -/
def text (edited : Bool) : Cell → List Char
  | same c => [c]
  | edit old new => if edited then new else old

def IsEdit : Cell → Prop
  | same _ => False
  | edit .. => True

/-- An edit changes something into something, and does not touch what begins and ends macros. -/
def IsPlain : Cell → Prop
  | same _ => True
  | edit old new => old ≠ [] ∧ new ≠ [] ∧ ∀ c ∈ old ++ new, c ≠ '%' ∧ c ≠ '{' ∧ c ≠ '}'

/-- What stands at an edit is not empty and holds no such character. -/
theorem IsPlain.edit {old new : List Char} (h : (Cell.edit old new).IsPlain) (edited : Bool) :
    (Cell.edit old new).text edited ≠ [] ∧
      ∀ c ∈ (Cell.edit old new).text edited, c ≠ '%' ∧ c ≠ '{' ∧ c ≠ '}' := by
  obtain ⟨hold, hnew, hchars⟩ := h
  cases edited with
  | false => exact ⟨hold, fun c hc ↦ hchars c (List.mem_append_left _ hc)⟩
  | true => exact ⟨hnew, fun c hc ↦ hchars c (List.mem_append_right _ hc)⟩

end Cell

/-- A text that is edited. -/
abbrev Edits := List Cell

namespace Edits

/-- The text before the edits or after them. -/
def text (edited : Bool) (cells : Edits) : List Char := cells.flatMap (Cell.text edited)

/-- A text that is left as it is. -/
def unchanged (text : List Char) : Edits := text.map .same

def IsPlain (cells : Edits) : Prop := ∀ cell ∈ cells, cell.IsPlain

def HasEdit (cells : Edits) : Prop := ∃ cell ∈ cells, cell.IsEdit

variable (edited : Bool) {cells : Edits}

@[simp] theorem text_nil : text edited [] = [] := rfl

@[simp] theorem text_cons (cell : Cell) (cells : Edits) :
    text edited (cell :: cells) = cell.text edited ++ cells.text edited := List.flatMap_cons

@[simp] theorem text_append (first second : Edits) :
    text edited (first ++ second) = first.text edited ++ second.text edited := List.flatMap_append

@[simp] theorem text_unchanged (text : List Char) : (unchanged text).text edited = text := by
  induction text with
  | nil => rfl
  | cons c rest ih =>
    rw [unchanged, List.map_cons, text_cons]
    exact congrArg (c :: ·) ih

/-- Cells without an edit leave a text as it is. -/
theorem eq_unchanged (h : ¬cells.HasEdit) : cells = unchanged (cells.text false) := by
  induction cells with
  | nil => rfl
  | cons cell rest ih =>
    have hrest := ih fun ⟨other, hother, hedit⟩ ↦ h ⟨other, List.mem_cons_of_mem _ hother, hedit⟩
    cases cell with
    | same c =>
      rw [text_cons]
      exact congrArg (Cell.same c :: ·) hrest
    | edit => exact absurd ⟨_, List.mem_cons_self, trivial⟩ h

theorem IsPlain.of_append {first second : Edits} (h : (first ++ second).IsPlain) :
    first.IsPlain ∧ second.IsPlain :=
  ⟨fun cell hcell ↦ h cell (List.mem_append_left _ hcell),
    fun cell hcell ↦ h cell (List.mem_append_right _ hcell)⟩

/-- Edits neither add nor take away what begins and ends macros. -/
theorem IsPlain.mem_text (h : cells.IsPlain) {c : Char} (hc : c = '%' ∨ c = '{' ∨ c = '}') :
    c ∈ cells.text edited ↔ .same c ∈ cells := by
  induction cells with
  | nil => simp
  | cons cell rest ih =>
    have hrest := ih fun other hother ↦ h other (List.mem_cons_of_mem _ hother)
    rw [text_cons, List.mem_append, List.mem_cons, hrest]
    cases cell with
    | same d => simp [Cell.text]
    | edit old new =>
      have hnot : c ∉ (Cell.edit old new).text edited := by
        intro hmem
        obtain ⟨hpercent, hopening, hclosing⟩ :=
          ((h _ List.mem_cons_self).edit edited).2 c hmem
        rcases hc with rfl | rfl | rfl
        · exact hpercent rfl
        · exact hopening rfl
        · exact hclosing rfl
      simp [hnot]

/-- What begins or ends a macro is a character that stays. -/
theorem IsPlain.of_cons (h : cells.IsPlain) {c : Char} (hc : c = '%' ∨ c = '{' ∨ c = '}')
    {rest : List Char} (htext : cells.text edited = c :: rest) :
    ∃ others : Edits, cells = .same c :: others ∧ others.text edited = rest := by
  cases cells with
  | nil => cases htext
  | cons cell others =>
    rw [text_cons] at htext
    cases cell with
    | same d =>
      obtain ⟨rfl, hrest⟩ := List.cons.inj htext
      exact ⟨others, rfl, hrest⟩
    | edit old new =>
      obtain ⟨hnil, hchars⟩ := (h _ List.mem_cons_self).edit edited
      obtain ⟨d, tail, hcons⟩ := List.exists_cons_of_ne_nil hnil
      rw [hcons] at htext
      obtain ⟨rfl, -⟩ := List.cons.inj htext
      have hnot := hchars d (by simp [hcons])
      rcases hc with rfl | rfl | rfl <;> simp at hnot

/-- The name at the beginning of a text ends at a brace that stays. -/
theorem IsPlain.of_name (h : cells.IsPlain) {name after : List Char} (hname : '}' ∉ name)
    (htext : cells.text edited = name ++ '}' :: after) :
    ∃ inside behind : Edits, cells = inside ++ .same '}' :: behind ∧
      inside.text edited = name ∧ behind.text edited = after := by
  induction cells generalizing name with
  | nil => simp at htext
  | cons cell rest ih =>
    have hrest : IsPlain rest := fun other hother ↦ h other (List.mem_cons_of_mem _ hother)
    rw [text_cons] at htext
    rcases List.append_eq_append_iff.mp htext with
      ⟨middle, hmiddle, hbehind⟩ | ⟨middle, hmiddle, hbehind⟩
    · -- the cell is a part of the name
      have hshort : '}' ∉ middle := fun hmem ↦ hname (by simp [hmiddle, hmem])
      obtain ⟨inside, behind, rfl, hinside, hafter⟩ := ih hrest hshort hbehind
      exact ⟨cell :: inside, behind, rfl, by rw [text_cons, hinside, hmiddle], hafter⟩
    · cases middle with
      | nil =>
        have hempty : text edited rest = [] ++ '}' :: after := hbehind.symm
        obtain ⟨inside, behind, rfl, hinside, hafter⟩ := ih hrest List.not_mem_nil hempty
        refine ⟨cell :: inside, behind, rfl, ?_, hafter⟩
        rw [text_cons, hinside, hmiddle, List.append_nil, List.append_nil]
      | cons brace tail =>
        obtain ⟨rfl, hafter⟩ := List.cons.inj hbehind
        cases cell with
        | same c =>
          cases name with
          | nil =>
            obtain ⟨rfl, rfl⟩ := List.cons.inj hmiddle
            exact ⟨[], rest, rfl, rfl, hafter.symm⟩
          | cons d name =>
            have hlength := congrArg List.length hmiddle
            simp [Cell.text] at hlength
        | edit old new =>
          have hnot := ((h _ List.mem_cons_self).edit edited).2 '}' (by simp [hmiddle])
          simp at hnot

/-- A text that begins with a name does so before its edits and after them. -/
theorem IsPlain.of_spelled (h : cells.IsPlain) {name after : List Char} (hname : '}' ∉ name)
    (htext : cells.text edited = spelled name ++ after) :
    ∃ inside behind : Edits,
      cells = .same '%' :: .same '{' :: (inside ++ .same '}' :: behind) ∧
        inside.text edited = name ∧ behind.text edited = after := by
  have hcons : cells.text edited = '%' :: '{' :: (name ++ '}' :: after) := by
    simpa [spelled] using htext
  obtain ⟨others, rfl, hothers⟩ := h.of_cons edited (.inl rfl) hcons
  have hplain : IsPlain others := fun cell hcell ↦ h cell (List.mem_cons_of_mem _ hcell)
  obtain ⟨cells, rfl, hcells⟩ := hplain.of_cons edited (.inr (.inl rfl)) hothers
  have hplain : IsPlain cells := fun cell hcell ↦ hplain cell (List.mem_cons_of_mem _ hcell)
  obtain ⟨inside, behind, rfl, hinside, hbehind⟩ := hplain.of_name edited hname hcells
  exact ⟨inside, behind, rfl, hinside, hbehind⟩

/-! ### The first macro of an edited text -/

/-- The cells of a name as a macro is written. -/
def word (inside : Edits) : Edits := .same '%' :: .same '{' :: (inside ++ [.same '}'])

theorem text_word (edited : Bool) (inside : Edits) :
    (word inside).text edited = spelled (inside.text edited) := by
  simp [word, spelled, Cell.text]

theorem word_unchanged (name : List Char) : word (unchanged name) = unchanged (spelled name) := by
  simp [word, unchanged, spelled]

/-- What becomes of the first macro of a text when the text is edited: there is none, or it stays,
or an edit reaches into it. -/
inductive Finds (macros : Macros) (cells : Edits) : Prop
  | none (hfinds : ∀ edited, macros.find (cells.text edited) = none)
  | same (front : Edits) (name : List Char) (behind : Edits) (value : List Char)
    (hcells : cells = front ++ unchanged (spelled name) ++ behind)
    (hvalue : macros.values.get? name = some value)
    (hfinds : ∀ edited, macros.find (cells.text edited) =
      some ⟨(front.text edited).length, name.length + 3, value, Nat.succ_pos _⟩)
  | edited (front inside behind : Edits) (value : List Char)
    (hcells : cells = front ++ word inside ++ behind) (hedit : inside.HasEdit)
    (hvalue : macros.values.get? (inside.text false) = some value)
    (hfound : macros.find (cells.text false) =
      some ⟨(front.text false).length, (inside.text false).length + 3, value, Nat.succ_pos _⟩)

variable {macros : Macros}

/-- Cells in front of a text among which no macro begins. -/
theorem Finds.prepend {front : Edits}
    (hfront : ∀ edited, macros.find ((front ++ cells).text edited) =
      (macros.find (cells.text edited)).map (·.farther (front.text edited).length))
    (h : Finds macros cells) : Finds macros (front ++ cells) := by
  cases h with
  | none hfinds =>
    refine .none fun edited ↦ ?_
    rw [hfront, hfinds]
    rfl
  | same first name behind value hcells hvalue hfinds =>
    refine .same (front ++ first) name behind value (by simp [hcells]) hvalue fun edited ↦ ?_
    rw [hfront, hfinds, Option.map_some, Occurrence.farther]
    simp [Int.add_comm]
  | edited first inside behind value hcells hedit hvalue hfound =>
    refine .edited (front ++ first) inside behind value (by simp [hcells]) hedit hvalue ?_
    rw [hfront, hfound, Option.map_some, Occurrence.farther]
    simp [Int.add_comm]

/-- Where no macro begins at the first cell, the next one is as far behind it as in what follows. -/
theorem find_cons_cell (hpattern : macros.pattern = .default) {cell : Cell} {rest : Edits}
    (hplain : IsPlain (cell :: rest))
    (hno : ∀ name after, text false (cell :: rest) ≠ spelled name ++ after)
    (edited : Bool) : macros.find (text edited (cell :: rest)) =
      (macros.find (rest.text edited)).map (·.farther (cell.text edited).length) := by
  rw [text_cons]
  cases cell with
  | same c =>
    refine Macros.find_cons hpattern fun name after htext ↦ ?_
    -- a name behind the edits would be one before them
    obtain ⟨short, ending, hshort, hspelled⟩ := exists_shortest_name name after
    rw [hspelled] at htext
    obtain ⟨inside, behind, hcells, -, -⟩ := hplain.of_spelled edited hshort htext
    refine hno (inside.text false) (behind.text false) ?_
    rw [hcells]
    simp [spelled, Cell.text]
  | edit old new =>
    have hchars := ((hplain _ List.mem_cons_self).edit edited).2
    exact Macros.find_append_of_notMem hpattern (fun hmem ↦ (hchars '%' hmem).1 rfl) _

/-- At a name the first macro is found, unchanged or edited, or the name is passed over. -/
theorem finds_word (hpattern : macros.pattern = .default) {inside : Edits}
    (hbrace : ∀ edited, '}' ∉ inside.text edited)
    (hunknown : inside.HasEdit → macros.values.get? (inside.text true) = none) (behind : Edits) :
    Finds macros (word inside ++ behind) ∨
      ∀ edited, macros.find ((word inside ++ behind).text edited) =
        (macros.find (behind.text edited)).map (·.farther ((word inside).text edited).length) := by
  have hword (edited : Bool) : (word inside ++ behind).text edited =
      spelled (inside.text edited) ++ behind.text edited := by
    rw [text_append, text_word]
  have hpassed (hnone : ∀ edited, macros.values.get? (inside.text edited) = .none) (edited : Bool) :
      macros.find ((word inside ++ behind).text edited) =
        (macros.find (behind.text edited)).map (·.farther ((word inside).text edited).length) := by
    rw [hword, Macros.find_spelled hpattern (hbrace edited), hnone, text_word, length_spelled]
  by_cases hedit : inside.HasEdit
  · cases hold : macros.values.get? (inside.text false) with
    | none =>
      refine .inr (hpassed fun edited ↦ ?_)
      cases edited with
      | false => exact hold
      | true => exact hunknown hedit
    | some value =>
      refine .inl (.edited [] inside behind value rfl hedit hold ?_)
      rw [hword, Macros.find_spelled hpattern (hbrace false), hold]
      rfl
  · have hsame := eq_unchanged hedit
    have htexts (edited : Bool) : inside.text edited = inside.text false := by
      rw [hsame, text_unchanged, text_unchanged]
    cases hvalue : macros.values.get? (inside.text false) with
    | none => exact .inr (hpassed fun edited ↦ by rw [htexts, hvalue])
    | some value =>
      refine .inl (.same [] (inside.text false) behind value ?_ hvalue fun edited ↦ ?_)
      · rw [List.nil_append, ← word_unchanged, ← hsame]
      · rw [hword, Macros.find_spelled hpattern (hbrace edited), htexts, hvalue]
        rfl

/-- Where edits make no known name, the first macro stays or an edit reaches into it. -/
theorem finds (hpattern : macros.pattern = .default) (hplain : cells.IsPlain)
    (hunknown : ∀ inside : Edits, inside <:+: cells → inside.HasEdit →
      macros.values.get? (inside.text true) = none) : Finds macros cells := by
  induction hlength : cells.length using Nat.strong_induction_on generalizing cells with
  | _ length ih =>
    subst hlength
    have hlater {front behind : Edits} (hcells : cells = front ++ behind) (hfront : front ≠ [])
        (hfinds : ∀ edited, macros.find ((front ++ behind).text edited) =
          (macros.find (behind.text edited)).map (·.farther (front.text edited).length)) :
        Finds macros cells := by
      subst hcells
      have hpos := List.length_pos_iff.mpr hfront
      refine .prepend hfinds (ih behind.length (by rw [List.length_append]; omega)
        (hplain.of_append).2 (fun inside hinside ↦ hunknown inside ?_) rfl)
      exact hinside.trans (List.suffix_append front behind).isInfix
    rcases default_cases (cells.text false) with ⟨name, after, hname, htext⟩ | ⟨hno, -⟩
    · obtain ⟨inside, behind, rfl, rfl, rfl⟩ := hplain.of_spelled false hname htext
      have hcells : (Cell.same '%' :: .same '{' :: (inside ++ .same '}' :: behind) : Edits) =
          word inside ++ behind := by simp [word]
      have hinside : inside.IsPlain := fun cell hcell ↦ hplain cell (by simp [hcell])
      have hbrace (edited : Bool) : '}' ∉ inside.text edited := by
        rw [hinside.mem_text edited (.inr (.inr rfl)),
          ← hinside.mem_text false (.inr (.inr rfl))]
        exact hname
      have hinfix : inside <:+: word inside ++ behind := by
        refine ⟨[.same '%', .same '{'], .same '}' :: behind, ?_⟩
        simp [word]
      rcases finds_word hpattern hbrace (hunknown inside (hcells ▸ hinfix)) behind with
        hfinds | hpassed
      · rwa [hcells]
      · exact hlater hcells (by simp [word]) hpassed
    · cases cells with
      | nil => exact .none fun _ ↦ rfl
      | cons cell rest =>
        have hcells : cell :: rest = [cell] ++ rest := rfl
        refine hlater hcells (by simp) fun edited ↦ ?_
        rw [List.singleton_append, find_cons_cell hpattern hplain hno, text_cons, text_nil,
          List.append_nil]

/-! ### The template of an edited text -/

/-- The parts of an edited text before the edits and after them. -/
inductive Divides : Edits → Template → Template → Prop
  | nil : Divides [] [] []
  | same {cells : Edits} {old new : Template} (c : Char) (h : Divides cells old new) :
    Divides (.same c :: cells) (.literal c :: old) (.literal c :: new)
  | edit {cells : Edits} {old new : Template} (first second : List Char)
    (h : Divides cells old new) :
    Divides (.edit first second :: cells) (first.map .literal ++ old) (second.map .literal ++ new)
  | hole {cells : Edits} {old new : Template} (written value : List Char)
    (h : Divides cells old new) :
    Divides (unchanged written ++ cells) (.hole written value :: old) (.hole written value :: new)

/-- Characters in front of an edited text. -/
theorem Divides.prepend (front : Edits) {old new : Template} (h : Divides cells old new) :
    Divides (front ++ cells) ((front.text false).map .literal ++ old)
      ((front.text true).map .literal ++ new) := by
  induction front with
  | nil => exact h
  | cons cell rest ih =>
    cases cell with
    | same c => exact .same c ih
    | edit first second =>
      have hrest := Divides.edit first second ih
      simpa [Cell.text] using hrest

theorem divides_literals (cells : Edits) :
    Divides cells ((cells.text false).map .literal) ((cells.text true).map .literal) := by
  have h := Divides.nil.prepend cells
  simpa using h

/-- What is not edited stays. -/
theorem Divides.eq_of_unchanged {text : List Char} {old new : Template}
    (h : Divides cells old new) (hcells : cells = unchanged text) : old = new := by
  induction h generalizing text with
  | nil => rfl
  | same c h ih =>
    cases text with
    | nil => cases hcells
    | cons d rest =>
      obtain ⟨-, hrest⟩ := List.cons.inj hcells
      rw [ih hrest]
  | edit first second h ih => cases text <;> cases hcells
  | hole written value h ih =>
    obtain ⟨front, behind, -, -, hbehind⟩ := List.append_eq_map_iff.mp hcells
    rw [ih hbehind.symm]

/-- A macro that the edits leave as it is, and what is in front of it and behind it. -/
theorem divides_ahead {front behind : Edits}
    (h : Divides behind (macros.template (behind.text false)) (macros.template (behind.text true)))
    (name value : List Char) :
    Divides (front ++ unchanged (spelled name) ++ behind)
      (macros.ahead (some ⟨(front.text false).length, name.length + 3, value, Nat.succ_pos _⟩)
        ((front ++ unchanged (spelled name) ++ behind).text false))
      (macros.ahead (some ⟨(front.text true).length, name.length + 3, value, Nat.succ_pos _⟩)
        ((front ++ unchanged (spelled name) ++ behind).text true)) := by
  simp only [text_append, text_unchanged, List.append_assoc, Macros.ahead_spelled]
  exact (Divides.hole (spelled name) value h).prepend front

/-- Where names with edits are unknown on both sides, the parts are edited as the text is. -/
theorem divides_template (hpattern : macros.pattern = .default) (hplain : cells.IsPlain)
    (hunknown : ∀ inside : Edits, inside <:+: cells → inside.HasEdit →
      ∀ edited, macros.values.get? (inside.text edited) = none) :
    Divides cells (macros.template (cells.text false)) (macros.template (cells.text true)) := by
  induction hlength : cells.length using Nat.strong_induction_on generalizing cells with
  | _ length ih =>
    subst hlength
    cases finds hpattern hplain fun inside hinside hedit ↦ hunknown inside hinside hedit true with
    | none hfinds =>
      rw [macros.template_eq_ahead, macros.template_eq_ahead, hfinds, hfinds]
      exact divides_literals cells
    | same front name behind value hcells hvalue hfinds =>
      rw [macros.template_eq_ahead, macros.template_eq_ahead, hfinds, hfinds]
      subst hcells
      refine divides_ahead (ih behind.length ?_ hplain.of_append.2 ?_ rfl) name value
      · simp only [List.length_append, unchanged, List.length_map, length_spelled]
        omega
      · exact fun inside hinside ↦ hunknown inside
          (hinside.trans (List.suffix_append _ behind).isInfix)
    | edited front inside behind value hcells hedit hvalue hfound =>
      have hinside : inside <:+: cells := by
        refine ⟨front ++ [.same '%', .same '{'], .same '}' :: behind, ?_⟩
        simp [hcells, word]
      rw [hunknown inside hinside hedit false] at hvalue
      cases hvalue

end Edits

end CommandLine.Macro
