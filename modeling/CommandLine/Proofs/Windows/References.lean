import CommandLine.Proofs.Loop
import CommandLine.Proofs.Parts
import CommandLine.Windows.Split

/-!
References to variables as parts of a text between its percent signs. Taken from the left, a name
between two signs is a reference if it stands for something; then the value comes in place of the
name and of both signs. If it stands for nothing the first sign is a character like any other, and
the second one may open a reference.

The parts are those of the text as it was before. The same text comes about by edits: the next
percent sign is looked for from an offset on, and a value is put in the place of a reference, with
the offset moved behind it. There is one turn for each percent sign of the text as it was before,
so that no sign of a value is ever looked at.
-/

set_option autoImplicit false

namespace CommandLine.Windows

open Loop (Ends)

/-- What is put in the place of a reference to a name: no value that is empty. -/
def replacement? (value : List Char → Option (List Char)) (name : List Char) :
    Option (List Char) :=
  (value (Text.upper name)).filter (!·.isEmpty)

/-- The text that parts between percent signs make up, with its references replaced. -/
def substituted (value : List Char → Option (List Char)) : List (List Char) → List Char
  | [] => []
  | [part] => part
  | [before, behind] => before ++ '%' :: behind
  | before :: name :: behind :: rest =>
    match replacement? value name with
    | some found => before ++ found ++ substituted value (behind :: rest)
    | none => before ++ '%' :: substituted value (name :: behind :: rest)

section

variable {value : List Char → Option (List Char)} {name part : List Char}
  {parts : List (List Char)}

/-- The first part stands in front of everything else. -/
theorem substituted_cons (value : List Char → Option (List Char)) (part : List Char)
    (parts : List (List Char)) :
    substituted value (part :: parts) = part ++ substituted value ([] :: parts) := by
  match parts with
  | [] => simp [substituted]
  | [behind] => simp [substituted]
  | name :: behind :: rest =>
    simp only [substituted]
    cases replacement? value name <;> simp

theorem substituted_of_replacement?_eq_some {found : List Char}
    (h : replacement? value name = some found) (hparts : parts ≠ []) :
    substituted value ([] :: name :: parts) = found ++ substituted value parts := by
  obtain ⟨behind, rest, rfl⟩ := List.exists_cons_of_ne_nil hparts
  simp only [substituted, h, List.nil_append]

theorem substituted_of_replacement?_eq_none (h : replacement? value name = none)
    (hparts : parts ≠ []) :
    substituted value ([] :: name :: parts) =
      '%' :: name ++ substituted value ([] :: parts) := by
  obtain ⟨behind, rest, rfl⟩ := List.exists_cons_of_ne_nil hparts
  rw [List.cons_append, ← substituted_cons]
  simp only [substituted, h, List.nil_append]

/-! ### The text read once -/

section

variable {ε : Type} (lookup : List Char → Except ε (Option (List Char))) (rest : List Char)

theorem expandFrom_none_append (hpart : '%' ∉ part) :
    expandFrom lookup none (part ++ rest) = (expandFrom lookup none rest).map (part ++ ·) := by
  induction part with
  | nil => cases h : expandFrom lookup none rest <;> simp [h, Except.map]
  | cons c part ih =>
    obtain ⟨hc, hpart⟩ := List.ne_and_not_mem_of_not_mem_cons hpart
    rw [List.cons_append, expandFrom, if_neg hc.symm, ih hpart]
    cases expandFrom lookup none rest <;> rfl

theorem expandFrom_some_append (hpart : '%' ∉ part) (reversed : List Char) :
    expandFrom lookup (some reversed) (part ++ rest) =
      expandFrom lookup (some (part.reverse ++ reversed)) rest := by
  induction part generalizing reversed with
  | nil => rfl
  | cons c part ih =>
    obtain ⟨hc, hpart⟩ := List.ne_and_not_mem_of_not_mem_cons hpart
    rw [List.cons_append, expandFrom, if_neg hc.symm, ih hpart, List.reverse_cons,
      List.append_assoc, List.singleton_append]

end

/-- What is expanded from a text, and from one behind a sign that may open a reference. -/
theorem expandFrom_eq_substituted (ε : Type) (value : List Char → Option (List Char))
    (text : List Char) :
    let lookup : List Char → Except ε (Option (List Char)) := fun name ↦ .ok (value name)
    expandFrom lookup none text = .ok (substituted value (text.splitOn '%')) ∧
      expandFrom lookup (some []) text =
        .ok (substituted value ([] :: text.splitOn '%')) := by
  intro lookup
  induction text using parts_induction '%' with
  | last part hpart =>
    have hnone := expandFrom_none_append lookup [] hpart
    have hsome := expandFrom_some_append lookup [] hpart []
    rw [List.append_nil] at hnone hsome
    rw [hnone, hsome, List.splitOn_eq_singleton hpart]
    simp [expandFrom, substituted, Except.map]
  | more part rest hpart ih =>
    obtain ⟨hrest, hbehind⟩ := ih
    rw [List.splitOn_append_cons_self_of_not_mem hpart, expandFrom_none_append _ _ hpart,
      expandFrom_some_append _ _ hpart]
    constructor
    · rw [expandFrom, if_pos rfl, hbehind, substituted_cons value part]
      rfl
    · have hparts := List.splitOn_ne_nil '%' rest
      have hlookup : lookup (Text.upper part) = .ok (value (Text.upper part)) := rfl
      simp only [expandFrom, if_true, List.append_nil, List.reverse_reverse, hlookup, bind,
        Except.bind]
      cases hfound : replacement? value part with
      | some found =>
        rw [replacement?] at hfound
        simp only [hfound, hrest, pure, Except.pure]
        rw [substituted_of_replacement?_eq_some hfound hparts]
      | none =>
        rw [replacement?] at hfound
        simp only [hfound, hbehind, pure, Except.pure]
        rw [substituted_of_replacement?_eq_none hfound hparts]

theorem expand_eq_substituted (environment : Environment) (directory : Option (List Char))
    (text : List Char) :
    expand environment directory text =
      substituted (value? environment directory) (text.splitOn '%') := by
  rw [expand, expandWith, (expandFrom_eq_substituted Empty _ text).1]

end

/-! ### The text edited turn by turn -/

/-- A text that is edited from left to right: the text so far, from where the next percent sign is
looked for, and the place of the last one if it may open a reference. -/
structure Editing where
  text : List Char
  offset : Nat
  opening : Option Nat

namespace Editing

def start (text : List Char) : Editing := ⟨text, 0, none⟩

/-- The place of the next percent sign. -/
def sign? (editing : Editing) : Option Nat :=
  ((editing.text.drop editing.offset).idxOf? '%').map (editing.offset + ·)

/-- One turn: the next percent sign closes a reference, which is replaced, or may open one. Where
there is no further sign the text is as it stays. -/
def turn (value : List Char → Option (List Char)) (editing : Editing) : Editing ⊕ List Char :=
  match editing.sign? with
  | none => .inr editing.text
  | some sign =>
    let moved : Editing := ⟨editing.text, sign + 1, some sign⟩
    match editing.opening with
    | none => .inl moved
    | some opening =>
      match replacement? value ((editing.text.take sign).drop (opening + 1)) with
      | some found =>
        .inl ⟨editing.text.take opening ++ found ++ editing.text.drop (sign + 1),
          opening + found.length, none⟩
      | none => .inl moved

variable {value : List Char → Option (List Char)} {front part rest : List Char}
  {opening : Option Nat}

/-- An editing that stands behind a front part of its text. -/
def behind (front rest : List Char) (opening : Option Nat) : Editing :=
  ⟨front ++ rest, front.length, opening⟩

theorem sign?_of_notMem (hrest : '%' ∉ rest) : (behind front rest opening).sign? = none := by
  rw [sign?, behind, List.drop_left, List.idxOf?_eq_none_iff.mpr hrest]
  rfl

theorem sign?_of_part (hpart : '%' ∉ part) :
    (behind front (part ++ '%' :: rest) opening).sign? = some (front ++ part).length := by
  have hindex : (part ++ '%' :: rest).idxOf? '%' = some part.length := by
    induction part with
    | nil => rfl
    | cons c part ih =>
      obtain ⟨hc, hpart⟩ := List.ne_and_not_mem_of_not_mem_cons hpart
      rw [List.cons_append, List.idxOf?_cons, if_neg (by simpa using hc.symm), ih hpart]
      rfl
  rw [sign?, behind, List.drop_left, hindex, List.length_append]
  rfl

theorem turn_of_notMem (hrest : '%' ∉ rest) :
    (behind front rest opening).turn value = .inr (front ++ rest) := by
  rw [turn, sign?_of_notMem hrest]
  rfl

/-- The sign behind which an editing stands after it has found no reference. -/
def behindSign (front rest : List Char) : Editing :=
  behind (front ++ ['%']) rest (some front.length)

theorem turn_of_part (hpart : '%' ∉ part) :
    (behind front (part ++ '%' :: rest) none).turn value =
      .inl (behindSign (front ++ part) rest) := by
  rw [turn, sign?_of_part hpart]
  simp [behind, behindSign, Nat.add_assoc]

theorem turn_of_name (hpart : '%' ∉ part) :
    (behindSign front (part ++ '%' :: rest)).turn value =
      .inl (match replacement? value part with
        | some found => behind (front ++ found) rest none
        | none => behindSign (front ++ '%' :: part) rest) := by
  have htext : front ++ ['%'] ++ (part ++ '%' :: rest) =
      (front ++ ['%'] ++ part) ++ '%' :: rest := by simp
  have hname : (front ++ ['%'] ++ part).drop (front.length + 1) = part := by simp
  have hfront : (front ++ ['%'] ++ (part ++ '%' :: rest)).take front.length = front := by simp
  have hrest : (front ++ ['%'] ++ (part ++ '%' :: rest)).drop
      ((front ++ ['%'] ++ part).length + 1) = rest := by
    rw [htext, List.drop_length_add_append]
    rfl
  rw [turn, behindSign, sign?_of_part hpart]
  simp only [behind, hfront, hrest]
  rw [htext, List.take_left, hname]
  cases replacement? value part with
  | some found => simp
  | none => simp [behind, behindSign, Nat.add_assoc]

theorem ends (value : List Char → Option (List Char)) (text : List Char) : ∀ front,
    Ends (turn value) (text.count '%') (behind front text none)
        (front ++ substituted value (text.splitOn '%')) ∧
      Ends (turn value) (text.count '%') (behindSign front text)
        (front ++ substituted value ([] :: text.splitOn '%')) := by
  induction text using parts_induction '%' with
  | last part hpart =>
    intro front
    rw [List.count_eq_zero.mpr hpart, List.splitOn_eq_singleton hpart]
    refine ⟨.last (turn_of_notMem hpart), ?_⟩
    have hlast : front ++ substituted value [[], part] = front ++ ['%'] ++ part := by
      simp [substituted]
    rw [hlast]
    exact .last (turn_of_notMem hpart)
  | more part rest hpart ih =>
    intro front
    have hcount : (part ++ '%' :: rest).count '%' = rest.count '%' + 1 := by
      rw [List.count_append, List.count_eq_zero.mpr hpart, List.count_cons_self, Nat.zero_add]
    have hparts := List.splitOn_ne_nil '%' rest
    rw [hcount, List.splitOn_append_cons_self_of_not_mem hpart]
    constructor
    · refine .more (turn_of_part hpart) ?_
      rw [substituted_cons, ← List.append_assoc]
      exact (ih (front ++ part)).2
    · refine .more (turn_of_name hpart) ?_
      cases hfound : replacement? value part with
      | some found =>
        rw [substituted_of_replacement?_eq_some hfound hparts, ← List.append_assoc]
        exact (ih (front ++ found)).1
      | none =>
        rw [substituted_of_replacement?_eq_none hfound hparts, ← List.append_assoc]
        exact (ih (front ++ '%' :: part)).2

end Editing

/-- What a name stands for: `CD` for a working directory that is not empty, with backslashes for
slashes, and every other name for what the environment holds under it. -/
def meaning (environment : Environment) (directory : Option (List Char)) (name : List Char) :
    Option (List Char) :=
  if name = ['C', 'D'] ∧ directory.getD [] ≠ [] then
    directory.map fun path ↦ path.map fun c ↦ if c = '/' then '\\' else c
  else environment.lookup name

theorem value?_eq_meaning (environment : Environment) (directory : Option (List Char))
    (home : List Char) :
    value? environment (Surroundings.directory? ⟨some environment, directory, home⟩) =
      meaning environment directory := by
  funext name
  by_cases hname : name = ['C', 'D']
  · rcases directory with - | (- | ⟨c, path⟩) <;>
      simp [value?, meaning, nativeSeparators, Surroundings.directory?, hname, Option.filter]
  · simp [value?, meaning, hname]

/-- Expanding a text with an environment replaces the references among its parts between percent
signs, from the left to the right. The edits that replace them in place, turn by turn, come to the
same text after one turn for each percent sign of the text as it was before. -/
theorem expanded_eq_substituted (environment : Environment) (directory : Option (List Char))
    (home text : List Char) :
    let expansion := expanded ⟨some environment, directory, home⟩ text
    let value := meaning environment directory
    expansion = substituted value (text.splitOn '%') ∧
      Ends (Editing.turn value) (text.count '%') (.start text) expansion := by
  intro expansion value
  have hexpansion : expansion = substituted value (text.splitOn '%') := by
    change expand environment _ text = _
    rw [expand_eq_substituted, value?_eq_meaning]
  refine ⟨hexpansion, ?_⟩
  rw [hexpansion]
  exact (Editing.ends value text []).1

/-- A value that looks like a reference is not expanded again, and the closing sign of a name that
stands for nothing opens the next reference. The working directory has backslashes. -/
theorem expanded_of_signs_in_value :
    let environment : Environment := .ofTable false [(['a'], "%b%".toList), (['b'], ['1'])]
    let text := "%A%%n%b%%cd%".toList
    expanded ⟨some environment, some "/x".toList, []⟩ text = "%b%%n1\\x".toList ∧
      Ends (Editing.turn (meaning environment (some "/x".toList))) 7 (.start text)
        "%b%%n1\\x".toList := by
  intro environment text
  obtain ⟨hexpansion, hends⟩ := expanded_eq_substituted environment (some "/x".toList) [] text
  have hvalue : substituted (meaning environment (some "/x".toList)) (text.splitOn '%') =
      "%b%%n1\\x".toList := by decide +kernel
  rw [hexpansion, hvalue] at hends
  exact ⟨hexpansion.trans hvalue, hends⟩

end CommandLine.Windows
