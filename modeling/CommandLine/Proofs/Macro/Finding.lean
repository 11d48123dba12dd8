import CommandLine.Proofs.Macro.Named
import Mathlib.Data.List.Infix

/-!
Finding macros of the default pattern. A text is read as characters and names between `%{` and the
next closing brace; the first known name is the macro that is found, and what follows the last
closing brace makes no difference.
-/

set_option autoImplicit false

namespace CommandLine.Macro

/-! ### Macros further on -/

/-- The macro as seen from `count` characters in front. -/
def Occurrence.farther (found : Occurrence) (count : Nat) : Occurrence :=
  { found with gap := found.gap + count }

namespace Occurrence

@[simp] theorem farther_gap (found : Occurrence) (count : Nat) :
    (found.farther count).gap = found.gap + count := rfl

@[simp] theorem farther_length (found : Occurrence) (count : Nat) :
    (found.farther count).length = found.length := rfl

@[simp] theorem farther_value (found : Occurrence) (count : Nat) :
    (found.farther count).value = found.value := rfl

@[simp] theorem farther_zero (found : Occurrence) : found.farther 0 = found := by
  simp [farther]

theorem farther_farther (found : Occurrence) (first second : Nat) :
    (found.farther first).farther second = found.farther (first + second) := by
  simp only [farther, Int.natCast_add, Int.add_assoc]

theorem nearer_nearer (found : Occurrence) (first second : Nat) :
    (found.nearer first).nearer second = found.nearer (first + second) := by
  simp only [nearer, Int.natCast_add, Int.sub_sub]

theorem nearer_farther (found : Occurrence) (count : Nat) :
    (found.farther count).nearer count = found := by
  simp [farther, nearer]

end Occurrence

namespace Macros

variable {macros : Macros}

theorem findFrom_gap (skip gap : Nat) (text : List Char) :
    macros.findFrom skip gap text = (macros.findFrom skip 0 text).map (·.farther gap) := by
  induction text generalizing skip gap with
  | nil => rfl
  | cons c rest ih =>
    have hlater (skip : Nat) : macros.findFrom skip (gap + 1) rest =
        (macros.findFrom skip 1 rest).map (·.farther gap) := by
      rw [ih skip (gap + 1), ih skip 1, Option.map_map]
      congr 1
      funext found
      rw [Function.comp_apply, Occurrence.farther_farther, Nat.add_comm]
    cases skip with
    | succ skip => exact hlater skip
    | zero =>
      rw [findFrom, findFrom]
      rcases macros.pattern.match? (c :: rest) with _ | ⟨name, _ | length⟩
      · exact hlater 0
      · exact hlater 0
      · dsimp only
        cases macros.values.get? name with
        | none => exact hlater length
        | some value => simp [Occurrence.farther]

/-- What is found behind a match that was passed over is found in what follows the match. -/
theorem findFrom_eq (skip gap : Nat) (text : List Char) :
    macros.findFrom skip gap text =
      (macros.find (text.drop skip)).map (·.farther (gap + skip)) := by
  induction skip generalizing gap text with
  | zero => exact findFrom_gap 0 gap text
  | succ skip ih =>
    cases text with
    | nil => rfl
    | cons c rest =>
      have hlater := ih (gap + 1) rest
      rw [Nat.add_right_comm, Nat.add_assoc] at hlater
      exact hlater

end Macros

/-! ### Names in a text -/

/-- A match of the default pattern is a name up to the next closing brace. -/
theorem matchRun_name {name : List Char} (hname : '}' ∉ name) (after : List Char) :
    matchRun ⟨true, [.single '}']⟩ (matchItems [.closing 1, .one (.single '}')]) 0
      (name ++ '}' :: after) = some ⟨name ++ ['}'], name, true⟩ := by
  induction name with
  | nil => rfl
  | cons c rest ih =>
    simp only [List.mem_cons, not_or] at hname
    have hin : CharSet.contains ⟨true, [.single '}']⟩ c = true := by
      simp [CharSet.contains, Member.contains, Ne.symm hname.1]
    rw [List.cons_append, matchRun, if_pos hin, ih hname.2]
    rfl

theorem matchItems_single (c : Char) (items : List Item) (rest : List Char) :
    matchItems (.one (.single c) :: items) (c :: rest) =
      (matchItems items rest).map (·.extend c) := by
  simp [matchItems, CharSet.single, CharSet.contains, Member.contains]

theorem Pattern.default_match?_spelled {name : List Char} (hname : '}' ∉ name)
    (after : List Char) :
    Pattern.default.match? (spelled name ++ after) = some (name, name.length + 3) := by
  have htext : spelled name ++ after = '%' :: '{' :: (name ++ '}' :: after) := by simp [spelled]
  have hgroup : matchItems [.opening 1, .run ⟨true, [.single '}']⟩ 0, .closing 1,
      .one (.single '}')] (name ++ '}' :: after) = some ⟨name ++ ['}'], name, false⟩ := by
    rw [matchItems, matchItems, matchRun_name hname]
    rfl
  rw [htext, Pattern.match?, Pattern.default]
  dsimp only
  rw [matchItems_single, matchItems_single, hgroup]
  simp [Capture.extend]

/-- A text that begins with a name begins with one that holds no closing brace. -/
theorem exists_shortest_name (name after : List Char) :
    ∃ short behind, '}' ∉ short ∧ spelled name ++ after = spelled short ++ behind := by
  induction name with
  | nil => exact ⟨[], after, by simp, rfl⟩
  | cons c rest ih =>
    by_cases hc : c = '}'
    · subst hc
      exact ⟨[], rest ++ '}' :: after, by simp, by simp [spelled]⟩
    · obtain ⟨short, behind, hshort, htext⟩ := ih
      have hinner : rest ++ '}' :: after = short ++ '}' :: behind := by
        simpa [spelled] using htext
      refine ⟨c :: short, behind, by simp [hshort, Ne.symm hc], ?_⟩
      simp [spelled, hinner]

/-- A text begins with a name, or the default pattern does not match there. -/
theorem default_cases (text : List Char) :
    (∃ name after, '}' ∉ name ∧ text = spelled name ++ after) ∨
      (∀ name after, text ≠ spelled name ++ after) ∧ Pattern.default.match? text = none := by
  by_cases h : ∃ name after, text = spelled name ++ after
  · obtain ⟨name, after, rfl⟩ := h
    exact .inl (exists_shortest_name name after)
  · have hnone : ∀ name after, text ≠ spelled name ++ after :=
      fun name after heq ↦ h ⟨name, after, heq⟩
    refine .inr ⟨hnone, ?_⟩
    cases hmatch : Pattern.default.match? text with
    | none => rfl
    | some found =>
      obtain ⟨name, length⟩ := found
      obtain ⟨after, htext, -⟩ := Pattern.exists_of_default_match? hmatch
      exact absurd htext (hnone name after)

/-! ### The macro ahead -/

/-- The next macro is a known name that is written ahead. -/
def Shows (macros : Macros) (next : Option Occurrence) (rest : List Char) : Prop :=
  ∀ found, next = some found → ∃ front name after,
    rest = front ++ (spelled name ++ after) ∧ macros.values.get? name = some found.value ∧
      found.gap = front.length ∧ found.length = (spelled name).length

namespace Shows

variable {macros : Macros} {next : Option Occurrence} {rest : List Char}

theorem farther (h : Shows macros next rest) (front : List Char) :
    Shows macros (next.map (·.farther front.length)) (front ++ rest) := by
  intro later hlater
  obtain ⟨found, hfound, rfl⟩ := Option.map_eq_some_iff.mp hlater
  obtain ⟨before, name, after, rfl, hvalue, hgap, hlength⟩ := h found hfound
  refine ⟨front ++ before, name, after, by simp, hvalue, ?_, hlength⟩
  rw [Occurrence.farther_gap, hgap, List.length_append, Int.natCast_add, Int.add_comm]

/-- It stays where it is when characters in front of it are passed. -/
theorem nearer (h : Shows macros next rest) {count : Nat}
    (hcount : ∀ found, next = some found → (count : Int) ≤ found.gap) :
    Shows macros (next.map (·.nearer count)) (rest.drop count) := by
  intro closer hcloser
  obtain ⟨found, hfound, rfl⟩ := Option.map_eq_some_iff.mp hcloser
  obtain ⟨front, name, after, rfl, hvalue, hgap, hlength⟩ := h found hfound
  have hle := hcount found hfound
  refine ⟨front.drop count, name, after, ?_, hvalue, ?_, hlength⟩
  · exact List.drop_append_of_le_length (by omega)
  · rw [Occurrence.nearer_gap, List.length_drop]
    omega

/-- At the end of a text there is none. -/
theorem next_eq_none (h : Shows macros next []) : next = none := by
  cases next with
  | none => rfl
  | some found =>
    obtain ⟨front, name, after, hrest, -⟩ := h found rfl
    simp [spelled] at hrest

theorem getElem?_gap (h : Shows macros next rest) {found : Occurrence} (hfound : next = some found)
    {index : Nat} (hindex : found.gap = index) : rest[index]? = some '%' := by
  obtain ⟨front, name, after, rfl, -, hgap, -⟩ := h found hfound
  have hfront : index = front.length := by omega
  rw [hfront, List.getElem?_append_right (Nat.le_refl _), Nat.sub_self]
  rfl

end Shows

namespace Macros

variable {macros : Macros} (hpattern : macros.pattern = .default)

include hpattern

/-- A known name is found; an unknown one is passed over. -/
theorem find_spelled {name : List Char} (hname : '}' ∉ name) (after : List Char) :
    macros.find (spelled name ++ after) =
      match macros.values.get? name with
      | some value => some ⟨0, name.length + 3, value, Nat.succ_pos _⟩
      | none => (macros.find after).map (·.farther (name.length + 3)) := by
  have hcons : spelled name ++ after = '%' :: ('{' :: (name ++ ['}']) ++ after) := rfl
  have hdrop : ('{' :: (name ++ ['}']) ++ after).drop (name.length + 2) = after := by
    simp
  rw [find, hcons, findFrom, hpattern, ← hcons, Pattern.default_match?_spelled hname]
  dsimp only
  cases macros.values.get? name with
  | some value => rfl
  | none =>
    dsimp only
    rw [findFrom_eq, hdrop, Nat.zero_add, Nat.add_comm 1]

/-- Where no name begins the next macro is one character further on. -/
theorem find_cons {c : Char} {rest : List Char}
    (h : ∀ name after, c :: rest ≠ spelled name ++ after) :
    macros.find (c :: rest) = (macros.find rest).map (·.farther 1) := by
  rcases default_cases (c :: rest) with ⟨name, after, -, heq⟩ | ⟨-, hnone⟩
  · exact absurd heq (h name after)
  · rw [find, findFrom, hpattern, hnone]
    exact findFrom_eq 0 1 rest

theorem find_cons_of_ne {c : Char} (hc : c ≠ '%') (rest : List Char) :
    macros.find (c :: rest) = (macros.find rest).map (·.farther 1) :=
  find_cons hpattern fun _ _ heq ↦ hc (List.cons.inj heq).1

/-- Characters among which no macro begins. -/
theorem find_append_of_notMem {front : List Char} (hfront : '%' ∉ front) (rest : List Char) :
    macros.find (front ++ rest) = (macros.find rest).map (·.farther front.length) := by
  induction front with
  | nil => simp
  | cons c front ih =>
    simp only [List.mem_cons, not_or] at hfront
    rw [List.cons_append, find_cons_of_ne hpattern (Ne.symm hfront.1), ih hfront.2, Option.map_map]
    congr 1
    funext found
    rw [Function.comp_apply, Occurrence.farther_farther, List.length_cons]

/-- In a text without a closing brace there is no macro. -/
theorem find_eq_none {text : List Char} (h : '}' ∉ text) : macros.find text = none := by
  induction text with
  | nil => rfl
  | cons c rest ih =>
    have hno : ∀ name after, c :: rest ≠ spelled name ++ after := by
      intro name after heq
      rw [heq] at h
      exact h (by simp [spelled])
    rw [find_cons hpattern hno, ih fun hmem ↦ h (List.mem_cons_of_mem _ hmem)]
    rfl

/-- What follows a text makes no difference to its macros if it holds no closing brace. -/
theorem find_append {behind : List Char} (hbehind : '}' ∉ behind) (text : List Char) :
    macros.find (text ++ behind) = macros.find text := by
  induction hlength : text.length using Nat.strong_induction_on generalizing text with
  | _ length ih =>
    subst hlength
    rcases default_cases text with ⟨name, after, hname, rfl⟩ | ⟨hno, -⟩
    · rw [List.append_assoc, find_spelled hpattern hname, find_spelled hpattern hname]
      cases macros.values.get? name with
      | some value => rfl
      | none =>
        rw [ih after.length (by simp only [List.length_append, length_spelled]; omega) after rfl]
    · cases text with
      | nil => exact find_eq_none hpattern hbehind
      | cons c rest =>
        have hboth : ∀ name after, c :: (rest ++ behind) ≠ spelled name ++ after := by
          intro name after heq
          obtain ⟨short, ending, hshort, hspelled⟩ := exists_shortest_name name after
          rw [hspelled, ← List.cons_append] at heq
          rcases List.append_eq_append_iff.mp heq with
            ⟨middle, hmiddle, hrest⟩ | ⟨middle, hmiddle, -⟩
          · -- the closing brace of the name would be one of what follows
            rcases List.eq_nil_or_concat middle with rfl | ⟨front, brace, rfl⟩
            · exact hno short [] (by simpa using hmiddle.symm)
            · have hlast : ('%' :: '{' :: short) ++ ['}'] = (c :: rest ++ front) ++ [brace] := by
                simpa [spelled] using hmiddle
              obtain ⟨-, hbrace⟩ := List.append_inj' hlast rfl
              obtain rfl : '}' = brace := by simpa using hbrace
              exact hbehind (by simp [hrest])
          · exact hno short middle hmiddle
        rw [List.cons_append, find_cons hpattern hboth, find_cons hpattern hno,
          ih rest.length (by simp) rest rfl]

/-- The first macro of a text is the name that is found. -/
theorem shows_find (text : List Char) : Shows macros (macros.find text) text := by
  induction hlength : text.length using Nat.strong_induction_on generalizing text with
  | _ length ih =>
    subst hlength
    have hlater {front after : List Char} (hnil : front ≠ [])
        (hfind : macros.find (front ++ after) =
          (macros.find after).map (·.farther front.length)) (htext : text = front ++ after) :
        Shows macros (macros.find text) text := by
      subst htext
      rw [hfind]
      have hpos := List.length_pos_iff.mpr hnil
      exact (ih after.length (by rw [List.length_append]; omega) after rfl).farther front
    rcases default_cases text with ⟨name, after, hname, htext⟩ | ⟨hno, -⟩
    · have hfind := find_spelled hpattern hname after
      cases hvalue : macros.values.get? name with
      | some value =>
        rw [hvalue] at hfind
        intro found hfound
        rw [htext, hfind] at hfound
        cases hfound
        exact ⟨[], name, after, htext, hvalue, rfl, (length_spelled name).symm⟩
      | none =>
        rw [hvalue] at hfind
        dsimp only at hfind
        rw [← length_spelled] at hfind
        exact hlater (by simp [spelled]) hfind htext
    · cases text with
      | nil => exact fun found hfound ↦ by cases hfound
      | cons c rest => exact hlater (List.cons_ne_nil c []) (find_cons hpattern hno) rfl

omit hpattern in
/-- In front of a macro that is written ahead a template has characters, behind it what follows. -/
theorem ahead_spelled (front : List Char) (name : List Char) (value after : List Char) :
    macros.ahead (some ⟨front.length, name.length + 3, value, Nat.succ_pos _⟩)
        (front ++ (spelled name ++ after)) =
      front.map .literal ++ .hole (spelled name) value :: macros.template after := by
  have hdrop : (front ++ (spelled name ++ after)).drop (front.length + (name.length + 3)) =
      after := by
    rw [← List.drop_drop, List.drop_left, ← length_spelled, List.drop_left]
  rw [ahead]
  dsimp only
  rw [Int.toNat_natCast, hdrop, List.take_left, List.drop_left, ← length_spelled, List.take_left]

end Macros

end CommandLine.Macro
