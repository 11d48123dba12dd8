import CommandLine.Proofs.Macro.Template

/-!
Macros by their names. Where the values of macros do not matter each macro can stand for its own
name: the same macros are found, and the values are looked up afterwards. A macro of the default
pattern is a name between `%{` and the next closing brace.
-/

set_option autoImplicit false

namespace CommandLine

theorem Table.isSome_get? {κ ν : Type} [DecidableEq κ] (table : Table κ ν) (key : κ) :
    (table.get? key).isSome = true ↔ key ∈ table.map Prod.fst := by
  induction table with
  | nil => simp
  | cons entry rest ih =>
    rw [Table.get?]
    by_cases hkey : entry.1 = key
    · simp [hkey]
    · rw [if_neg hkey, ih, List.map_cons, List.mem_cons]
      exact ⟨.inr, fun h ↦ h.resolve_left (Ne.symm hkey)⟩

/-- In a table where each key is its own value a key is found under itself. -/
theorem Table.get?_map_self {κ : Type} [DecidableEq κ] (keys : List κ) (key : κ) :
    Table.get? (keys.map fun key ↦ (key, key)) key = if key ∈ keys then some key else none := by
  induction keys with
  | nil => rfl
  | cons first rest ih =>
    rw [List.map_cons, Table.get?]
    by_cases hkey : first = key
    · simp [hkey]
    · rw [if_neg hkey, ih]
      simp [Ne.symm hkey]

namespace Macro

/-! ### Values looked up afterwards -/

/-- The macro with another value. -/
def Occurrence.mapValue (f : List Char → List Char) (found : Occurrence) : Occurrence :=
  { found with value := f found.value }

@[simp] theorem Occurrence.mapValue_gap (f : List Char → List Char) (found : Occurrence) :
    (found.mapValue f).gap = found.gap := rfl

@[simp] theorem Occurrence.mapValue_length (f : List Char → List Char) (found : Occurrence) :
    (found.mapValue f).length = found.length := rfl

@[simp] theorem Occurrence.mapValue_value (f : List Char → List Char) (found : Occurrence) :
    (found.mapValue f).value = f found.value := rfl

/-- The part with another value. -/
def Part.mapValue (f : List Char → List Char) : Part → Part
  | literal c => literal c
  | hole written value => hole written (f value)

@[simp] theorem Part.mapValue_literal (f : List Char → List Char) (c : Char) :
    (literal c).mapValue f = literal c := rfl

@[simp] theorem Part.mapValue_hole (f : List Char → List Char) (written value : List Char) :
    (hole written value).mapValue f = hole written (f value) := rfl

namespace Macros

/-- The macros with these names, each of which stands for its name. -/
def named (names : List (List Char)) (pattern : Pattern) : Macros :=
  ⟨names.map fun name ↦ (name, name), pattern⟩

/-- The macros are those with these names. -/
def HasNames (macros : Macros) (names : List (List Char)) : Prop :=
  ∀ name, name ∈ macros.values.map Prod.fst ↔ name ∈ names

/-- The value of a macro, empty where it has none. -/
def value (macros : Macros) (name : List Char) : List Char := (macros.values.get? name).getD []

variable {macros : Macros} {names : List (List Char)}

/-- The value under a name is that of the macro which stands for its name. -/
theorem HasNames.get? (h : macros.HasNames names) (name : List Char) :
    macros.values.get? name =
      ((named names macros.pattern).values.get? name).map macros.value := by
  rw [named, Table.get?_map_self]
  by_cases hname : name ∈ names
  · rw [if_pos hname]
    obtain ⟨value, hvalue⟩ :=
      Option.isSome_iff_exists.mp ((macros.values.isSome_get? name).mpr ((h name).mpr hname))
    rw [Option.map_some, Macros.value, hvalue]
    rfl
  · rw [if_neg hname]
    apply Option.not_isSome_iff_eq_none.mp
    rw [macros.values.isSome_get? name, h name]
    exact hname

theorem HasNames.findFrom (h : macros.HasNames names) (skip gap : Nat) (text : List Char) :
    macros.findFrom skip gap text =
      ((named names macros.pattern).findFrom skip gap text).map (·.mapValue macros.value) := by
  induction text generalizing skip gap with
  | nil => rfl
  | cons c rest ih =>
    cases skip with
    | succ skip => exact ih skip (gap + 1)
    | zero =>
      have hpattern : (named names macros.pattern).pattern = macros.pattern := rfl
      rw [Macros.findFrom, Macros.findFrom, hpattern]
      rcases macros.pattern.match? (c :: rest) with _ | ⟨name, _ | length⟩
      · exact ih 0 (gap + 1)
      · exact ih 0 (gap + 1)
      · simp only [h.get? name]
        cases (named names macros.pattern).values.get? name with
        | none => exact ih length (gap + 1)
        | some value => rfl

/-- The next macro is the one that is found by its name. -/
theorem HasNames.find (h : macros.HasNames names) (text : List Char) :
    macros.find text =
      ((named names macros.pattern).find text).map (·.mapValue macros.value) :=
  h.findFrom 0 0 text

/-- Whatever is in front, the finder finds what the finder of the names finds. -/
theorem HasNames.finder (h : macros.HasNames names) (front behind rest : List Char) :
    macros.finder front rest =
      ((named names macros.pattern).finder behind rest).map (·.mapValue macros.value) :=
  h.find rest

/-- The macros of a text are those that are found by their names. -/
theorem HasNames.template (h : macros.HasNames names) (text : List Char) :
    macros.template text =
      ((named names macros.pattern).template text).map (·.mapValue macros.value) := by
  fun_induction Macros.template (named names macros.pattern) text with
  | case1 text hnone =>
    rw [macros.template_eq_ahead, h.find, hnone]
    simp [ahead]
  | case2 text found hfound ih =>
    rw [macros.template_eq_ahead, h.find, hfound]
    simp [ahead, ih, Function.comp_def]

/-- What a macro that stands for its name is found by is one of the names. -/
theorem mem_names_of_find {pattern : Pattern} {text : List Char} {found : Occurrence}
    (h : (named names pattern).find text = some found) : found.value ∈ names := by
  obtain ⟨entry, hentry, hvalue⟩ := mem_values_of_findFrom h
  obtain ⟨name, hname, rfl⟩ := List.mem_map.mp hentry
  rw [← hvalue]
  exact hname

/-- In front of the next macro a template has the characters of its text. -/
theorem ahead_drop (macros : Macros) {next : Option Occurrence} {rest : List Char} {count : Nat}
    (hcount : ∀ found, next = some found → (count : Int) ≤ found.gap) :
    macros.ahead next rest =
      (rest.take count).map .literal ++
        macros.ahead (next.map (·.nearer count)) (rest.drop count) := by
  cases next with
  | none => rw [Option.map_none, ahead, ahead, ← List.map_append, List.take_append_drop]
  | some found =>
    have hgap : found.gap.toNat = count + (found.nearer count).gap.toNat := by
      have := hcount found rfl
      rw [Occurrence.nearer_gap]
      omega
    rw [Option.map_some, ahead, ahead, hgap, List.take_add, List.map_append, List.append_assoc,
      ← List.drop_drop, ← List.drop_drop, List.drop_drop, List.drop_drop, Nat.add_assoc]
    simp [Occurrence.nearer, List.drop_drop]

end Macros

/-! ### The default pattern -/

/-- A macro as the default pattern reads it. -/
def spelled (name : List Char) : List Char := '%' :: '{' :: (name ++ ['}'])

@[simp] theorem length_spelled (name : List Char) : (spelled name).length = name.length + 3 := by
  simp [spelled]

/-- An item for one character takes it. -/
theorem exists_of_matchItems_single {c : Char} {items : List Item} {text : List Char}
    {capture : Capture} (h : matchItems (.one (.single c) :: items) text = some capture) :
    ∃ rest inner, text = c :: rest ∧ matchItems items rest = some inner ∧
      capture = inner.extend c := by
  cases text with
  | nil => cases h
  | cons d rest =>
    rw [matchItems] at h
    split at h
    · rename_i hd
      obtain ⟨inner, hinner, rfl⟩ := Option.map_eq_some_iff.mp h
      have hsame : d = c := by simpa [CharSet.single, CharSet.contains, Member.contains] using hd
      exact ⟨rest, inner, by rw [hsame], hinner, by rw [hsame]⟩
    · cases h

/-- A name reaches to the next closing brace. -/
theorem exists_of_matchRun_name {text : List Char} {capture : Capture}
    (h : matchRun ⟨true, [.single '}']⟩ (matchItems [.closing 1, .one (.single '}')]) 0 text =
      some capture) :
    ∃ name after, text = name ++ '}' :: after ∧ capture = ⟨name ++ ['}'], name, true⟩ := by
  induction text generalizing capture with
  | nil => cases h
  | cons c rest ih =>
    rw [matchRun] at h
    by_cases hc : c = '}'
    · subst hc
      cases h
      exact ⟨[], rest, rfl, rfl⟩
    · have hin : CharSet.contains ⟨true, [.single '}']⟩ c = true := by
        simp [CharSet.contains, Member.contains, hc]
      rw [if_pos hin] at h
      cases hfurther : matchRun ⟨true, [.single '}']⟩
          (matchItems [.closing 1, .one (.single '}')]) 0 rest with
      | none =>
        rw [hfurther] at h
        simp [matchItems, CharSet.single, CharSet.contains, Member.contains, hc] at h
      | some shorter =>
        rw [hfurther] at h
        cases h
        obtain ⟨name, after, rfl, rfl⟩ := ih hfurther
        exact ⟨c :: name, after, rfl, rfl⟩

theorem Pattern.exists_of_default_match? {text name : List Char} {length : Nat}
    (h : Pattern.default.match? text = some (name, length)) :
    ∃ after, text = spelled name ++ after ∧ length = (spelled name).length := by
  obtain ⟨capture, hcapture, heq⟩ := Option.map_eq_some_iff.mp h
  obtain ⟨behindPercent, inner, rfl, hinner, rfl⟩ := exists_of_matchItems_single hcapture
  obtain ⟨behindBrace, group, rfl, hgroup, rfl⟩ := exists_of_matchItems_single hinner
  obtain ⟨run, hrun, rfl⟩ := Option.map_eq_some_iff.mp hgroup
  obtain ⟨between, after, rfl, rfl⟩ := exists_of_matchRun_name hrun
  cases heq
  exact ⟨after, by simp [spelled, Pattern.default, Capture.extend],
    by simp [Pattern.default, Capture.extend]⟩

/-- The first macro that stands for its name is written as the default pattern reads it. -/
theorem exists_of_findFrom_default {names : List (List Char)} {skip gap : Nat} {text : List Char}
    {found : Occurrence}
    (h : (Macros.named names .default).findFrom skip gap text = some found) :
    ∃ before after, text = before ++ (spelled found.value ++ after) ∧
      found.gap = gap + before.length ∧ found.length = (spelled found.value).length := by
  induction text generalizing skip gap with
  | nil => cases h
  | cons c rest ih =>
    have hlater {skip : Nat}
        (hrest : (Macros.named names .default).findFrom skip (gap + 1) rest = some found) :
        ∃ before after, c :: rest = before ++ (spelled found.value ++ after) ∧
          found.gap = gap + before.length ∧ found.length = (spelled found.value).length := by
      obtain ⟨before, after, rfl, hgap, hlength⟩ := ih hrest
      refine ⟨c :: before, after, rfl, ?_, hlength⟩
      rw [hgap, List.length_cons]
      omega
    unfold Macros.findFrom at h
    split at h
    · exact hlater h
    · split at h
      · rename_i name length hmatch
        rw [Macros.named, Table.get?_map_self] at h
        by_cases hname : name ∈ names
        · rw [if_pos hname] at h
          cases h
          obtain ⟨after, htext, hlength⟩ := Pattern.exists_of_default_match? hmatch
          exact ⟨[], after, htext, rfl, hlength⟩
        · rw [if_neg hname] at h
          exact hlater h
      · exact hlater h

/-- The next macro, which stands for its name, is written ahead as the default pattern reads it. -/
def Announced (next : Option Occurrence) (rest : List Char) : Prop :=
  ∀ found, next = some found → ∃ before after,
    rest = before ++ (spelled found.value ++ after) ∧ found.gap = before.length ∧
      found.length = (spelled found.value).length

theorem announced_find (names : List (List Char)) (text : List Char) :
    Announced ((Macros.named names .default).find text) text := by
  intro found hfound
  obtain ⟨before, after, htext, hgap, hlength⟩ := exists_of_findFrom_default hfound
  exact ⟨before, after, htext, by simpa using hgap, hlength⟩

namespace Announced

variable {next : Option Occurrence} {rest : List Char} {found : Occurrence}

/-- At the end of the text no macro is ahead. -/
theorem next_eq_none (h : Announced next []) : next = none := by
  cases next with
  | none => rfl
  | some found =>
    obtain ⟨before, after, hrest, -⟩ := h found rfl
    simp [spelled] at hrest

/-- The next macro starts with a percent sign. -/
theorem getElem?_gap (h : Announced (some found) rest) {index : Nat} (hindex : found.gap = index) :
    rest[index]? = some '%' := by
  obtain ⟨before, after, rfl, hgap, -⟩ := h found rfl
  have hbefore : index = before.length := by omega
  rw [hbefore, List.getElem?_append_right (Nat.le_refl _), Nat.sub_self]
  rfl

theorem take_length (h : Announced (some found) rest) (hgap : found.gap = 0) :
    rest.take found.length = spelled found.value := by
  obtain ⟨before, after, rfl, hbefore, hlength⟩ := h found rfl
  have hnil : before = [] := List.length_eq_zero_iff.mp (by omega)
  rw [hnil, hlength, List.nil_append, List.take_left]

/-- The next macro stays where it is when characters in front of it are passed. -/
theorem nearer (h : Announced next rest) {count : Nat}
    (hcount : ∀ found, next = some found → (count : Int) ≤ found.gap) :
    Announced (next.map (·.nearer count)) (rest.drop count) := by
  intro closer hcloser
  obtain ⟨found, rfl, rfl⟩ := Option.map_eq_some_iff.mp hcloser
  obtain ⟨before, after, rfl, hgap, hlength⟩ := h found rfl
  have hle := hcount found rfl
  refine ⟨before.drop count, after, ?_, ?_, hlength⟩
  · exact List.drop_append_of_le_length (by omega)
  · rw [Occurrence.nearer_gap, List.length_drop]
    omega

end Announced

end Macro

end CommandLine
