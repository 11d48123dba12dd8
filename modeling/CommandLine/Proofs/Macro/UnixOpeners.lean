import CommandLine.Proofs.Macro.UnixUnquoting
import CommandLine.Proofs.Macro.UnixSteps

/-!
What a scan for a POSIX shell has ahead: places where arithmetic might be opened, and the next
macro. When a backquoted command becomes a substitution the number of these places stays the same,
and a macro whose name needs no escapes is still the next one.
-/

set_option autoImplicit false

namespace CommandLine.Macro.Unix

/-- The number of places in a text where `$((` begins. -/
def openers : List Char → Nat
  | [] => 0
  | c :: rest => openers rest + if c = '$' ∧ rest.take 2 = ['(', '('] then 1 else 0

theorem openers_cons_of_ne {c : Char} (hc : c ≠ '$') (rest : List Char) :
    openers (c :: rest) = openers rest := by
  simp [openers, hc]

theorem openers_opener (rest : List Char) :
    openers ('$' :: '(' :: '(' :: rest) = openers rest + 1 := by
  simp [openers]

theorem openers_drop_le (text : List Char) (count : Nat) :
    openers (text.drop count) ≤ openers text := by
  induction count generalizing text with
  | zero => exact Nat.le_refl _
  | succ count ih =>
    cases text with
    | nil => exact Nat.le_refl _
    | cons c rest => exact Nat.le_trans (ih rest) (Nat.le_add_right _ _)

/-- Where no opener is part of a text there is no such place. -/
theorem openers_eq_zero {text : List Char} (h : ¬['$', '(', '('] <:+: text) :
    openers text = 0 := by
  induction text with
  | nil => rfl
  | cons c rest ih =>
    have hrest : ¬['$', '(', '('] <:+: rest := fun hpart ↦
      h (hpart.trans (List.suffix_cons c rest).isInfix)
    have hnone : ¬(c = '$' ∧ rest.take 2 = ['(', '(']) := by
      rintro ⟨rfl, htake⟩
      apply h
      rw [← htake]
      exact (List.take_prefix 3 ('$' :: rest)).isInfix
    rw [openers, ih hrest, if_neg hnone]

namespace Scan

/-! ### Parentheses in a backquoted command -/

variable {quoted : Bool}

theorem head?_unquoting (text : List Char) :
    ((unquoting quoted text).text true).head? = some '(' ↔ text.head? = some '(' := by
  fun_cases unquoting quoted text with
  | case1 => rfl
  | case2 after => simp [closingMark, Cell.text]
  | case3 c rest hc =>
    have hne : c ≠ '(' := by
      rintro rfl
      simp [isUnescaped] at hc
    simp [Cell.text, hne]
  | case4 c rest hc => simp [Cell.text]
  | case5 c rest _ _ => simp [Cell.text]

/-- Two opening parentheses are two opening parentheses behind the opening mark as well. -/
theorem take_unquoting (text : List Char) :
    ((unquoting quoted text).text true).take 2 = ['(', '('] ↔ text.take 2 = ['(', '('] := by
  have hcons (rest : List Char) : ('(' :: rest).take 2 = ['(', '('] ↔ rest.head? = some '(' := by
    cases rest <;> simp
  have hhead (rest : List Char) (h : rest.take 2 = ['(', '(']) : rest.head? = some '(' := by
    cases rest with
    | nil => cases h
    | cons c tail => simp [(List.cons.inj h).1]
  by_cases hparenthesis : text.head? = some '('
  · obtain ⟨rest, rfl⟩ := List.head?_eq_some_iff.mp hparenthesis
    have hsame : (unquoting quoted ('(' :: rest)).text true =
        '(' :: (unquoting quoted rest).text true := by
      rw [unquoting]
      · rfl
      · decide
      · exact fun c rest hc ↦ absurd hc (by decide)
    rw [hsame, hcons, hcons, head?_unquoting]
  · refine ⟨fun h ↦ absurd ?_ hparenthesis, fun h ↦ absurd (hhead text h) hparenthesis⟩
    exact (head?_unquoting text).mp (hhead _ h)

/-- Unquoting neither makes nor takes away places where arithmetic might be opened. -/
theorem openers_unquoting (text : List Char) :
    openers ((unquoting quoted text).text true) = openers text := by
  have hcons (c : Char) (rest : List Char)
      (ih : openers ((unquoting quoted rest).text true) = openers rest) :
      openers (c :: (unquoting quoted rest).text true) = openers (c :: rest) := by
    rw [openers, openers, ih]
    simp only [take_unquoting]
  fun_induction unquoting quoted text with
  | case1 => rfl
  | case2 after =>
    change openers (')' :: (Edits.unchanged after).text true) = _
    rw [Edits.text_unchanged, openers_cons_of_ne (by decide), openers_cons_of_ne (by decide)]
  | case3 c rest hc ih =>
    rw [openers_cons_of_ne (by decide)]
    exact hcons c rest ih
  | case4 c rest hc ih =>
    rw [openers_cons_of_ne (by decide)]
    change openers ('\\' :: c :: (unquoting quoted rest).text true) = _
    rw [openers_cons_of_ne (by decide)]
    exact hcons c rest ih
  | case5 c rest _ _ ih => exact hcons c rest ih

/-! ### The next macro -/

variable {macros : Macros} {scan : Scan}

/-- The names of the macros are made of characters that call for no escapes in a backquoted
command. -/
def HasOrdinaryNames (macros : Macros) : Prop :=
  ∀ name value, macros.values.get? name = some value → ∀ c ∈ name, IsOrdinary c

/-- No macro starts with a parenthesis, so that none is passed. -/
theorem le_gap_of_clears (hshows : Shows macros scan.next scan.rest) {count : Nat}
    (hclears : scan.Clears count) :
    ∀ found, scan.next = some found → (count : Int) ≤ found.gap := by
  intro found hfound
  rcases hclears found hfound with hle | ⟨index, hgap, hparenthesis⟩
  · exact hle
  · rw [hshows.getElem?_gap hfound hgap] at hparenthesis
    exact absurd hparenthesis (by decide)

/-- A name that needs no escapes stays between the edits of a backquoted command. -/
theorem exists_unquoting_name (hnames : HasOrdinaryNames macros) {rest : List Char}
    (hrest : scan.rest = '`' :: rest) (hshows : Shows macros scan.next scan.rest)
    {found : Occurrence} (hfound : scan.next = some found) (quoted : Bool) :
    ∃ front name others, unquoting quoted rest =
        front ++ (Edits.unchanged (spelled name) ++ others) ∧
      macros.values.get? name = some found.value ∧
      found.gap = (front.text false).length + 1 ∧ found.length = (spelled name).length := by
  obtain ⟨front, name, after, hsplit, hvalue, hgap, hlength⟩ := hshows found hfound
  rw [hrest] at hsplit
  cases front with
  | nil =>
    rw [List.nil_append, spelled] at hsplit
    exact absurd (List.cons.inj hsplit).1 (by decide)
  | cons c front =>
    obtain ⟨rfl, rfl⟩ := List.cons.inj hsplit
    have hordinary : ∀ c ∈ spelled name, IsOrdinary c := by
      intro c hc
      simp only [spelled, List.mem_cons, List.mem_append, List.not_mem_nil, or_false] at hc
      rcases hc with rfl | rfl | hc | rfl
      · decide
      · decide
      · exact hnames name _ hvalue c hc
      · decide
    refine ⟨unquoting quoted front, name, _,
      unquoting_append front (by simp [spelled]) hordinary after, hvalue, ?_, hlength⟩
    rw [hgap, text_unquoting_false, List.length_cons, Int.natCast_add, Int.natCast_one]

/-- It is the next macro behind the opening mark as well. -/
theorem Unquotes.shows {next : Scan} {rest : List Char} (h : Unquotes scan rest next)
    (hnames : HasOrdinaryNames macros) (hrest : scan.rest = '`' :: rest)
    (hshows : Shows macros scan.next scan.rest) : Shows macros next.next next.rest := by
  cases hnext : scan.next with
  | none =>
    rw [h.none hnext]
    exact fun found hfound ↦ by cases hfound
  | some found =>
    obtain ⟨front, name, others, hcells, hvalue, hgap, hlength⟩ :=
      exists_unquoting_name hnames hrest hshows hnext scan.context.quoted
    intro later hlater
    rw [h.some front _ found hcells hnext hgap] at hlater
    cases hlater
    refine ⟨front.text true, name, others.text true, ?_, hvalue, rfl, hlength⟩
    rw [h.rest, hcells]
    simp

end Scan

end CommandLine.Macro.Unix
