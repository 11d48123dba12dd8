import CommandLine.Proofs.Macro.UnixOpeners
import Mathlib.Data.List.Basic

/-!
A text with an opener, with nothing between its parentheses and with a blank there. Backquoted
commands keep the opener, and the next macros of both texts correspond or the one of the text
without the blank reaches into the opener. The names of the macros must not hold the opener with
the blank, which would make a macro of what was none.
-/

set_option autoImplicit false

namespace CommandLine.Macro.Unix

/-! ### Openers with a blank and without one -/

/-- The beginning of arithmetic, or of a substitution with a parenthesis. -/
def opener (blank : Bool) : List Char := if blank then ['$', '(', ' ', '('] else ['$', '(', '(']

/-- What follows the dollar sign. -/
def parentheses (blank : Bool) : List Char := if blank then ['(', ' ', '('] else ['(', '(']

theorem opener_eq (blank : Bool) : opener blank = '$' :: parentheses blank := by cases blank <;> rfl

theorem openers_concat_dollar (text : List Char) : openers (text ++ ['$']) = openers text := by
  induction text with
  | nil => rfl
  | cons c rest ih =>
    have hsame : (rest ++ ['$']).take 2 = ['(', '('] ↔ rest.take 2 = ['(', '('] := by
      rcases rest with _ | ⟨d, _ | ⟨e, rest⟩⟩ <;> simp
    rw [List.cons_append, openers, openers, ih]
    simp only [hsame]

/-- An opener comes on top of the openers on both of its sides. -/
theorem openers_append_opener (front behind : List Char) :
    openers (front ++ (opener false ++ behind)) = openers front + (openers behind + 1) := by
  induction front with
  | nil => simp [opener, openers_opener, openers]
  | cons c rest ih =>
    have hsame : (rest ++ (opener false ++ behind)).take 2 = ['(', '('] ↔
        rest.take 2 = ['(', '('] := by
      rcases rest with _ | ⟨d, _ | ⟨e, rest⟩⟩ <;> simp [opener]
    rw [List.cons_append, openers, openers, ih]
    simp only [hsame]
    omega

/-- Behind the dollar sign of an opener only the openers further on are left. -/
theorem openers_drop_opener_le {front : List Char} (behind : List Char) {count : Nat}
    (hcount : front.length < count) :
    openers ((front ++ (opener false ++ behind)).drop count) ≤ openers behind := by
  obtain ⟨more, rfl⟩ := Nat.exists_eq_add_of_lt hcount
  have hdrop : (front ++ (opener false ++ behind)).drop (front.length + more + 1) =
      ('(' :: '(' :: behind).drop more := by
    rw [Nat.add_right_comm, ← List.drop_drop, ← List.drop_drop, List.drop_left]
    rfl
  rw [hdrop]
  refine Nat.le_trans (openers_drop_le _ _) ?_
  rw [openers_cons_of_ne (by decide), openers_cons_of_ne (by decide)]

namespace Scan

/-- A text that begins with its first opener has nothing in front of it. -/
theorem eq_nil_of_opener {front behind rest : List Char} (hfront : openers front = 0)
    (h : front ++ (opener false ++ behind) = '$' :: '(' :: '(' :: rest) : front = [] := by
  rcases front with _ | ⟨c, _ | ⟨d, _ | ⟨e, front⟩⟩⟩
  · rfl
  · simp [opener] at h
  · simp [opener] at h
  · simp only [List.cons_append, List.cons.injEq] at h
    obtain ⟨rfl, rfl, rfl, -⟩ := h
    simp [openers] at hfront

variable {quoted : Bool}

/-! ### Openers in a backquoted command -/

theorem isOrdinary_parentheses (blank : Bool) : ∀ c ∈ parentheses blank, IsOrdinary c := by
  have hopening : IsOrdinary '(' := by decide
  cases blank with
  | false => exact List.forall_mem_cons.mpr ⟨hopening, List.forall_mem_singleton.mpr hopening⟩
  | true =>
    refine List.forall_mem_cons.mpr ⟨hopening, List.forall_mem_cons.mpr ⟨by decide, ?_⟩⟩
    exact List.forall_mem_singleton.mpr hopening

theorem exists_unquoting_dollar (front : List Char) :
    ∃ later, (unquoting quoted (front ++ ['$'])).text true = later ++ ['$'] ∧
      later.length ≤ front.length := by
  fun_induction unquoting quoted front with
  | case1 => exact ⟨[], rfl, Nat.le_refl _⟩
  | case2 after =>
    refine ⟨')' :: after, ?_, Nat.le_refl _⟩
    rw [List.cons_append, unquoting]
    simp [closingMark, Cell.text]
  | case3 c rest hc ih =>
    obtain ⟨later, htext, hlength⟩ := ih
    refine ⟨c :: later, ?_, by simp only [List.length_cons]; omega⟩
    rw [List.cons_append, List.cons_append, unquoting, if_pos hc, Edits.text_cons, htext]
    rfl
  | case4 c rest hc ih =>
    obtain ⟨later, htext, hlength⟩ := ih
    refine ⟨'\\' :: c :: later, ?_, by simp only [List.length_cons]; omega⟩
    rw [List.cons_append, List.cons_append, unquoting, if_neg hc, Edits.text_cons, Edits.text_cons,
      htext]
    rfl
  | case5 c rest hclosing hescape ih =>
    obtain ⟨later, htext, hlength⟩ := ih
    by_cases hend : c = '\\' ∧ rest = []
    · -- the dollar sign is the one that the backslash escapes
      obtain ⟨rfl, rfl⟩ := hend
      refine ⟨[], ?_, Nat.zero_le _⟩
      rw [List.cons_append, List.nil_append, unquoting, if_pos (by simp [isUnescaped])]
      rfl
    · refine ⟨c :: later, ?_, by simp only [List.length_cons]; omega⟩
      rw [List.cons_append, unquoting, Edits.text_cons, htext]
      · rfl
      · exact hclosing
      · intro d behind hc hrest
        cases rest with
        | nil => exact hend ⟨hc, rfl⟩
        | cons e rest => exact hescape e rest hc rfl

theorem exists_unquotingBehind_dollar (front : Edits) (text : List Char) :
    ∃ later, (unquotingBehind quoted front (text ++ ['$'])).text true = later ++ ['$'] ∧
      later.length ≤ text.length := by
  unfold unquotingBehind
  split
  · exact ⟨text, Edits.text_unchanged true _, Nat.le_refl _⟩
  · exact exists_unquoting_dollar text

/-- What becomes of the text in front of an opener and of the text behind it in a backquoted
command, whether the command ends in front of the opener or not. -/
structure UnquotesOpener (quoted : Bool) (front behind later others : List Char) : Prop where
  text_front : (unquoting quoted (front ++ ['$'])).text true = later ++ ['$']
  text_behind :
    (unquotingBehind quoted (unquoting quoted (front ++ ['$'])) behind).text true = others
  cells : ∀ blank, unquoting quoted (front ++ (opener blank ++ behind)) =
    unquoting quoted (front ++ ['$']) ++ (Edits.unchanged (parentheses blank) ++
      unquotingBehind quoted (unquoting quoted (front ++ ['$'])) behind)
  openers_front : openers later = 0
  openers_behind : openers others = openers behind

theorem UnquotesOpener.text {front behind later others : List Char}
    (h : UnquotesOpener quoted front behind later others) (blank : Bool) :
    (unquoting quoted (front ++ (opener blank ++ behind))).text true =
      later ++ (opener blank ++ others) := by
  rw [h.cells, Edits.text_append, Edits.text_append, h.text_front, h.text_behind,
    Edits.text_unchanged, opener_eq]
  simp

theorem exists_unquotesOpener (quoted : Bool) {front : List Char} (hfront : openers front = 0)
    (behind : List Char) :
    ∃ later others, UnquotesOpener quoted front behind later others := by
  obtain ⟨later, htext, -⟩ := @exists_unquoting_dollar quoted front
  refine ⟨later, _, htext, rfl, fun blank ↦ ?_, ?_, ?_⟩
  · rw [opener_eq, ← unquoting_append _ (by cases blank <;> decide) (isOrdinary_parentheses blank)]
    simp
  · have hsame : openers ((unquoting quoted (front ++ ['$'])).text true) =
        openers (front ++ ['$']) :=
      openers_unquoting _
    rwa [htext, openers_concat_dollar, openers_concat_dollar, hfront] at hsame
  · unfold unquotingBehind
    split
    · rw [Edits.text_unchanged]
    · exact openers_unquoting behind

/-- Where a macro begins behind some edits. -/
theorem exists_unquotingBehind_percent (front : Edits) (before after : List Char) :
    ∃ first second : Edits,
      unquotingBehind quoted front (before ++ '%' :: after) = first ++ .same '%' :: second ∧
        first.text false = before := by
  unfold unquotingBehind
  split
  · exact ⟨Edits.unchanged before, Edits.unchanged after, by simp [Edits.unchanged], by simp⟩
  · have hordinary : ∀ c ∈ ['%'], IsOrdinary c := List.forall_mem_singleton.mpr (by decide)
    refine ⟨unquoting quoted before, unquotingBehind quoted (unquoting quoted before) after, ?_,
      text_unquoting_false before⟩
    exact unquoting_append before (List.cons_ne_nil _ _) hordinary after

/-- A macro that begins in front of the opener still does so, and has no more behind it. -/
theorem UnquotesOpener.exists_before {before after behind later others : List Char}
    (h : UnquotesOpener quoted (before ++ '%' :: after) behind later others) :
    ∃ (first : Edits) (tail : List Char), first.text false = before ∧
      later = first.text true ++ '%' :: tail ∧ tail.length ≤ after.length ∧
      ∀ blank, ∃ rest : Edits,
        unquoting quoted (before ++ '%' :: after ++ (opener blank ++ behind)) = first ++ rest := by
  have hordinary : ∀ c ∈ ['%'], IsOrdinary c := List.forall_mem_singleton.mpr (by decide)
  have hcells : unquoting quoted (before ++ '%' :: after ++ ['$']) = unquoting quoted before ++
      .same '%' :: unquotingBehind quoted (unquoting quoted before) (after ++ ['$']) := by
    rw [List.append_assoc, List.cons_append]
    exact unquoting_append before (List.cons_ne_nil _ _) hordinary _
  obtain ⟨tail, htail, hlength⟩ :
      ∃ tail, (unquotingBehind quoted (unquoting quoted before) (after ++ ['$'])).text true =
        tail ++ ['$'] ∧ tail.length ≤ after.length :=
    exists_unquotingBehind_dollar _ after
  refine ⟨unquoting quoted before, tail, text_unquoting_false before, ?_, hlength, fun blank ↦ ?_⟩
  · have htext := h.text_front
    rw [hcells, Edits.text_append, Edits.text_cons, htail, Cell.text, List.singleton_append,
      ← List.cons_append, ← List.append_assoc] at htext
    exact (List.append_inj_left' htext rfl).symm
  · rw [h.cells, hcells, List.append_assoc]
    exact ⟨_, rfl⟩

/-- A macro that begins behind the opener still does so. -/
theorem UnquotesOpener.exists_behind {front before after later others : List Char}
    (h : UnquotesOpener quoted front (before ++ '%' :: after) later others) :
    ∃ first second : List Char, others = first ++ '%' :: second ∧
      ∀ blank, ∃ row rest : Edits,
        unquoting quoted (front ++ (opener blank ++ (before ++ '%' :: after))) = row ++ rest ∧
        (row.text false).length = front.length + (opener blank).length + before.length ∧
        (row.text true).length = later.length + (opener blank).length + first.length := by
  obtain ⟨row, tail, hrow, hbefore⟩ :=
    exists_unquotingBehind_percent (unquoting quoted (front ++ ['$'])) before after
  refine ⟨row.text true, tail.text true, ?_, fun blank ↦ ?_⟩
  · rw [← h.text_behind, hrow, Edits.text_append]
    rfl
  · refine ⟨unquoting quoted (front ++ ['$']) ++ (Edits.unchanged (parentheses blank) ++ row),
      .same '%' :: tail, ?_, ?_, ?_⟩
    · rw [h.cells, hrow, List.append_assoc, List.append_assoc]
    · rw [Edits.text_append, text_unquoting_false, Edits.text_append, hbefore]
      simp only [Edits.text_unchanged, opener_eq, List.length_append, List.length_cons,
        List.length_nil]
      omega
    · rw [Edits.text_append, h.text_front, Edits.text_append]
      simp only [Edits.text_unchanged, opener_eq, List.length_append, List.length_cons,
        List.length_nil]
      omega

/-! ### The next macros of both lines -/

/-- The next macros, with nothing between the parentheses and with a blank there: there is none, or
it lies in front of the opener, or behind it. -/
inductive NextApart (front behind : List Char) : Option Occurrence → Option Occurrence → Prop
  | none : NextApart front behind none none
  | near {before after : List Char} {found : Occurrence} (hbefore : front = before ++ '%' :: after)
    (hgap : found.gap = before.length) (hlength : found.gap + found.length ≤ front.length) :
    NextApart front behind (some found) (some found)
  | far {before after : List Char} {found : Occurrence} (hbefore : behind = before ++ '%' :: after)
    (hgap : found.gap = front.length + 3 + before.length) :
    NextApart front behind (some found) (some (found.farther 1))

/-- No name holds the beginning of a substitution with a parenthesis. -/
def HasNoOpener (macros : Macros) : Prop :=
  ∀ name value, macros.values.get? name = some value → ¬opener true <:+: name

/-- The blank as an edit. -/
def blankEdit : Cell := .edit (opener false) (opener true)

theorem blankEdit_notMem_unchanged (text : List Char) : blankEdit ∉ Edits.unchanged text := by
  intro hmem
  obtain ⟨c, -, hc⟩ := List.mem_map.mp hmem
  cases hc

/-- The blank divides the cells in one way only. -/
theorem eq_of_blankEdit {front behind : List Char} {first second : Edits}
    (h : Edits.unchanged front ++ blankEdit :: Edits.unchanged behind =
      first ++ blankEdit :: second) :
    Edits.unchanged front = first ∧ Edits.unchanged behind = second := by
  obtain ⟨hfirst, -, hsecond⟩ := (List.append_cons_inj_of_notMem
    (blankEdit_notMem_unchanged front) (blankEdit_notMem_unchanged behind)).mp h
  exact ⟨hfirst, hsecond⟩

/-- It is the only edit. -/
theorem eq_blankEdit_of_isEdit {front behind : List Char} {cell : Cell}
    (hcell : cell ∈ Edits.unchanged front ++ blankEdit :: Edits.unchanged behind)
    (hedit : cell.IsEdit) : cell = blankEdit := by
  rcases List.mem_append.mp hcell with hfront | hrest
  · obtain ⟨c, -, rfl⟩ := List.mem_map.mp hfront
    exact hedit.elim
  rcases List.mem_cons.mp hrest with rfl | hbehind
  · rfl
  · obtain ⟨c, -, rfl⟩ := List.mem_map.mp hbehind
    exact hedit.elim

variable {macros : Macros} (hpattern : macros.pattern = .default) (hnames : HasNoOpener macros)

include hpattern hnames in
theorem finds_blank (front behind : List Char) :
    Edits.Finds macros (Edits.unchanged front ++ blankEdit :: Edits.unchanged behind) := by
  refine Edits.finds hpattern ?_ ?_
  · intro cell hcell
    rcases List.mem_append.mp hcell with hfront | hrest
    · obtain ⟨c, -, rfl⟩ := List.mem_map.mp hfront
      trivial
    rcases List.mem_cons.mp hrest with rfl | hbehind
    · refine ⟨by decide, by decide, ?_⟩
      simp [opener]
    · obtain ⟨c, -, rfl⟩ := List.mem_map.mp hbehind
      trivial
  · rintro inside hinside ⟨cell, hcell, hedit⟩
    have hblank : blankEdit ∈ inside := eq_blankEdit_of_isEdit (hinside.subset hcell) hedit ▸ hcell
    obtain ⟨first, second, rfl⟩ := List.append_of_mem hblank
    cases hvalue : macros.values.get? (Edits.text true (first ++ blankEdit :: second)) with
    | none => rfl
    | some value =>
      refine absurd ⟨Edits.text true first, Edits.text true second, ?_⟩ (hnames _ value hvalue)
      simp [blankEdit, Cell.text]

theorem text_blank (front behind : List Char) (blank : Bool) :
    (Edits.unchanged front ++ blankEdit :: Edits.unchanged behind).text blank =
      front ++ (opener blank ++ behind) := by
  cases blank <;> simp [blankEdit, Cell.text]

/-- Cells without the blank are text, also where a macro is among them. -/
theorem text_of_unchanged_spelled {text name : List Char} {before after : Edits}
    (h : Edits.unchanged text = before ++ (Edits.unchanged (spelled name) ++ after)) :
    text = before.text false ++ '%' :: ('{' :: (name ++ ['}']) ++ after.text false) ∧
      (before.text true).length = (before.text false).length := by
  refine ⟨?_, length_text_of_unchanged h.symm true⟩
  have hboth := congrArg (Edits.text false) h
  simpa [spelled] using hboth

/-- A macro among other cells than the blank lies in front of the opener or behind it. -/
theorem nextApart_of_spelled {front behind name : List Char} {first second : Edits}
    (hcells : Edits.unchanged front ++ blankEdit :: Edits.unchanged behind =
      first ++ Edits.unchanged (spelled name) ++ second) (value : List Char) :
    NextApart front behind
      (some ⟨(first.text false).length, name.length + 3, value, Nat.succ_pos _⟩)
      (some ⟨(first.text true).length, name.length + 3, value, Nat.succ_pos _⟩) := by
  have hmem : blankEdit ∈ first ++ Edits.unchanged (spelled name) ++ second := by
    rw [← hcells]
    simp
  rcases List.mem_append.mp hmem with hfront | hsecond
  · rcases List.mem_append.mp hfront with hfirst | hname
    · obtain ⟨others, before, rfl⟩ := List.append_of_mem hfirst
      rw [List.append_assoc, List.append_assoc, List.cons_append] at hcells
      obtain ⟨rfl, hbehind⟩ := eq_of_blankEdit hcells
      obtain ⟨htext, hlength⟩ := text_of_unchanged_spelled hbehind
      have hplain : (Edits.text false (Edits.unchanged front ++ blankEdit :: before)).length =
          front.length + 3 + (Edits.text false before).length := by
        simp [blankEdit, Cell.text, opener]
        omega
      have hblank : (Edits.text true (Edits.unchanged front ++ blankEdit :: before)).length =
          front.length + 3 + (Edits.text false before).length + 1 := by
        simp [blankEdit, Cell.text, opener, hlength]
        omega
      rw [hplain, hblank]
      exact .far htext rfl
    · exact absurd hname (blankEdit_notMem_unchanged _)
  · obtain ⟨before, rest, rfl⟩ := List.append_of_mem hsecond
    rw [← List.append_assoc] at hcells
    obtain ⟨hfront, -⟩ := eq_of_blankEdit hcells
    rw [List.append_assoc] at hfront
    obtain ⟨htext, hlength⟩ := text_of_unchanged_spelled hfront
    rw [hlength]
    refine .near htext rfl ?_
    rw [htext]
    simp only [List.length_append, List.length_cons, List.length_nil]
    omega

/-- A name with the blank in it begins in front of the opener. -/
theorem exists_front_of_word {front behind : List Char} {first inside second : Edits}
    (hcells : Edits.unchanged front ++ blankEdit :: Edits.unchanged behind =
      first ++ Edits.word inside ++ second) (hedit : inside.HasEdit) :
    ∃ before : Edits, front = first.text false ++ '%' :: ('{' :: before.text false) ∧
      (before.text false).length < (inside.text false).length := by
  obtain ⟨cell, hcell, hcelledit⟩ := hedit
  have hmem : cell ∈ Edits.unchanged front ++ blankEdit :: Edits.unchanged behind := by
    rw [hcells]
    simp [Edits.word, hcell]
  obtain rfl := eq_blankEdit_of_isEdit hmem hcelledit
  obtain ⟨before, rest, rfl⟩ := List.append_of_mem hcell
  have hsplit : Edits.unchanged front ++ blankEdit :: Edits.unchanged behind =
      (first ++ .same '%' :: .same '{' :: before) ++
        blankEdit :: (rest ++ .same '}' :: second) := by
    rw [hcells]
    simp [Edits.word]
  obtain ⟨hfront, -⟩ := eq_of_blankEdit hsplit
  refine ⟨before, ?_, ?_⟩
  · have hboth := congrArg (Edits.text false) hfront
    simpa [Cell.text] using hboth
  · simp [blankEdit, Cell.text, opener]

include hpattern hnames in
/-- The next macros of both lines correspond, or that of the line without the blank begins in front
of the opener and reaches into it. -/
theorem nextApart_find (front behind : List Char) :
    NextApart front behind (macros.find (front ++ (opener false ++ behind)))
        (macros.find (front ++ (opener true ++ behind))) ∨
      ∃ before after found, macros.find (front ++ (opener false ++ behind)) = some found ∧
        front = before ++ '%' :: after ∧ found.gap = before.length ∧
          front.length < found.gap + found.length := by
  have hfinds := finds_blank hpattern hnames front behind
  rw [← text_blank, ← text_blank]
  cases hfinds with
  | none hfinds =>
    rw [hfinds, hfinds]
    exact .inl .none
  | same first name second value hcells _ hfinds =>
    rw [hfinds, hfinds]
    exact .inl (nextApart_of_spelled hcells value)
  | edited first inside second value hcells hedit _ hfound =>
    obtain ⟨before, htext, hlength⟩ := exists_front_of_word hcells hedit
    refine .inr ⟨_, _, _, hfound, htext, rfl, ?_⟩
    rw [htext]
    simp only [List.length_append, List.length_cons]
    omega

theorem NextApart.nearer {front behind : List Char} {next other : Option Occurrence} {count : Nat}
    (h : NextApart front behind next other) (hcount : count ≤ front.length)
    (hle : ∀ before after found, front = before ++ '%' :: after → next = some found →
      found.gap = before.length → count ≤ before.length) :
    NextApart (front.drop count) behind (next.map (·.nearer count))
      (other.map (·.nearer count)) := by
  cases h with
  | none => exact .none
  | @near before after found hbefore hgap hlength =>
    have hpassed := hle before after found hbefore rfl hgap
    have hdrop : front.drop count = before.drop count ++ '%' :: after := by
      rw [hbefore, List.drop_append_of_le_length hpassed]
    refine .near hdrop ?_ ?_
    · rw [Occurrence.nearer_gap, List.length_drop]
      omega
    · rw [Occurrence.nearer_gap, Occurrence.nearer_length, List.length_drop]
      omega
  | @far before after found hbefore hgap =>
    have hfarther : (found.farther 1).nearer count = (found.nearer count).farther 1 := by
      simp only [Occurrence.nearer, Occurrence.farther, Occurrence.mk.injEq, and_self, and_true]
      omega
    rw [Option.map_some, Option.map_some, hfarther]
    refine .far hbefore ?_
    rw [Occurrence.nearer_gap, List.length_drop]
    omega

end Scan

end CommandLine.Macro.Unix
