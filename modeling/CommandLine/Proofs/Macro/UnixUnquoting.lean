import CommandLine.Macro.Unix
import CommandLine.Proofs.Macro.Edits

/-!
Backquoted commands as edits. When a backquoted command becomes a substitution, backslashes in it
are taken away and its closing mark becomes a parenthesis; the rest of the line stays. The macro
that is ahead keeps its place among the edits, however many of them are in front of it.
-/

set_option autoImplicit false

namespace CommandLine.Macro.Unix.Scan

/-- The closing mark of a backquoted command. -/
def closingMark : Cell := .edit ['`'] [')']

/-- What becomes of a text behind the opening mark of a backquoted command. -/
def unquoting (quoted : Bool) : List Char → Edits
  | [] => []
  | '`' :: after => closingMark :: Edits.unchanged after
  | '\\' :: c :: rest =>
    if isUnescaped quoted c then .edit ['\\', c] [c] :: unquoting quoted rest
    else .same '\\' :: .same c :: unquoting quoted rest
  | c :: rest => .same c :: unquoting quoted rest

/-- A character that no escape calls for, and that ends no backquoted command. -/
def IsOrdinary (c : Char) : Prop := isUnescaped true c = false

instance (c : Char) : Decidable (IsOrdinary c) := inferInstanceAs (Decidable (_ = false))

theorem IsOrdinary.isUnescaped {c : Char} (h : IsOrdinary c) (quoted : Bool) :
    isUnescaped quoted c = false := by
  cases quoted with
  | true => exact h
  | false =>
    unfold IsOrdinary Scan.isUnescaped at h
    unfold Scan.isUnescaped
    simp only [Bool.true_and, Bool.or_eq_false_iff] at h
    simp [h]

theorem isUnescaped_of_false {c : Char} {quoted : Bool} (h : isUnescaped quoted c = true) :
    isUnescaped true c = true := by
  cases quoted with
  | true => exact h
  | false =>
    unfold isUnescaped at h ⊢
    simp only [Bool.false_and, Bool.or_false] at h
    simp [h]

theorem IsOrdinary.ne {c : Char} (h : IsOrdinary c) : c ≠ '\\' ∧ c ≠ '`' := by
  constructor <;> rintro rfl <;> cases h

/-- The edits of a backquoted command. -/
inductive IsUnquoting : Cell → Prop
  | same (c : Char) : IsUnquoting (.same c)
  | closing : IsUnquoting closingMark
  | unescaped {c : Char} (hc : isUnescaped true c = true) : IsUnquoting (.edit ['\\', c] [c])

variable {quoted : Bool}

theorem isUnquoting_of_mem {text : List Char} {cell : Cell} (h : cell ∈ unquoting quoted text) :
    IsUnquoting cell := by
  fun_induction unquoting quoted text with
  | case1 => cases h
  | case2 after =>
    rcases List.mem_cons.mp h with rfl | hlater
    · exact .closing
    · obtain ⟨c, -, rfl⟩ := List.mem_map.mp hlater
      exact .same c
  | case3 c rest hc ih =>
    rcases List.mem_cons.mp h with rfl | hlater
    · exact .unescaped (isUnescaped_of_false hc)
    · exact ih hlater
  | case4 c rest hc ih =>
    rcases List.mem_cons.mp h with rfl | hlater
    · exact .same _
    · rcases List.mem_cons.mp hlater with rfl | hlater
      · exact .same _
      · exact ih hlater
  | case5 c rest _ _ ih =>
    rcases List.mem_cons.mp h with rfl | hlater
    · exact .same _
    · exact ih hlater

/-- None of these edits touches what begins and ends macros. -/
theorem isPlain_unquoting (text : List Char) : (unquoting quoted text).IsPlain := by
  intro cell hcell
  cases isUnquoting_of_mem hcell with
  | same c => trivial
  | closing => exact ⟨by simp, by simp, by simp⟩
  | @unescaped c hc =>
    refine ⟨by simp, by simp, ?_⟩
    have hne : c ≠ '%' ∧ c ≠ '{' ∧ c ≠ '}' := by
      refine ⟨?_, ?_, ?_⟩ <;> rintro rfl <;> cases hc
    simp [hne]

@[simp] theorem text_unquoting_false (text : List Char) :
    (unquoting quoted text).text false = text := by
  fun_induction unquoting quoted text with
  | case1 => rfl
  | case2 after => simp [closingMark, Cell.text]
  | case3 c rest hc ih | case4 c rest hc ih | case5 c rest _ _ ih => simp [Cell.text, ih]

/-- The edited text is what the scan goes on with. -/
theorem text_unquoting_true {index : Nat} {text body after : List Char} {removed : List Nat}
    (h : unescaped quoted index text = some (body, after, removed)) :
    (unquoting quoted text).text true = body ++ ')' :: after := by
  fun_induction unescaped quoted index text generalizing body after removed with
  | case1 => cases h
  | case2 index rest =>
    cases h
    simp [unquoting, closingMark, Cell.text]
  | case3 index c rest ih =>
    obtain ⟨⟨inner, behind, others⟩, hfound, heq⟩ := Option.map_eq_some_iff.mp h
    have hinner := ih hfound
    dsimp only at heq
    rw [unquoting]
    split at heq
    · rename_i hc
      cases heq
      rw [if_pos hc]
      simp [Cell.text, hinner]
    · rename_i hc
      cases heq
      rw [if_neg hc]
      simp [Cell.text, hinner]
  | case4 index c rest hclosing hescape ih =>
    obtain ⟨⟨inner, behind, others⟩, hfound, heq⟩ := Option.map_eq_some_iff.mp h
    have hinner := ih hfound
    cases heq
    rw [unquoting]
    · simp [Cell.text, hinner]
    · exact hclosing
    · exact hescape

/-- A backquoted command is one that ends. -/
theorem isSome_unescaped (quoted : Bool) (index : Nat) (text : List Char) :
    (unescaped quoted index text).isSome = true ↔ closingMark ∈ unquoting quoted text := by
  fun_induction unescaped quoted index text with
  | case1 => simp [unquoting]
  | case2 index rest => simp [unquoting]
  | case3 index c rest ih =>
    rw [Option.isSome_map, ih, unquoting]
    split
    · have hne : closingMark ≠ .edit ['\\', c] [c] := by simp [closingMark]
      simp [hne]
    · simp [closingMark]
  | case4 index c rest hclosing hescape ih =>
    rw [Option.isSome_map, ih, unquoting]
    · simp [closingMark]
    · exact hclosing
    · exact hescape

/-! ### Texts in several parts -/

theorem unquoting_ordinary {text : List Char} (h : ∀ c ∈ text, IsOrdinary c) (rest : List Char) :
    unquoting quoted (text ++ rest) = Edits.unchanged text ++ unquoting quoted rest := by
  induction text with
  | nil => rfl
  | cons c tail ih =>
    obtain ⟨hbackslash, hbackquote⟩ := (h c List.mem_cons_self).ne
    have htail := ih fun d hd ↦ h d (List.mem_cons_of_mem _ hd)
    rw [List.cons_append, unquoting, htail]
    · rfl
    · exact hbackquote
    · intro d rest hc
      exact absurd hc hbackslash

/-- What becomes of the rest of a text behind some edits of a backquoted command: behind its end the
text stays. -/
def unquotingBehind (quoted : Bool) (front : Edits) (rest : List Char) : Edits :=
  if closingMark ∈ front then Edits.unchanged rest else unquoting quoted rest

/-- What follows the closing mark stays. -/
theorem unquoting_append_of_closing {front : List Char}
    (h : closingMark ∈ unquoting quoted front) (rest : List Char) :
    unquoting quoted (front ++ rest) = unquoting quoted front ++ Edits.unchanged rest := by
  fun_induction unquoting quoted front with
  | case1 => cases h
  | case2 after =>
    rw [List.cons_append, unquoting]
    simp [Edits.unchanged]
  | case3 c front hc ih =>
    rw [List.cons_append, List.cons_append, unquoting, if_pos hc,
      ih (by simpa [closingMark] using h), List.cons_append]
  | case4 c front hc ih =>
    rw [List.cons_append, List.cons_append, unquoting, if_neg hc,
      ih (by simpa [closingMark] using h), List.cons_append, List.cons_append]
  | case5 c front hclosing hescape ih =>
    have hfront : closingMark ∈ unquoting quoted front := by simpa [closingMark] using h
    rw [List.cons_append, unquoting, ih hfront, List.cons_append]
    · exact hclosing
    · intro d tail hbackslash hcons
      cases front with
      | nil => simp [unquoting] at hfront
      | cons e front => exact hescape e front hbackslash rfl

/-- Ordinary characters stay, whatever is in front of them, and keep the edits on both of their
sides apart. -/
theorem unquoting_append (front : List Char) {middle : List Char} (hnil : middle ≠ [])
    (hmiddle : ∀ c ∈ middle, IsOrdinary c) (rest : List Char) :
    unquoting quoted (front ++ (middle ++ rest)) =
      unquoting quoted front ++ (Edits.unchanged middle ++
        unquotingBehind quoted (unquoting quoted front) rest) := by
  have hsame (cells : Edits) (others : Edits) (hothers : closingMark ∉ others) :
      unquotingBehind quoted (others ++ cells) rest = unquotingBehind quoted cells rest := by
    simp [unquotingBehind, hothers]
  fun_induction unquoting quoted front with
  | case1 =>
    rw [List.nil_append, unquoting_ordinary hmiddle]
    rfl
  | case2 after =>
    rw [List.cons_append, unquoting]
    simp [unquotingBehind, Edits.unchanged]
  | case3 c front hc ih =>
    have hnot : closingMark ∉ [Cell.edit ['\\', c] [c]] := by simp [closingMark]
    rw [List.cons_append, List.cons_append, unquoting, if_pos hc, ih,
      ← hsame (unquoting quoted front) _ hnot]
    rfl
  | case4 c front hc ih =>
    have hnot : closingMark ∉ [Cell.same '\\', .same c] := by simp [closingMark]
    rw [List.cons_append, List.cons_append, unquoting, if_neg hc, ih,
      ← hsame (unquoting quoted front) _ hnot]
    rfl
  | case5 c front hclosing hescape ih =>
    have hnot : closingMark ∉ [Cell.same c] := by simp [closingMark]
    have hcons : unquoting quoted (c :: front ++ (middle ++ rest)) =
        .same c :: unquoting quoted (front ++ (middle ++ rest)) := by
      by_cases hbackslash : c = '\\'
      · -- a backslash at the end of the front stands before an ordinary character
        subst hbackslash
        cases front with
        | cons d front => exact (hescape d front rfl rfl).elim
        | nil =>
          obtain ⟨d, tail, rfl⟩ := List.exists_cons_of_ne_nil hnil
          have hd := hmiddle d List.mem_cons_self
          have hone : unquoting quoted (d :: (tail ++ rest)) =
              .same d :: unquoting quoted (tail ++ rest) :=
            unquoting_ordinary (List.forall_mem_singleton.mpr hd) (tail ++ rest)
          have hkept : ¬isUnescaped quoted d = true := by simp [hd.isUnescaped quoted]
          simp only [List.cons_append, List.nil_append]
          rw [unquoting, if_neg hkept, hone]
      · rw [List.cons_append, unquoting]
        · exact hclosing
        · exact fun d rest hc _ ↦ hbackslash hc
    rw [hcons, ih, ← hsame (unquoting quoted front) _ hnot]
    rfl

/-! ### The macro ahead -/

/-- Backslashes are taken away at their places in the text. -/
theorem le_of_mem_removed {index : Nat} {text body after : List Char} {removed : List Nat}
    (h : unescaped quoted index text = some (body, after, removed)) :
    ∀ place ∈ removed, index ≤ place := by
  fun_induction unescaped quoted index text generalizing body after removed with
  | case1 => cases h
  | case2 index rest =>
    cases h
    simp
  | case3 index c rest ih =>
    obtain ⟨⟨inner, behind, others⟩, hfound, heq⟩ := Option.map_eq_some_iff.mp h
    have hothers : ∀ place ∈ others, index ≤ place := fun place hplace ↦ by
      have := ih hfound place hplace
      omega
    dsimp only at heq
    split at heq
    · cases heq
      simpa using hothers
    · cases heq
      exact hothers
  | case4 index c rest _ _ ih =>
    obtain ⟨⟨inner, behind, others⟩, hfound, heq⟩ := Option.map_eq_some_iff.mp h
    cases heq
    intro place hplace
    have := ih hfound place hplace
    omega

theorem length_text_of_unchanged {front behind : Edits} {text : List Char}
    (h : front ++ behind = Edits.unchanged text) (edited : Bool) :
    (front.text edited).length = (front.text false).length := by
  have hnone : ¬front.HasEdit := by
    rintro ⟨cell, hcell, hedit⟩
    have hmem : cell ∈ Edits.unchanged text := h ▸ List.mem_append_left _ hcell
    obtain ⟨c, -, rfl⟩ := List.mem_map.mp hmem
    exact hedit
  rw [Edits.eq_unchanged hnone, Edits.text_unchanged, Edits.text_unchanged]

/-- The number of backslashes that are taken away in front of a place. -/
def removedBefore (removed : List Nat) (bound : Nat) : Nat := (removed.filter (· < bound)).length

theorem removedBefore_eq_zero {removed : List Nat} {bound : Nat}
    (h : ∀ place ∈ removed, bound ≤ place) : removedBefore removed bound = 0 := by
  rw [removedBefore, List.length_eq_zero_iff, List.filter_eq_nil_iff]
  intro place hplace
  have := h place hplace
  simp only [decide_eq_true_eq]
  omega

theorem removedBefore_cons {place bound : Nat} (h : place < bound) (removed : List Nat) :
    removedBefore (place :: removed) bound = removedBefore removed bound + 1 := by
  rw [removedBefore, List.filter_cons_of_pos (by simpa using h), List.length_cons, removedBefore]

theorem length_text_cons (edited : Bool) (cell : Cell) (cells : Edits) :
    (Edits.text edited (cell :: cells)).length =
      (cell.text edited).length + (cells.text edited).length := by
  rw [Edits.text_cons, List.length_append]

/-- Up to every place among the edits the text gets shorter by the backslashes that are taken away
in front of it. -/
theorem length_removed {index bound : Nat} {text body after : List Char} {removed : List Nat}
    (h : unescaped quoted index text = some (body, after, removed)) {front behind : Edits}
    (hcells : unquoting quoted text = front ++ behind)
    (hbound : bound = index + (front.text false).length) :
    removedBefore removed bound + (front.text true).length = (front.text false).length := by
  have hone (c : Char) (edited : Bool) : ((Cell.same c).text edited).length = 1 := rfl
  have hplaces := le_of_mem_removed h
  fun_induction unescaped quoted index text generalizing body after removed front with
  | case1 => cases h
  | case2 index rest =>
    cases h
    cases front with
    | nil => rfl
    | cons cell front =>
      rw [unquoting, List.cons_append] at hcells
      obtain ⟨rfl, hrest⟩ := List.cons.inj hcells
      have hlength := length_text_of_unchanged hrest.symm true
      simp [closingMark, Cell.text, hlength, removedBefore]
  | case3 index c rest ih =>
    obtain ⟨⟨inner, behind, others⟩, hfound, heq⟩ := Option.map_eq_some_iff.mp h
    have hothers := le_of_mem_removed hfound
    rw [unquoting] at hcells
    dsimp only at heq
    split at heq
    · rename_i hc
      cases heq
      rw [if_pos hc] at hcells
      cases front with
      | nil =>
        rw [hbound]
        exact removedBefore_eq_zero hplaces
      | cons cell front =>
        obtain ⟨rfl, hrest⟩ := List.cons.inj hcells
        have hold : ((Cell.edit ['\\', c] [c]).text false).length = 2 := rfl
        have hnew : ((Cell.edit ['\\', c] [c]).text true).length = 1 := rfl
        simp only [length_text_cons, hold, hnew] at hbound ⊢
        have hlength := ih hfound hrest (by omega) hothers
        rw [removedBefore_cons (by omega)]
        omega
    · rename_i hc
      cases heq
      rw [if_neg hc] at hcells
      rcases front with _ | ⟨first, _ | ⟨second, front⟩⟩
      · rw [hbound]
        exact removedBefore_eq_zero hplaces
      · obtain ⟨rfl, -⟩ := List.cons.inj hcells
        simp only [length_text_cons, hone, Edits.text_nil, List.length_nil] at hbound ⊢
        rw [removedBefore_eq_zero fun place hplace ↦ Nat.le_trans (by omega) (hothers place hplace)]
      · simp only [List.cons_append, List.cons.injEq] at hcells
        obtain ⟨rfl, rfl, hrest⟩ := hcells
        simp only [length_text_cons, hone] at hbound ⊢
        have hlength := ih hfound hrest (by omega) hothers
        omega
  | case4 index c rest hclosing hescape ih =>
    obtain ⟨⟨inner, behind, others⟩, hfound, heq⟩ := Option.map_eq_some_iff.mp h
    have hothers := le_of_mem_removed hfound
    cases heq
    rw [unquoting] at hcells
    · cases front with
      | nil =>
        rw [hbound]
        exact removedBefore_eq_zero hplaces
      | cons cell front =>
        rw [List.cons_append] at hcells
        obtain ⟨rfl, hrest⟩ := List.cons.inj hcells
        simp only [length_text_cons, hone] at hbound ⊢
        have hlength := ih hfound hrest (by omega) hothers
        omega
    · exact hclosing
    · exact hescape

/-- What a scan goes on with behind the opening mark of a backquoted command. -/
structure Unquotes (scan : Scan) (behind : List Char) (next : Scan) : Prop where
  finished : next.finished = [.literal ' ', .literal '(', .literal '$'] ++ scan.finished
  rest : next.rest = (unquoting scan.context.quoted behind).text true
  none : scan.next = none → next.next = none
  some : ∀ front others found, unquoting scan.context.quoted behind = front ++ others →
    scan.next = some found → found.gap = (front.text false).length + 1 →
      next.next = some { found with gap := (front.text true).length }
  context : next.context = .substitution
  stack : next.stack = scan.context :: scan.stack
  saves : next.saves = scan.saves

theorem unquotes_of_openBackquote {scan next : Scan} {rest : List Char}
    (hrest : scan.rest = '`' :: rest) (hopen : scan.openBackquote = .more next) :
    Unquotes scan rest next ∧ closingMark ∈ unquoting scan.context.quoted rest := by
  have hdrop : scan.rest.drop 1 = rest := by rw [hrest]; rfl
  unfold openBackquote at hopen
  rw [hdrop] at hopen
  cases hfound : unescaped scan.context.quoted 0 rest with
  | none =>
    rw [hfound] at hopen
    cases hopen
  | some result =>
    obtain ⟨body, after, removed⟩ := result
    rw [hfound] at hopen
    cases hopen
    refine ⟨⟨rfl, (text_unquoting_true hfound).symm, fun hnone ↦ ?_, ?_, rfl, rfl, rfl⟩, ?_⟩
    · rw [hnone]
      rfl
    · intro front behind found hcells hnext hgap
      have hlength := length_removed hfound hcells rfl
      rw [Nat.zero_add] at hlength
      have hnear : (found.nearer 1).gap = (front.text false).length := by
        rw [Occurrence.nearer_gap, hgap]
        omega
      simp only [hnext, Option.map_some, hnear, Int.ofNat_lt]
      change some ((found.nearer 1).nearer (removedBefore removed (front.text false).length)) = _
      simp only [Occurrence.nearer, hgap, Option.some.injEq, Occurrence.mk.injEq, and_self,
        and_true]
      omega
    · rw [← isSome_unescaped _ 0, hfound]
      rfl

/-- A backquoted command that ends can be opened. -/
theorem exists_openBackquote {scan : Scan} {rest : List Char} (hrest : scan.rest = '`' :: rest)
    (hclosing : closingMark ∈ unquoting scan.context.quoted rest) :
    ∃ next, scan.openBackquote = .more next := by
  have hdrop : scan.rest.drop 1 = rest := by rw [hrest]; rfl
  rw [← isSome_unescaped _ 0] at hclosing
  obtain ⟨⟨body, after, removed⟩, hfound⟩ := Option.isSome_iff_exists.mp hclosing
  exact ⟨_, by rw [openBackquote, hdrop, hfound]⟩

end CommandLine.Macro.Unix.Scan
