import CommandLine.Proofs.Windows.Readers
import CommandLine.Line

/-!
Text that is written for the inside of a quotation, behind backslashes that stand there already. The
number of backslashes at its end goes on to the text that follows, so a text can be written in
parts; and once they are doubled in front of the closing quote both readers give back what was
written, with the backslashes in front of it.
-/

set_option autoImplicit false

namespace CommandLine.Windows

open Transducer

/-- The pieces of one word, without the mark that opens it. -/
structure MakesUp (found : List Piece) (word : Word) : Prop where
  gap : .gap ∉ found
  text : Piece.text found = word

theorem MakesUp.words_opening {found : List Piece} {word : Word} (h : MakesUp found word) :
    Piece.words (.opening :: found) = [word] := by
  have hgap := h.gap
  rw [Piece.words_of_gap_notMem (by simpa using hgap) (by simp), Piece.text, h.text]

/-- A text is written as its parts are, each behind the backslashes that the part before it ends
with. -/
theorem quoteInside_append (pending : Nat) (first second : List Char) :
    quoteInside pending (first ++ second) =
      ((quoteInside pending first).1 ++ (quoteInside (quoteInside pending first).2 second).1,
        (quoteInside (quoteInside pending first).2 second).2) := by
  fun_induction quoteInside pending first with
  | case1 pending => rfl
  | case2 pending rest behind ih => simp [quoteInside, behind, ih]
  | case3 pending rest behind ih => simp [quoteInside, behind, ih]
  | case4 pending c rest hbackslash hquote behind ih =>
    simp [quoteInside, behind, ih]

/-- No character is written but those of the text and what its quotes are escaped with. -/
theorem of_mem_quoteInside {pending : Nat} {value : List Char} {c : Char}
    (h : c ∈ (quoteInside pending value).1) : c ∈ value ∨ c = '\\' ∨ c = '"' ∨ c = '^' := by
  have hslashes {count : Nat} (hc : c ∈ backslashes count) : c = '\\' := List.eq_of_mem_replicate hc
  fun_induction quoteInside pending value with
  | case1 => cases h
  | case2 pending rest behind ih =>
    rcases List.mem_cons.mp h with rfl | hrest
    · exact .inl List.mem_cons_self
    · exact (ih hrest).imp_left (List.mem_cons_of_mem _)
  | case3 pending rest behind ih =>
    rcases List.mem_append.mp h with hescape | hrest
    · rcases List.mem_append.mp hescape with hpending | hquote
      · exact .inr (.inl (hslashes hpending))
      · simp only [List.mem_cons, List.not_mem_nil, or_false] at hquote
        rcases hquote with rfl | rfl | rfl | rfl | rfl <;> simp
    · exact (ih hrest).imp_left (List.mem_cons_of_mem _)
  | case4 pending d rest hbackslash hquote behind ih =>
    rcases List.mem_cons.mp h with rfl | hrest
    · exact .inl List.mem_cons_self
    · exact (ih hrest).imp_left (List.mem_cons_of_mem _)

/-- A text in a quotation of its own, behind a run of `pending` backslashes and with those at its
end doubled. -/
def quotation (pending : Nat) (value : List Char) : List Char :=
  let inside := quoteInside pending value
  '"' :: backslashes pending ++ inside.1 ++ backslashes inside.2 ++ ['"']

theorem percent_notMem_quotation {value : List Char} (hvalue : '%' ∉ value) (pending : Nat) :
    '%' ∉ quotation pending value := by
  intro h
  have hslashes (count : Nat) : '%' ∉ backslashes count := by simp [backslashes]
  have hinside : '%' ∉ (quoteInside pending value).1 := by
    intro hmem
    rcases of_mem_quoteInside hmem with hmem | hother | hother | hother
    · exact hvalue hmem
    all_goals exact absurd hother (by decide)
  simp [quotation, hslashes, hinside] at h

namespace Reader

/-- Both readers read a quotation as the text in it with the backslashes in front. -/
theorem advance_quotation (pending : Nat) (value : List Char) :
    ∃ found, advance step start (quotation pending value) =
        .ok (.opening :: found, ⟨false, .plain, ⟨.closed, 0⟩⟩) ∧
      MakesUp found (backslashes pending ++ value) := by
  have hopening : step start '"' = .ok ([.opening], ⟨false, .quoted, ⟨.inside, 0⟩⟩) := rfl
  have hslashes (before count : Nat) :
      advance step ⟨false, .quoted, ⟨.inside, before⟩⟩ (backslashes count) =
        .ok ([], ⟨false, .quoted, ⟨.inside, before + count⟩⟩) :=
    advance_backslashes (by decide) (by decide) before count
  have hpending := hslashes 0 pending
  rw [Nat.zero_add] at hpending
  have hinside : Takes .quoted .inside value := .inl ⟨rfl, rfl⟩
  obtain ⟨found, hfound, hgap, htext⟩ := advance_quoteInside hinside pending
  have hclosing (count : Nat) : step ⟨false, .quoted, ⟨.inside, count + count⟩⟩ '"' =
      .ok (Piece.chars (backslashes count) ++ [.closing], ⟨false, .plain, ⟨.closed, 0⟩⟩) := by
    have hshell : ShellMode.step .quoted '"' = .ok (['"'], .plain) := rfl
    have heven : (count + count) % 2 = 0 := by omega
    have hhalf : (count + count) / 2 = count := by omega
    rw [step_passed hshell, Runtime.step_quote_of_even heven, hhalf]
    rfl
  have hbehind := advance_append_of_ok (advance_append_of_ok (advance_append_of_ok hpending hfound)
    (hslashes _ (quoteInside pending value).2)) (advance_singleton (hclosing _))
  refine ⟨_, advance_cons_of_ok hopening hbehind, by simpa using hgap, ?_⟩
  simpa [Piece.text] using htext

end Reader

/-- A quotation reads as the one word in it, and what it holds can be written in parts. -/
theorem split_quotation (directory : Option (List Char)) (home : List Char) (pending : Nat)
    {value : List Char} (hvalue : '%' ∉ value) :
    Dialect.windows.split true ⟨none, directory, home⟩ (quotation pending value) =
        .ok [backslashes pending ++ value] ∧
      ∀ first second, value = first ++ second →
        let before := quoteInside pending first
        let behind := quoteInside before.2 second
        quoteInside pending value = (before.1 ++ behind.1, behind.2) := by
  constructor
  · obtain ⟨found, hfound, hword⟩ := Reader.advance_quotation pending value
    change split true ⟨none, directory, home⟩ (quotation pending value) = _
    rw [split_strict_eq, if_neg (percent_notMem_quotation hvalue pending),
      Reader.received_bind_arguments, hfound]
    change (Except.ok (Piece.words (.opening :: found ++ [])) : Except Refusal _) = _
    rw [List.append_nil, hword.words_opening]
  · rintro first second rfl
    exact quoteInside_append pending first second

/-- The backslash that one part ends with is doubled in front of the quote that the next one begins
with, and so is the one in front of the closing quote. -/
theorem split_quotation_in_parts :
    let first := ['a', '\\']
    let second := ['"', 'b', '\\']
    '%' ∉ first ++ second ∧
      quotation 1 (first ++ second) =
        ['"', '\\', 'a', '\\', '\\', '"', '\\', '^', '"', '"', 'b', '\\', '\\', '"'] ∧
      Dialect.windows.split true ⟨none, none, []⟩ (quotation 1 (first ++ second)) =
        .ok [backslashes 1 ++ (first ++ second)] ∧
      let before := quoteInside 1 first
      let behind := quoteInside before.2 second
      quoteInside 1 (first ++ second) = (before.1 ++ behind.1, behind.2) := by
  intro first second
  have hvalue : '%' ∉ first ++ second := by decide
  obtain ⟨hsplit, hparts⟩ := split_quotation none [] 1 hvalue
  exact ⟨hvalue, rfl, hsplit, hparts first second rfl⟩

end CommandLine.Windows
