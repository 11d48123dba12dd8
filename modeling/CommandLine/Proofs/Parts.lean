import CommandLine.Proofs.Words

/-!
Rows taken apart at a separator. A row is a part without the separator, or such a part in front of
the separator and another row; what is proved along this division holds of every row. So the words
of a row of pieces are its parts between gaps, but for those in which there is nothing.
-/

set_option autoImplicit false

namespace CommandLine

section

variable {α : Type} [DecidableEq α]

/-- Induction along the parts of a row between separators. -/
@[elab_as_elim]
theorem parts_induction (separator : α) {motive : List α → Prop}
    (last : ∀ part, separator ∉ part → motive part)
    (more : ∀ part rest, separator ∉ part → motive rest → motive (part ++ separator :: rest))
    (row : List α) : motive row := by
  induction hlength : row.length using Nat.strongRecOn generalizing row with
  | ind length ih =>
    by_cases hmem : separator ∈ row
    · obtain ⟨part, rest, rfl, hpart⟩ := List.eq_append_cons_of_mem hmem
      have hrest : rest.length < length := by
        rw [← hlength, List.length_append, List.length_cons]
        omega
      exact more part rest hpart (ih rest.length hrest rest rfl)
    · exact last row hmem

/-- The parts of a row between separators in which there is something. -/
def groups (separator : α) (row : List α) : List (List α) :=
  (row.splitOn separator).filter (!·.isEmpty)

theorem groups_of_notMem {separator : α} {part : List α} (hpart : separator ∉ part) :
    groups separator part = if part = [] then [] else [part] := by
  rw [groups, List.splitOn_eq_singleton hpart]
  cases part <;> rfl

theorem groups_append_cons {separator : α} {part : List α} (hpart : separator ∉ part)
    (rest : List α) : groups separator (part ++ separator :: rest) =
      groups separator part ++ groups separator rest := by
  rw [groups, groups, groups, List.splitOn_append_cons_self_of_not_mem hpart,
    List.splitOn_eq_singleton hpart, ← List.filter_append]
  rfl

namespace Piece

/-- Where only the separator of a row spells a gap, and everything else spells something, the words
that the row spells are those of its groups. -/
theorem words_flatMap (separator : α) (spelled : α → List Piece)
    (hseparator : spelled separator = [gap])
    (hother : ∀ item, item ≠ separator → spelled item ≠ [] ∧ gap ∉ spelled item) (row : List α) :
    words (row.flatMap spelled) =
      (groups separator row).map fun group ↦ text (group.flatMap spelled) := by
  have hpart (part : List α) (hpart : separator ∉ part) :
      words (part.flatMap spelled) =
        (groups separator part).map fun group ↦ text (group.flatMap spelled) := by
    rw [groups_of_notMem hpart]
    cases part with
    | nil => rfl
    | cons item rest =>
      have hitem := hother item fun h ↦ hpart (h ▸ List.mem_cons_self)
      have hgap : gap ∉ (item :: rest).flatMap spelled := by
        intro hmem
        obtain ⟨other, hin, hmem⟩ := List.mem_flatMap.mp hmem
        exact (hother other fun h ↦ hpart (h ▸ hin)).2 hmem
      rw [words_of_gap_notMem hgap (by simp [hitem.1]), if_neg (List.cons_ne_nil _ _)]
      rfl
  induction row using parts_induction separator with
  | last part hmem => exact hpart part hmem
  | more part rest hmem ih =>
    rw [List.flatMap_append, List.flatMap_cons, hseparator, List.singleton_append,
      words_append_gap, hpart part hmem, ih, groups_append_cons hmem, List.map_append]

/-- The words of a row of pieces are its groups between gaps. -/
theorem words_eq_groups (pieces : List Piece) :
    words pieces = (groups gap pieces).map text := by
  have hwords := words_flatMap gap (fun piece ↦ [piece]) rfl
    (fun piece h ↦ ⟨by simp, by simpa using h.symm⟩) pieces
  simpa using hwords

end Piece

end

end CommandLine
