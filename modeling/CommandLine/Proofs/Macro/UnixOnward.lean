import CommandLine.Proofs.Macro.UnixAlongside

/-!
Two scans with the same ahead. Whatever they have finished, and whatever the contexts of the second
one lie in, they finish the same from there on and end alike.
-/

set_option autoImplicit false

namespace CommandLine.Macro.Unix.Scan

/-- Places with the same ahead, in front of which the same has been finished since two others. -/
structure Onward (base other : List Fragment) (first second : Save) : Prop where
  finished : ∃ newer, first.finished = newer ++ base ∧ second.finished = newer ++ other
  rest : second.rest = first.rest
  next : second.next = first.next

variable {macros : Macros} {base other : List Fragment} {nest : Context → Context}
  {below : List Context} {first second : Scan}

namespace Onward

variable (h : Onward base other first.place second.place)

include h

theorem exists_newer : ∃ newer, first.finished = newer ++ base ∧ second.finished = newer ++ other ∧
    second.rest = first.rest ∧ second.next = first.next := by
  obtain ⟨⟨newer, hfirst, hsecond⟩, hrest, hnext⟩ := h
  exact ⟨newer, hfirst, hsecond, hrest, hnext⟩

theorem skip (count : Nat) :
    Onward base other (first.skip count).place (second.skip count).place := by
  obtain ⟨newer, hfirst, hsecond, hrest, hnext⟩ := h.exists_newer
  refine ⟨⟨(first.rest.take count).reverse.map .literal ++ newer, ?_, ?_⟩, ?_, ?_⟩
  · simp only [place, Scan.skip, hfirst, List.append_assoc]
  · simp only [place, Scan.skip, hsecond, hrest, List.append_assoc]
  · simp only [place, Scan.skip, hrest]
  · simp only [place, Scan.skip, hnext]

variable (hnest : Nests nest) (hcontext : second.context = nest first.context)

include hnest hcontext

theorem substitute (found : Occurrence) :
    Onward base other (first.substitute macros.finder found).place
      (second.substitute macros.finder found).place := by
  obtain ⟨newer, hfirst, hsecond, hrest, -⟩ := h.exists_newer
  have hprotection := hnest.inContext first.context
  refine ⟨⟨.inserted (.inContext first.context) found.value :: newer, ?_, ?_⟩, ?_, ?_⟩
  · simp only [place, Scan.substitute, hfirst, List.cons_append]
  · simp only [place, Scan.substitute, hsecond, hcontext, hprotection, List.cons_append]
  · simp only [place, Scan.substitute, hrest]
  · simp only [place, Scan.substitute, Macros.finder, hrest]

theorem unquote {next : Scan} (hopen : first.openBackquote = .more next) :
    ∃ another, second.openBackquote = .more another ∧
      Onward base other next.place another.place := by
  obtain ⟨newer, hfirst, hsecond, hrest, hnext⟩ := h.exists_newer
  unfold openBackquote at hopen ⊢
  rw [hcontext, hnest.quoted, hrest]
  split at hopen
  · cases hopen
  · rename_i body after removed hbody
    cases hopen
    refine ⟨_, rfl, ⟨[.literal ' ', .literal '(', .literal '$'] ++ newer, ?_, ?_⟩, rfl, ?_⟩
    · simp only [place, hfirst, List.append_assoc]
    · simp only [place, hsecond, List.append_assoc]
    · simp only [place, hnext]

theorem mirrors : Mirrors macros.finder (Onward base other) first second := by
  obtain ⟨-, -, -, hrest, hnext⟩ := h.exists_newer
  refine ⟨by rw [hrest], fun hnone ↦ hnext.trans hnone, fun found hfound ↦ ?_,
    fun count _ ↦ h.skip count, fun found another hfound hanother _ _ ↦ ?_,
    fun _ _ _ ↦ h.unquote hnest hcontext⟩
  · exact ⟨found, hnext.trans hfound, .inl rfl⟩
  · obtain rfl : found = another := by
      rwa [hnext, hfound, Option.some.injEq] at hanother
    exact h.substitute hnest hcontext found

end Onward

theorem done_onward (h : Beside (Onward base other) nest below first second)
    (hdone : first.step macros.finder = .done first) :
    second.step macros.finder = .done second := by
  have hrest : second.rest = first.rest := h.place.rest
  have hnext : second.next = first.next := h.place.next
  rw [step_eq_done_iff, hrest, hnext]
  rcases step_eq_done_iff.mp hdone with hnil | ⟨hnone, hsaves⟩
  · exact .inl hnil
  · have hboth := h.saves
    rw [hsaves] at hboth
    exact .inr ⟨hnone, List.forall₂_nil_left_iff.mp hboth⟩

/-- Scans with the same ahead end alike. -/
theorem exists_run_onward (hnest : Nests nest)
    (h : Beside (Onward base other) nest below first second) {last : Scan}
    (hrun : first.run macros.finder = .done last) :
    ∃ final, second.run macros.finder = .done final ∧
      Onward base other last.place final.place := by
  have hstep (first second : Scan) (h : Beside (Onward base other) nest below first second) :
      (first.step macros.finder).Carries (Beside (Onward base other) nest below)
        (second.step macros.finder) :=
    carries_step hnest h.toAlongside (h.place.mirrors hnest h.context)
  obtain ⟨final, hfinal, hlast⟩ := exists_run_eq_done hstep (fun _ _ ↦ done_onward) h hrun
  exact ⟨final, hfinal, hlast.place⟩

end CommandLine.Macro.Unix.Scan
