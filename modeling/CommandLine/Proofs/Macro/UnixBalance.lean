import CommandLine.Proofs.Macro.UnixReturns

/-!
What is open in a scan for a POSIX shell. At the bottom nothing is open and above it something
always is, and every arithmetic that is open has its place to go back to. So there is always
something to close where the scan closes it, and a place where it goes back.
-/

set_option autoImplicit false

namespace CommandLine.Macro.Unix

/-- A row of contexts, from the inside out: nothing is open in the outermost one, and something is
in all others. -/
inductive Rooted : List Context → Prop
  | outermost : Rooted [.basic]
  | inside {context : Context} {around : List Context} (hcontext : context.construct ≠ .basic)
    (haround : Rooted around) : Rooted (context :: around)

theorem Rooted.stack_eq_nil_iff {context : Context} {stack : List Context}
    (h : Rooted (context :: stack)) : stack = [] ↔ context.construct = .basic := by
  cases h with
  | outermost => simp [Context.basic]
  | inside hcontext haround =>
    have hnil : stack ≠ [] := by
      rintro rfl
      cases haround
    simp [hnil, hcontext]

/-- What is left open when a construct is closed. -/
theorem Rooted.around {context : Context} {around : List Context}
    (h : Rooted (context :: around)) (hnil : around ≠ []) : Rooted around := by
  cases h with
  | outermost => exact absurd rfl hnil
  | inside _ haround => exact haround

open Scan (arithmetics arithmetics_cons_of_eq arithmetics_cons_of_ne)

/-- A row of contexts and the number of places that are kept to go back to. -/
structure Balance (contexts : List Context) (kept : Nat) : Prop where
  rooted : Rooted contexts
  count : arithmetics contexts = kept

namespace Balance

variable {context : Context} {contexts : List Context} {kept : Nat}

theorem outermost : Balance [.basic] 0 := ⟨.outermost, rfl⟩

/-- Something other than arithmetic is opened. -/
theorem enter (h : Balance contexts kept)
    (hcontext : context.construct ≠ .basic ∧ context.construct ≠ .arithmetic) :
    Balance (context :: contexts) kept :=
  ⟨.inside hcontext.1 h.rooted, (arithmetics_cons_of_ne hcontext.2 contexts).trans h.count⟩

/-- Arithmetic is opened. -/
theorem guess (h : Balance contexts kept) (hcontext : context.construct = .arithmetic) :
    Balance (context :: contexts) (kept + 1) := by
  refine ⟨.inside (by simp [hcontext]) h.rooted, ?_⟩
  rw [arithmetics_cons_of_eq hcontext, h.count]

theorem ne_nil (h : Balance (context :: contexts) kept) (hcontext : context.construct ≠ .basic) :
    contexts ≠ [] := fun hnil ↦ hcontext (h.rooted.stack_eq_nil_iff.mp hnil)

/-- Something other than arithmetic is closed. -/
theorem leave (h : Balance (context :: contexts) kept) (hnil : contexts ≠ [])
    (hcontext : context.construct ≠ .arithmetic) : Balance contexts kept :=
  ⟨h.rooted.around hnil, (arithmetics_cons_of_ne hcontext contexts).symm.trans h.count⟩

/-- Arithmetic is closed. -/
theorem confirm (h : Balance (context :: contexts) (kept + 1))
    (hcontext : context.construct = .arithmetic) : Balance contexts kept := by
  refine ⟨h.rooted.around (h.ne_nil (by simp [hcontext])), ?_⟩
  have hcount := h.count
  rw [arithmetics_cons_of_eq hcontext] at hcount
  exact Nat.succ.inj hcount

/-- Arithmetic is given up: a substitution and a parenthesis take its place. -/
theorem abandon (h : Balance (context :: contexts) (kept + 1))
    (hcontext : context.construct = .arithmetic) :
    Balance (.subshell :: .substitution :: contexts) kept :=
  ((h.confirm hcontext).enter (by simp [Context.substitution])).enter (by simp [Context.subshell])

theorem ne_zero (h : Balance (context :: contexts) kept)
    (hcontext : context.construct = .arithmetic) : kept ≠ 0 := by
  rw [← h.count, arithmetics_cons_of_eq hcontext]
  exact Nat.succ_ne_zero _

end Balance

namespace Scan

/-- What is open in a scan, and the places that it has kept. -/
structure Balanced (scan : Scan) : Prop where
  contexts : Rooted (scan.context :: scan.stack)
  saves : arithmetics (scan.context :: scan.stack) = scan.saves.length

variable {find : Finder} {scan : Scan}

theorem balanced_iff :
    Balanced scan ↔ Balance (scan.context :: scan.stack) scan.saves.length :=
  ⟨fun h ↦ ⟨h.contexts, h.saves⟩, fun h ↦ ⟨h.rooted, h.count⟩⟩

theorem balanced_start (text : List Char) (found : Occurrence) : Balanced (start text found) :=
  ⟨.outermost, rfl⟩

theorem Balanced.stack_ne_nil (h : Balanced scan) (hcontext : scan.context.construct ≠ .basic) :
    scan.stack ≠ [] := (balanced_iff.mp h).ne_nil hcontext

theorem Balanced.saves_ne_nil (h : Balanced scan)
    (hcontext : scan.context.construct = .arithmetic) : scan.saves ≠ [] :=
  List.length_pos_iff.mp (Nat.pos_of_ne_zero ((balanced_iff.mp h).ne_zero hcontext))

/-! ### Every step keeps the balance -/

theorem Balanced.shifts {next : Scan} (h : Balanced scan) (hshifts : Shifts scan next) :
    Balanced next := by
  rw [balanced_iff] at h ⊢
  cases hshifts with
  | kept _ hcontext hstack hkept =>
    rw [hcontext, hstack, hkept]
    exact h
  | entered _ hcontext hstack hkept =>
    rw [hstack, hkept]
    exact h.enter hcontext
  | left _ hcontext hstack hkept =>
    rw [hstack] at h
    rw [hkept]
    exact h.leave (List.cons_ne_nil _ _) hcontext
  | guessed => exact h.guess rfl
  | confirmed _ hcontext hstack hkept =>
    rw [hstack, hkept] at h
    exact h.confirm hcontext
  | abandoned hcontext hkept =>
    rw [hkept] at h
    exact h.abandon hcontext

theorem Balanced.step {next : Scan} (h : Balanced scan) (hstep : scan.step find = .more next) :
    Balanced next := h.shifts (shifts_step hstep)

theorem Balanced.after {count : Nat} {last : Scan} (h : Balanced scan)
    (hafter : after find count scan = some last) : Balanced last :=
  of_after (fun _ _ ↦ Balanced.step) hafter h

/-! ### Nothing is taken from an empty stack -/

theorem ite_ne_underflow {chosen : Prop} [Decidable chosen] {first second : Progress}
    (hpos : chosen → first ≠ .underflow) (hneg : ¬chosen → second ≠ .underflow) :
    (if chosen then first else second) ≠ .underflow :=
  iteInduction (motive := (· ≠ Progress.underflow)) hpos hneg

theorem pop_ne_underflow (count : Nat) (hstack : scan.stack ≠ []) :
    scan.pop count ≠ .underflow := by
  unfold pop
  split
  · contradiction
  · simp

theorem openBackquote_ne_underflow : scan.openBackquote ≠ .underflow := by
  unfold openBackquote
  split <;> simp

theorem readDollar_ne_underflow : scan.readDollar ≠ .underflow := by
  unfold readDollar
  refine ite_ne_underflow (fun _ ↦ by simp) fun _ ↦ ?_
  split <;> simp

namespace Balanced

variable (h : Balanced scan)

include h

theorem closeArithmetic_ne_underflow (hcontext : scan.context.construct = .arithmetic) :
    scan.closeArithmetic ≠ .underflow := by
  unfold closeArithmetic
  split
  · exact absurd ‹_› (h.saves_ne_nil hcontext)
  · exact pop_ne_underflow 2 (h.stack_ne_nil (by simp [hcontext]))

theorem reopen_ne_underflow (hcontext : scan.context.construct = .arithmetic) :
    scan.reopen ≠ .underflow := by
  unfold reopen
  split
  · exact absurd ‹_› (h.saves_ne_nil hcontext)
  · simp

theorem readParenthesis_ne_underflow : scan.readParenthesis ≠ .underflow := by
  unfold readParenthesis
  split
  · rename_i hcontext
    exact ite_ne_underflow (fun _ ↦ h.closeArithmetic_ne_underflow hcontext)
      fun _ ↦ h.reopen_ne_underflow hcontext
  · rename_i hcontext
    exact pop_ne_underflow 1 (h.stack_ne_nil (by simp [hcontext]))
  · rename_i hcontext
    exact pop_ne_underflow 1 (h.stack_ne_nil (by simp [hcontext]))
  · simp

theorem readPlain_ne_underflow (c : Char) : scan.readPlain c ≠ .underflow := by
  refine ite_ne_underflow (fun _ ↦ h.readParenthesis_ne_underflow) fun _ ↦ ?_
  refine ite_ne_underflow (fun _ ↦ ?_) fun _ ↦ ?_
  · refine ite_ne_underflow (fun hbrace ↦ ?_) fun _ ↦ by simp
    exact pop_ne_underflow 1 (h.stack_ne_nil (by simp [hbrace]))
  refine ite_ne_underflow (fun _ ↦ by simp) fun _ ↦ ?_
  exact ite_ne_underflow (fun _ ↦ by simp) fun _ ↦ by simp

theorem read_ne_underflow (c : Char) : scan.read c ≠ .underflow := by
  have hclosing {construct : Construct} (hconstruct : scan.context.construct = construct)
      (hne : construct ≠ .basic) (closes : Prop) [Decidable closes] :
      (if closes then scan.pop 1 else .more (scan.skip 1)) ≠ .underflow :=
    ite_ne_underflow (fun _ ↦ pop_ne_underflow 1 (h.stack_ne_nil (hconstruct ▸ hne)))
      fun _ ↦ by simp
  refine ite_ne_underflow (fun hsingle ↦ hclosing hsingle (by decide) _) fun _ ↦ ?_
  refine ite_ne_underflow (fun _ ↦ ite_ne_underflow (fun _ ↦ by simp) fun _ ↦ by simp) fun _ ↦ ?_
  refine ite_ne_underflow (fun _ ↦ readDollar_ne_underflow) fun _ ↦ ?_
  refine ite_ne_underflow (fun _ ↦ openBackquote_ne_underflow) fun _ ↦ ?_
  refine ite_ne_underflow (fun hdouble ↦ hclosing hdouble (by decide) _) fun _ ↦ ?_
  refine ite_ne_underflow (fun _ ↦ by simp) fun _ ↦ ?_
  refine ite_ne_underflow (fun _ ↦ by simp) fun _ ↦ ?_
  exact ite_ne_underflow (fun hvariable ↦ hclosing hvariable (by decide) _)
    fun _ ↦ h.readPlain_ne_underflow c

theorem step_ne_underflow (find : Finder) : scan.step find ≠ .underflow := by
  unfold Scan.step
  split
  · simp
  · split
    · exact ite_ne_underflow (fun _ ↦ by simp) fun _ ↦ h.read_ne_underflow _
    · refine ite_ne_underflow (fun _ ↦ by simp) fun _ ↦ ?_
      exact ite_ne_underflow (fun _ ↦ by simp) fun _ ↦ h.read_ne_underflow _

end Balanced

end Scan

end CommandLine.Macro.Unix
