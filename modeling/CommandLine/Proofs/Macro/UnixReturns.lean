import CommandLine.Proofs.Macro.UnixShifts

/-!
Scans that go back. A scan comes back to the place behind a `$((` only when it gives up the
arithmetic that it opened there. What is open is not kept with the place; but by then everything
that was opened inside has been closed or given up, so that a substitution and a parenthesis take
the place of the arithmetic and everything further out is as it was.
-/

set_option autoImplicit false

namespace CommandLine.Macro.Unix.Scan

/-- Where a scan has come to after some steps, if it goes on for as many. -/
def after (find : Finder) : Nat → Scan → Option Scan
  | 0, scan => some scan
  | count + 1, scan =>
    match scan.step find with
    | .more next => after find count next
    | _ => none

variable {find : Finder}

theorem after_of_step {scan next : Scan} (hstep : scan.step find = .more next) (count : Nat) :
    after find (count + 1) scan = after find count next := by
  rw [after, hstep]

theorem exists_of_after_succ {count : Nat} {scan last : Scan}
    (h : after find (count + 1) scan = some last) :
    ∃ next, scan.step find = .more next ∧ after find count next = some last := by
  rw [after] at h
  split at h
  · rename_i next hstep
    exact ⟨next, hstep, h⟩
  · cases h

/-- What every step preserves holds after some steps. -/
theorem of_after {holds : Scan → Prop}
    (hholds : ∀ scan next, holds scan → scan.step find = .more next → holds next) {count : Nat}
    {scan last : Scan} (h : after find count scan = some last) (hscan : holds scan) :
    holds last := by
  induction count generalizing scan with
  | zero =>
    obtain rfl : scan = last := by simpa [after] using h
    exact hscan
  | succ count ih =>
    obtain ⟨next, hstep, hnext⟩ := exists_of_after_succ h
    exact ih hnext (hholds scan next hscan hstep)

theorem exists_last_step {count : Nat} {scan last : Scan}
    (h : after find (count + 1) scan = some last) :
    ∃ previous, after find count scan = some previous ∧ previous.step find = .more last := by
  induction count generalizing scan with
  | zero =>
    obtain ⟨next, hstep, hnext⟩ := exists_of_after_succ h
    obtain rfl : next = last := by simpa [after] using hnext
    exact ⟨scan, rfl, hstep⟩
  | succ count ih =>
    obtain ⟨next, hstep, hnext⟩ := exists_of_after_succ h
    obtain ⟨previous, hprevious, hlast⟩ := ih hnext
    exact ⟨previous, (after_of_step hstep count).trans hprevious, hlast⟩

theorem run_of_after {count : Nat} {scan last : Scan} (h : after find count scan = some last) :
    scan.run find = last.run find := by
  have hholds (here next : Scan) (hhere : scan.run find = here.run find)
      (hstep : here.step find = .more next) : scan.run find = next.run find := by
    rw [hhere, run_of_more hstep]
  exact of_after hholds h rfl

/-! ### What is open inside -/

/-- The number of contexts that are arithmetic. -/
def arithmetics (contexts : List Context) : Nat :=
  contexts.countP fun context ↦ context.construct == .arithmetic

theorem arithmetics_cons_of_eq {context : Context} (h : context.construct = .arithmetic)
    (contexts : List Context) : arithmetics (context :: contexts) = arithmetics contexts + 1 := by
  simp [arithmetics, h]

theorem arithmetics_cons_of_ne {context : Context} (h : context.construct ≠ .arithmetic)
    (contexts : List Context) : arithmetics (context :: contexts) = arithmetics contexts := by
  simp [arithmetics, h]

/-- Where one more arithmetic is open there is one more place. -/
theorem exists_cons_of_arithmetics {context : Context} {above : List Context} {newer : List Save}
    (hcount : arithmetics (context :: above) = newer.length)
    (hcontext : context.construct = .arithmetic) :
    ∃ save others, newer = save :: others ∧ arithmetics above = others.length := by
  rw [arithmetics_cons_of_eq hcontext] at hcount
  cases newer with
  | nil => cases hcount
  | cons save others => exact ⟨save, others, rfl, Nat.succ.inj hcount⟩

/-- A scan that has opened arithmetic, for the first time, is inside of it or has left it. Inside of
it every other arithmetic that is open has a place further on to go back to. -/
inductive Within (opened scan : Scan) : Prop
  | inside (above : List Context) (newer : List Save)
    (hcontexts : scan.context :: scan.stack = above ++ opened.context :: opened.stack)
    (hsaves : scan.saves = newer ++ [opened.place])
    (hcount : arithmetics above = newer.length)
    (hnewer : ∀ save ∈ newer, save.rest.length < opened.rest.length)
    (hrest : scan.rest.length ≤ opened.rest.length)
  | left (hsaves : ∀ save ∈ scan.saves, save.rest.length < opened.rest.length)
    (hrest : scan.rest.length ≤ opened.rest.length)

theorem length_openArithmetic_lt {scan : Scan} {behind : List Char}
    (hrest : scan.rest = '$' :: '(' :: '(' :: behind) :
    scan.openArithmetic.rest.length < scan.rest.length :=
  length_skip (by simp [hrest]) (by decide)

namespace Within

variable {opened scan next : Scan} (harithmetic : opened.context.construct = .arithmetic)

/-- Once the arithmetic has been left, the scan stays behind its beginning. -/
theorem step_left (hsaves : ∀ save ∈ scan.saves, save.rest.length < opened.rest.length)
    (hrest : scan.rest.length ≤ opened.rest.length) (hshifts : Shifts scan next) :
    (∀ save ∈ next.saves, save.rest.length < opened.rest.length) ∧
      next.rest.length < opened.rest.length := by
  cases hshifts with
  | kept hlt _ _ heq | entered hlt _ _ heq | left hlt _ _ heq =>
    exact ⟨fun save hsave ↦ hsaves save (heq ▸ hsave), Nat.lt_of_lt_of_le hlt hrest⟩
  | guessed hopener =>
    have hlt := Nat.lt_of_lt_of_le (length_openArithmetic_lt hopener) hrest
    refine ⟨fun save hsave ↦ ?_, hlt⟩
    rcases List.mem_cons.mp hsave with rfl | hold
    · exact hlt
    · exact hsaves save hold
  | confirmed hlt _ _ heq =>
    refine ⟨fun save hsave ↦ hsaves save ?_, Nat.lt_of_lt_of_le hlt hrest⟩
    rw [heq]
    exact List.mem_cons_of_mem _ hsave
  | abandoned _ heq =>
    rw [heq] at hsaves
    exact ⟨fun save hsave ↦ hsaves save (List.mem_cons_of_mem _ hsave),
      hsaves _ List.mem_cons_self⟩

include harithmetic

theorem step_inside {above : List Context} {newer : List Save}
    (hcontexts : scan.context :: scan.stack = above ++ opened.context :: opened.stack)
    (hsaves : scan.saves = newer ++ [opened.place])
    (hcount : arithmetics above = newer.length)
    (hnewer : ∀ save ∈ newer, save.rest.length < opened.rest.length)
    (hrest : scan.rest.length ≤ opened.rest.length) (hshifts : Shifts scan next) :
    Within opened next := by
  cases hshifts with
  | kept hlt hcontext hstack heq =>
    refine .inside above newer ?_ (heq.trans hsaves) hcount hnewer (by omega)
    rw [hcontext, hstack, hcontexts]
  | entered hlt hcontext hstack heq =>
    refine .inside (next.context :: above) newer ?_ (heq.trans hsaves) ?_ hnewer (by omega)
    · rw [hstack, hcontexts, List.cons_append]
    · rw [arithmetics_cons_of_ne hcontext.2, hcount]
  | left hlt hcontext hstack heq =>
    cases above with
    | nil =>
      -- the arithmetic itself is not left in this way
      obtain ⟨hsame, -⟩ := List.cons.inj hcontexts
      exact absurd (hsame ▸ harithmetic) hcontext
    | cons context above =>
      obtain ⟨rfl, hrow⟩ := List.cons.inj hcontexts
      rw [arithmetics_cons_of_ne hcontext] at hcount
      exact .inside above newer (hstack.symm.trans hrow) (heq.trans hsaves) hcount hnewer (by omega)
  | guessed hopener =>
    have hlt := length_openArithmetic_lt hopener
    refine .inside (scan.openArithmetic.context :: above) (scan.openArithmetic.place :: newer)
      ?_ ?_ ?_ ?_ (by omega)
    · rw [List.cons_append, ← hcontexts]
      rfl
    · rw [List.cons_append, ← hsaves]
      rfl
    · rw [arithmetics_cons_of_eq rfl, hcount, List.length_cons]
    · intro save hsave
      rcases List.mem_cons.mp hsave with rfl | hold
      · exact Nat.lt_of_lt_of_le hlt hrest
      · exact hnewer save hold
  | confirmed hlt hcontext hstack heq =>
    cases above with
    | nil =>
      obtain rfl := List.length_eq_zero_iff.mp hcount.symm
      obtain ⟨-, hnil⟩ := List.cons.inj (heq.symm.trans hsaves)
      exact .left (by simp [hnil]) (by omega)
    | cons context above =>
      obtain ⟨rfl, hrow⟩ := List.cons.inj hcontexts
      obtain ⟨save, others, rfl, habove⟩ := exists_cons_of_arithmetics hcount hcontext
      obtain ⟨-, hsaves⟩ := List.cons.inj (heq.symm.trans hsaves)
      exact .inside above others (hstack.symm.trans hrow) hsaves habove
        (fun other hother ↦ hnewer other (List.mem_cons_of_mem _ hother)) (by omega)
  | @abandoned save saves hcontext heq =>
    cases above with
    | nil =>
      obtain rfl := List.length_eq_zero_iff.mp hcount.symm
      obtain ⟨rfl, rfl⟩ := List.cons.inj (heq.symm.trans hsaves)
      exact .left (fun save hsave ↦ by cases hsave) (Nat.le_refl _)
    | cons context above =>
      obtain ⟨rfl, hrow⟩ := List.cons.inj hcontexts
      obtain ⟨kept, others, rfl, habove⟩ := exists_cons_of_arithmetics hcount hcontext
      obtain ⟨rfl, hnext⟩ := List.cons.inj (heq.symm.trans hsaves)
      refine .inside (.subshell :: .substitution :: above) others ?_ hnext ?_
        (fun other hother ↦ hnewer other (List.mem_cons_of_mem _ hother))
        (Nat.le_of_lt (hnewer _ List.mem_cons_self))
      · exact congrArg (fun row ↦ Context.subshell :: .substitution :: row) hrow
      · rw [arithmetics_cons_of_ne (by decide), arithmetics_cons_of_ne (by decide), habove]

theorem step (h : Within opened scan) (hstep : scan.step find = .more next) :
    Within opened next := by
  cases h with
  | inside above newer hcontexts hsaves hcount hnewer hrest =>
    exact step_inside harithmetic hcontexts hsaves hcount hnewer hrest (shifts_step hstep)
  | left hsaves hrest =>
    obtain ⟨hnext, hlt⟩ := step_left hsaves hrest (shifts_step hstep)
    exact .left hnext (Nat.le_of_lt hlt)

omit harithmetic in
/-- The scan that comes back to the place has given the arithmetic up. -/
theorem eq_of_place_eq (h : Within opened scan) (hstep : scan.step find = .more next)
    (hplace : next.place = opened.place) :
    next = ⟨opened.finished, opened.rest, opened.next, .subshell, .substitution :: opened.stack,
      []⟩ := by
  have hlength : next.rest.length = opened.rest.length :=
    congrArg (fun save : Save ↦ save.rest.length) hplace
  have hshifts := shifts_step hstep
  cases h with
  | left hsaves hrest =>
    obtain ⟨-, hlt⟩ := step_left hsaves hrest hshifts
    omega
  | inside above newer hcontexts hsaves hcount hnewer hrest =>
    cases hshifts with
    | kept hlt | entered hlt | left hlt | confirmed hlt => omega
    | guessed hopener =>
      have hlt := length_openArithmetic_lt hopener
      omega
    | @abandoned save saves hcontext heq =>
      cases newer with
      | cons other newer =>
        obtain ⟨rfl, -⟩ := List.cons.inj (heq.symm.trans hsaves)
        have hlt := hnewer _ List.mem_cons_self
        dsimp only at hlength
        omega
      | nil =>
        obtain ⟨rfl, rfl⟩ := List.cons.inj (heq.symm.trans hsaves)
        cases above with
        | nil =>
          obtain ⟨-, hstack⟩ := List.cons.inj hcontexts
          rw [hstack]
          rfl
        | cons context above =>
          obtain ⟨rfl, -⟩ := List.cons.inj hcontexts
          obtain ⟨kept, others, hkept, -⟩ := exists_cons_of_arithmetics hcount hcontext
          cases hkept

end Within

/-- When a scan that opened arithmetic for the first time comes back behind the `$((`, a
substitution and a parenthesis are open in place of the arithmetic. -/
theorem eq_of_after_openArithmetic {opening returned : Scan} {count : Nat}
    (hsaves : opening.saves = [])
    (hafter : after find (count + 1) opening.openArithmetic = some returned)
    (hplace : returned.place = opening.openArithmetic.place) :
    returned = ⟨opening.openArithmetic.finished, opening.openArithmetic.rest,
      opening.openArithmetic.next, .subshell, .substitution :: opening.context :: opening.stack,
      []⟩ := by
  have harithmetic : opening.openArithmetic.context.construct = .arithmetic := rfl
  have hstart : Within opening.openArithmetic opening.openArithmetic := by
    refine .inside [] [] rfl ?_ rfl (by simp) (Nat.le_refl _)
    simp only [openArithmetic, hsaves, List.nil_append]
    rfl
  obtain ⟨closing, hclosing, hstep⟩ := exists_last_step hafter
  have hwithin := of_after (fun _ _ ↦ Within.step harithmetic) hclosing hstart
  exact hwithin.eq_of_place_eq hstep hplace

end CommandLine.Macro.Unix.Scan
