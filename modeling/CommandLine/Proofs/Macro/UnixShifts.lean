import CommandLine.Proofs.Macro.UnixSteps

/-!
What a step of a scan for a POSIX shell does to what is open and to the places to go back to. Every
arithmetic that is open has a place to go back to, and behind such a place there is less left of the
line than at the place: the scan comes to a place again only by going back to it.
-/

set_option autoImplicit false

namespace CommandLine.Macro.Unix.Scan

/-- What a step does to what is open and to the places to go back to. -/
inductive Shifts (scan : Scan) : Scan → Prop
  | kept {next : Scan} (hrest : next.rest.length < scan.rest.length)
    (hcontext : next.context = scan.context) (hstack : next.stack = scan.stack)
    (hsaves : next.saves = scan.saves) : Shifts scan next
  /-- Something other than arithmetic was opened. -/
  | entered {next : Scan} (hrest : next.rest.length < scan.rest.length)
    (hcontext : next.context.construct ≠ .basic ∧ next.context.construct ≠ .arithmetic)
    (hstack : next.stack = scan.context :: scan.stack) (hsaves : next.saves = scan.saves) :
    Shifts scan next
  /-- Something other than arithmetic was closed. -/
  | left {next : Scan} (hrest : next.rest.length < scan.rest.length)
    (hcontext : scan.context.construct ≠ .arithmetic)
    (hstack : scan.stack = next.context :: next.stack) (hsaves : next.saves = scan.saves) :
    Shifts scan next
  | guessed {behind : List Char} (hrest : scan.rest = '$' :: '(' :: '(' :: behind)
    (hcontext : scan.context.construct ≠ .singleQuote) : Shifts scan scan.openArithmetic
  /-- Arithmetic was closed, and with it the place to go back to was given up. -/
  | confirmed {next : Scan} {save : Save} (hrest : next.rest.length < scan.rest.length)
    (hcontext : scan.context.construct = .arithmetic)
    (hstack : scan.stack = next.context :: next.stack) (hsaves : scan.saves = save :: next.saves) :
    Shifts scan next
  /-- Arithmetic was given up, and the scan went back. -/
  | abandoned {save : Save} {saves : List Save} (hcontext : scan.context.construct = .arithmetic)
    (hsaves : scan.saves = save :: saves) :
    Shifts scan ⟨save.finished, save.rest, save.next, .subshell, .substitution :: scan.stack, saves⟩

variable {find : Finder} {scan : Scan}

theorem length_skip (hnil : scan.rest ≠ []) {count : Nat} (hcount : 0 < count) :
    (scan.skip count).rest.length < scan.rest.length := by
  have := List.length_pos_iff.mpr hnil
  rw [skip, List.length_drop]
  omega

theorem shifts_openBackquote {next : Scan} {rest : List Char} (hrest : scan.rest = '`' :: rest)
    (hopen : scan.openBackquote = .more next) : Shifts scan next := by
  have hdrop : scan.rest.drop 1 = rest := by rw [hrest]; rfl
  unfold openBackquote at hopen
  rw [hdrop] at hopen
  split at hopen
  · cases hopen
  · rename_i body after removed hbody
    cases hopen
    have hlength := length_unescaped hbody
    refine .entered ?_ (by simp [Context.substitution]) rfl rfl
    rw [hrest]
    simp only [List.length_append, List.length_cons]
    omega

theorem Turns.shifts {next : Scan} (h : Turns scan next) : Shifts scan next := by
  cases h with
  | @read turn count context stack hclears htoken hopens hcloses hturn =>
    have htake := htoken.ne_nil
    have hnil : scan.rest ≠ [] := by
      intro hnil
      simp [hnil] at htake
    have hcount : 0 < count := Nat.pos_of_ne_zero (by rintro rfl; exact htake rfl)
    have hlength := length_skip hnil hcount
    cases turn with
    | stays =>
      cases hturn
      exact .kept hlength rfl rfl rfl
    | opens inner =>
      cases hturn
      exact .entered hlength ⟨htoken.construct_ne_basic, hopens _ rfl⟩ rfl rfl
    | closes =>
      cases hstack : scan.stack with
      | nil =>
        rw [hstack] at hturn
        cases hturn
      | cons outer around =>
        rw [hstack] at hturn
        cases hturn
        exact .left hlength (hcloses rfl) hstack rfl
  | guessed hcontext hrest => exact .guessed hrest hcontext
  | confirmed hcontext hrest _ hstack hsaves =>
    exact .confirmed (length_skip (by simp [hrest]) (by decide)) hcontext hstack hsaves
  | abandoned hcontext _ _ _ hsaves => exact .abandoned hcontext hsaves
  | unquoted _ hrest _ hopen => exact shifts_openBackquote hrest hopen

theorem shifts_substitute {found : Occurrence} (hnil : scan.rest ≠ []) :
    Shifts scan (scan.substitute find found) := by
  refine .kept ?_ rfl rfl rfl
  have hlength := List.length_pos_iff.mpr hnil
  have hfound := found.length_pos
  simp only [substitute, List.length_drop]
  omega

theorem shifts_step {next : Scan} (hstep : scan.step find = .more next) : Shifts scan next := by
  cases advances_of_step hstep with
  | substituted =>
    refine shifts_substitute fun hnil ↦ ?_
    simp [step, hnil] at hstep
  | turned _ h => exact h.shifts

end CommandLine.Macro.Unix.Scan
