import CommandLine.Proofs.Macro.UnixUnquoting
import CommandLine.Proofs.Macro.UnixSteps
import Mathlib.Data.List.Forall2

/-!
Two scans alongside each other. A step looks at three characters, at how far the next macro is, and
at what is open. Where two scans have these in common, what the first one does the second one does
as well: it passes as many characters, puts in its macro, or turns its backquoted command into a
substitution. The contexts of the second scan may lie in others, which the first one does not have.
-/

set_option autoImplicit false

namespace CommandLine.Macro.Unix

/-- If the first step goes on, so does the second one, and the scans are related. -/
def Progress.Carries (relates : Scan → Scan → Prop) (first second : Progress) : Prop :=
  ∀ next, first = .more next → ∃ other, second = .more other ∧ relates next other

namespace Progress.Carries

variable {relates : Scan → Scan → Prop}

theorem more {next other : Scan} (h : relates next other) :
    (Progress.more next).Carries relates (.more other) := by
  intro scan hscan
  cases hscan
  exact ⟨other, rfl, h⟩

theorem failed (failure : Failure) (second : Progress) :
    (Progress.failed failure).Carries relates second := by
  intro scan hscan
  cases hscan

theorem underflow (second : Progress) : Progress.underflow.Carries relates second := by
  intro scan hscan
  cases hscan

theorem done (scan : Scan) (second : Progress) : (Progress.done scan).Carries relates second := by
  intro scan hscan
  cases hscan

/-- A choice that both scans make in the same way. -/
theorem ite {chosen taken : Prop} [Decidable chosen] [Decidable taken]
    {first second other another : Progress} (hiff : chosen ↔ taken)
    (hpos : chosen → first.Carries relates other)
    (hneg : ¬chosen → second.Carries relates another) :
    (if chosen then first else second).Carries relates (if taken then other else another) := by
  by_cases h : chosen
  · rw [if_pos h, if_pos (hiff.mp h)]
    exact hpos h
  · rw [if_neg h, if_neg fun htaken ↦ h (hiff.mpr htaken)]
    exact hneg h

end Progress.Carries

/-- Contexts that lie in others: where nothing is open a command substitution may be. -/
structure Nests (nest : Context → Context) : Prop where
  quoted : ∀ context, (nest context).quoted = context.quoted
  basic : ∀ context, context.construct = .basic →
    (nest context).construct = .basic ∨ (nest context).construct = .commandSubstitution
  other : ∀ context, context.construct ≠ .basic → nest context = context

namespace Nests

variable {nest : Context → Context} (hnest : Nests nest)

theorem refl : Nests id := ⟨fun _ ↦ rfl, fun _ ↦ .inl, fun _ _ ↦ rfl⟩

include hnest

theorem construct_eq_iff {construct : Construct} (hbasic : construct ≠ .basic)
    (hsubstitution : construct ≠ .commandSubstitution) (context : Context) :
    context.construct = construct ↔ (nest context).construct = construct := by
  by_cases h : context.construct = .basic
  · rw [h]
    rcases hnest.basic context h with heq | heq
    · rw [heq]
    · rw [heq]
      exact ⟨fun h ↦ absurd h.symm hbasic, fun h ↦ absurd h.symm hsubstitution⟩
  · rw [hnest.other context h]

theorem enter (context : Context) {construct : Construct} (hconstruct : construct ≠ .basic) :
    (nest context).enter construct = nest (context.enter construct) := by
  rw [hnest.other (context.enter construct) hconstruct, Context.enter, Context.enter,
    hnest.quoted]

theorem inContext (context : Context) :
    Protection.inContext (nest context) = Protection.inContext context := by
  have hsingle : context.construct = .singleQuote ↔ (nest context).construct = .singleQuote :=
    hnest.construct_eq_iff (by decide) (by decide) context
  rw [Protection.inContext, Protection.inContext, hnest.quoted]
  simp only [hsingle]

end Nests

namespace Scan

/-- What is open in the second scan, and its places to go back to, are those of the first one. -/
structure Alongside (relates : Save → Save → Prop) (nest : Context → Context)
    (below : List Context) (first second : Scan) : Prop where
  context : second.context = nest first.context
  stack : second.stack = first.stack.map nest ++ below
  saves : List.Forall₂ relates first.saves second.saves

/-- So is its place. -/
structure Beside (relates : Save → Save → Prop) (nest : Context → Context)
    (below : List Context) (first second : Scan) : Prop
    extends Alongside relates nest below first second where
  place : relates first.place second.place

/-- The second scan has the same ahead as the first one, and can do what the first one does. -/
structure Mirrors (find : Finder) (relates : Save → Save → Prop) (first second : Scan) :
    Prop where
  rest : second.rest.take 3 = first.rest.take 3
  next_eq_none : first.next = none → second.next = none
  next_eq_some : ∀ found, first.next = some found → ∃ other, second.next = some other ∧
    (other.gap = found.gap ∨ 2 ≤ other.gap ∧ 2 ≤ found.gap)
  skip : ∀ count, first.Clears count → relates (first.skip count).place (second.skip count).place
  substitute : ∀ found other, first.next = some found → second.next = some other → found.gap = 0 →
    other.gap = 0 → relates (first.substitute find found).place (second.substitute find other).place
  unquote : ∀ rest next, first.rest = '`' :: rest → first.openBackquote = .more next →
    ∃ other, second.openBackquote = .more other ∧ relates next.place other.place

variable {find : Finder} {relates : Save → Save → Prop} {nest : Context → Context}
  {below : List Context} {first second : Scan}

theorem Mirrors.reaches (h : Mirrors find relates first second) {count : Nat} (hcount : count ≤ 2) :
    first.reaches count = true ↔ second.reaches count = true := by
  unfold Scan.reaches
  cases hfirst : first.next with
  | none => simp [h.next_eq_none hfirst]
  | some found =>
    obtain ⟨other, hother, hgap⟩ := h.next_eq_some found hfirst
    simp only [hother, decide_eq_true_eq]
    omega

/-! ### What a step looks at -/

theorem eq_cons_of_take {first second rest : List Char} {c : Char} (hfirst : first = c :: rest)
    (htake : second.take 3 = first.take 3) : ∃ behind, second = c :: behind := by
  subst hfirst
  cases second with
  | nil => cases htake
  | cons d behind => exact ⟨behind, by rw [(List.cons.inj htake).1]⟩

theorem eq_of_view {rest : List Char} {c d : Char} (h : (rest.take 3).drop 1 = [c, d]) :
    ∃ first behind, rest = first :: c :: d :: behind := by
  rcases rest with _ | ⟨first, _ | ⟨second, _ | ⟨third, behind⟩⟩⟩ <;> simp at h
  obtain ⟨rfl, rfl⟩ := h
  exact ⟨first, behind, rfl⟩

/-- At a dollar sign the scan looks at the two characters behind it. -/
theorem readDollar_eq (scan : Scan) : scan.readDollar =
    if scan.reaches 2 then .failed .afterDollar
    else if (scan.rest.take 3).drop 1 = ['(', '('] then .more scan.openArithmetic
    else if (scan.rest.take 2).drop 1 = ['('] then .more (scan.push 2 .substitution)
    else if (scan.rest.take 2).drop 1 = ['{'] then
      .more (scan.push 2 (scan.context.enter .variableSubstitution))
    else .more (scan.skip 1) := by
  unfold readDollar
  congr 1
  rcases scan.rest with _ | ⟨first, _ | ⟨second, rest⟩⟩
  · rfl
  · rfl
  · by_cases hparenthesis : second = '('
    · subst hparenthesis
      rcases rest with _ | ⟨third, rest⟩
      · rfl
      · by_cases hopener : third = '('
        · subst hopener
          rfl
        · simp [hopener]
    · by_cases hbrace : second = '\x7b'
      · subst hbrace
        rfl
      · simp [hparenthesis, hbrace]

section Steps

variable (hnest : Nests nest) (h : Alongside relates nest below first second)
  (hmirrors : Mirrors find relates first second)

include h hmirrors

theorem carries_skip {count : Nat} (hclears : first.Clears count) :
    (Progress.more (first.skip count)).Carries (Beside relates nest below)
      (.more (second.skip count)) :=
  .more ⟨⟨h.context, h.stack, h.saves⟩, hmirrors.skip count hclears⟩

theorem carries_push {count : Nat} {context other : Context} (hclears : first.Clears count)
    (hcontext : other = nest context) :
    (Progress.more (first.push count context)).Carries (Beside relates nest below)
      (.more (second.push count other)) := by
  refine .more ⟨⟨hcontext, ?_, h.saves⟩, hmirrors.skip count hclears⟩
  simp only [push, h.context, h.stack, List.map_cons, List.cons_append]

theorem carries_pop {count : Nat} (hclears : first.Clears count) :
    (first.pop count).Carries (Beside relates nest below) (second.pop count) := by
  have hstack := h.stack
  unfold pop
  split
  · exact .underflow _
  · rename_i context stack hfirst
    rw [hfirst, List.map_cons, List.cons_append] at hstack
    rw [hstack]
    exact .more ⟨⟨rfl, rfl, h.saves⟩, hmirrors.skip count hclears⟩

theorem carries_closeArithmetic (hclears : first.Clears 2) :
    first.closeArithmetic.Carries (Beside relates nest below) second.closeArithmetic := by
  have hsaves := h.saves
  have hstack := h.stack
  unfold closeArithmetic
  split
  · exact .underflow _
  · rename_i save saves hfirst
    rw [hfirst] at hsaves
    obtain ⟨other, others, -, hothers, hsecond⟩ := List.forall₂_cons_left_iff.mp hsaves
    rw [hsecond]
    unfold pop
    dsimp only
    split
    · exact .underflow _
    · rename_i context stack hfirst
      rw [hfirst, List.map_cons, List.cons_append] at hstack
      rw [hstack]
      exact .more ⟨⟨rfl, rfl, hothers⟩, hmirrors.skip 2 hclears⟩

theorem carries_openBackquote (hsubstitution : nest .substitution = .substitution)
    {rest : List Char} (hrest : first.rest = '`' :: rest) :
    first.openBackquote.Carries (Beside relates nest below) second.openBackquote := by
  intro next hopen
  obtain ⟨other, hother, hplace⟩ := hmirrors.unquote rest next hrest hopen
  obtain ⟨behind, hbehind⟩ := eq_cons_of_take hrest hmirrors.rest
  obtain ⟨hfirst, -⟩ := unquotes_of_openBackquote hrest hopen
  obtain ⟨hsecond, -⟩ := unquotes_of_openBackquote hbehind hother
  refine ⟨other, hother, ⟨?_, ?_, ?_⟩, hplace⟩
  · rw [hfirst.context, hsecond.context, hsubstitution]
  · rw [hfirst.stack, hsecond.stack, h.context, h.stack, List.map_cons, List.cons_append]
  · rw [hfirst.saves, hsecond.saves]
    exact h.saves

include hnest

theorem carries_openArithmetic (hclears : first.Clears 3) :
    (Progress.more first.openArithmetic).Carries (Beside relates nest below)
      (.more second.openArithmetic) := by
  have hplace := hmirrors.skip 3 hclears
  refine .more ⟨⟨?_, ?_, .cons hplace h.saves⟩, hplace⟩
  · have henter : (nest first.context).enter .arithmetic = nest (first.context.enter .arithmetic) :=
      hnest.enter first.context (by decide)
    rw [← h.context] at henter
    exact henter
  · simp only [openArithmetic, push, h.context, h.stack, List.map_cons, List.cons_append]

omit hmirrors in
theorem carries_reopen : first.reopen.Carries (Beside relates nest below) second.reopen := by
  have hsaves := h.saves
  unfold reopen
  split
  · exact .underflow _
  · rename_i save saves hfirst
    rw [hfirst] at hsaves
    obtain ⟨other, others, hplace, hothers, hsecond⟩ := List.forall₂_cons_left_iff.mp hsaves
    rw [hsecond]
    refine .more ⟨⟨(hnest.other .subshell (by decide)).symm, ?_, hothers⟩, hplace⟩
    have hsubstitution := hnest.other .substitution (by decide)
    simp only [h.stack, List.map_cons, List.cons_append, hsubstitution]

theorem carries_readDollar :
    first.readDollar.Carries (Beside relates nest below) second.readDollar := by
  have hfar (hreaches : ¬first.reaches 2 = true) := le_gap_of_not_reaches hreaches
  have hview (count : Nat) (hcount : count ≤ 3) (view : List Char) :
      (first.rest.take count).drop 1 = view ↔ (second.rest.take count).drop 1 = view := by
    have hmin : min count 3 = count := Nat.min_eq_left hcount
    rw [← hmin, ← List.take_take, ← List.take_take, hmirrors.rest]
  rw [readDollar_eq, readDollar_eq]
  refine .ite (hmirrors.reaches (by decide)) (fun _ ↦ .failed _ _) fun hreaches ↦ ?_
  refine .ite (hview 3 (by decide) _) (fun hopener ↦ ?_) fun _ ↦ ?_
  · obtain ⟨c, behind, hrest⟩ := eq_of_view hopener
    exact carries_openArithmetic hnest h hmirrors (clears_opener hrest (hfar hreaches))
  have hclears : first.Clears 2 := clears_of_le_gap (hfar hreaches)
  refine .ite (hview 2 (by decide) _) (fun _ ↦ ?_) fun _ ↦ ?_
  · exact carries_push h hmirrors hclears (hnest.other .substitution (by decide)).symm
  refine .ite (hview 2 (by decide) _) (fun _ ↦ ?_) fun _ ↦ ?_
  · refine carries_push h hmirrors hclears ?_
    rw [h.context]
    exact hnest.enter _ (by decide)
  · refine carries_skip h hmirrors (clears_of_le_gap fun found hfound ↦ ?_)
    have := hfar hreaches found hfound
    omega

theorem carries_readParenthesis (hfar : ∀ found, first.next = some found → 1 ≤ found.gap) :
    first.readParenthesis.Carries (Beside relates nest below) second.readParenthesis := by
  have hclosing : first.rest[1]? = some ')' ↔ second.rest[1]? = some ')' := by
    have hsame (rest : List Char) : rest[1]? = (rest.take 3)[1]? := by simp
    rw [hsame first.rest, hsame second.rest, hmirrors.rest]
  by_cases hbasic : first.context.construct = .basic
  · unfold readParenthesis
    rw [hbasic]
    exact .failed _ _
  have hcontext : second.context = first.context := h.context.trans (hnest.other _ hbasic)
  unfold readParenthesis
  rw [hcontext]
  split
  · refine .ite hclosing (fun h' ↦ ?_) fun _ ↦ carries_reopen hnest h
    exact carries_closeArithmetic h hmirrors (clears_closer h' hfar)
  · exact carries_pop h hmirrors (clears_of_le_gap hfar)
  · exact carries_pop h hmirrors (clears_of_le_gap hfar)
  · exact .failed _ _

theorem carries_readPlain (c : Char) (hfar : ∀ found, first.next = some found → 1 ≤ found.gap) :
    (first.readPlain c).Carries (Beside relates nest below) (second.readPlain c) := by
  have hclears : first.Clears 1 := clears_of_le_gap hfar
  have hbrace : first.context.construct = .brace ↔ second.context.construct = .brace := by
    rw [h.context]
    exact hnest.construct_eq_iff (by decide) (by decide) _
  have henter {construct : Construct} (hconstruct : construct ≠ .basic) :
      second.context.enter construct = nest (first.context.enter construct) := by
    rw [h.context]
    exact hnest.enter _ hconstruct
  refine .ite .rfl (fun _ ↦ carries_readParenthesis hnest h hmirrors hfar) fun _ ↦ ?_
  refine .ite .rfl (fun _ ↦ ?_) fun _ ↦ ?_
  · exact .ite hbrace (fun _ ↦ carries_pop h hmirrors hclears) fun _ ↦ .failed _ _
  refine .ite .rfl (fun _ ↦ carries_push h hmirrors hclears (henter (by decide))) fun _ ↦ ?_
  refine .ite .rfl (fun _ ↦ carries_push h hmirrors hclears (henter (by decide))) fun _ ↦ ?_
  exact carries_skip h hmirrors hclears

theorem carries_read {c : Char} {rest : List Char} (hrest : first.rest = c :: rest)
    (hfar : ∀ found, first.next = some found → 1 ≤ found.gap) :
    (first.read c).Carries (Beside relates nest below) (second.read c) := by
  have hclears : first.Clears 1 := clears_of_le_gap hfar
  have hconstruct {construct : Construct} (hbasic : construct ≠ .basic)
      (hsubstitution : construct ≠ .commandSubstitution) :
      first.context.construct = construct ↔ second.context.construct = construct := by
    rw [h.context]
    exact hnest.construct_eq_iff hbasic hsubstitution _
  have hclosing (closes : Prop) [Decidable closes] :
      (if closes then first.pop 1 else .more (first.skip 1)).Carries (Beside relates nest below)
        (if closes then second.pop 1 else .more (second.skip 1)) :=
    .ite .rfl (fun _ ↦ carries_pop h hmirrors hclears) fun _ ↦ carries_skip h hmirrors hclears
  have hopening {context other : Context} (hcontext : other = nest context) :
      (Progress.more (if first.context.quoted then first.skip 1 else first.push 1 context)).Carries
        (Beside relates nest below)
        (.more (if second.context.quoted then second.skip 1 else second.push 1 other)) := by
    have hquoted : second.context.quoted = first.context.quoted := by
      rw [h.context, hnest.quoted]
    rw [hquoted]
    split
    · exact carries_skip h hmirrors hclears
    · exact carries_push h hmirrors hclears hcontext
  have hescape (hreaches : ¬first.reaches 2 = true) :=
    carries_skip h hmirrors (clears_of_le_gap (le_gap_of_not_reaches hreaches))
  refine .ite (hconstruct (by decide) (by decide)) (fun _ ↦ hclosing _) fun _ ↦ ?_
  refine .ite .rfl (fun _ ↦ ?_) fun _ ↦ ?_
  · exact .ite (hmirrors.reaches (by decide)) (fun _ ↦ .failed _ _) hescape
  refine .ite .rfl (fun _ ↦ carries_readDollar hnest h hmirrors) fun _ ↦ ?_
  refine .ite .rfl (fun hbackquote ↦ ?_) fun _ ↦ ?_
  · have hsubstitution := hnest.other .substitution (by decide)
    exact carries_openBackquote h hmirrors hsubstitution (hbackquote ▸ hrest)
  refine .ite (hconstruct (by decide) (by decide)) (fun _ ↦ hclosing _) fun _ ↦ ?_
  refine .ite .rfl (fun _ ↦ hopening ?_) fun _ ↦ ?_
  · rw [h.context]
    exact hnest.enter _ (by decide)
  refine .ite .rfl (fun _ ↦ hopening (hnest.other _ (by decide)).symm) fun _ ↦ ?_
  refine .ite (hconstruct (by decide) (by decide)) (fun _ ↦ hclosing _) fun _ ↦ ?_
  exact carries_readPlain hnest h hmirrors c hfar

/-- What the first scan does in a step, the second one does as well. -/
theorem carries_step :
    (first.step find).Carries (Beside relates nest below) (second.step find) := by
  have hsaves : first.saves.isEmpty = true ↔ second.saves.isEmpty = true := by
    have hlength := h.saves.length_eq
    rw [List.isEmpty_iff_length_eq_zero, List.isEmpty_iff_length_eq_zero, hlength]
  unfold step
  cases hfirst : first.rest with
  | nil => exact .done _ _
  | cons c rest =>
    obtain ⟨behind, hsecond⟩ := eq_cons_of_take hfirst hmirrors.rest
    rw [hsecond]
    cases hnext : first.next with
    | none =>
      rw [hmirrors.next_eq_none hnext]
      refine .ite hsaves (fun _ ↦ .done _ _) fun _ ↦ ?_
      exact carries_read hnest h hmirrors hfirst (by simp [hnext])
    | some found =>
      obtain ⟨other, hother, hgap⟩ := hmirrors.next_eq_some found hnext
      rw [hother]
      dsimp only
      refine .ite (by omega) (fun hzero ↦ ?_) fun hne ↦ ?_
      · have hplace := hmirrors.substitute found other hnext hother hzero (by omega)
        exact .more ⟨⟨h.context, h.stack, h.saves⟩, hplace⟩
      · refine .ite (by omega) (fun _ ↦ .failed _ _) fun hnonneg ↦ ?_
        refine carries_read hnest h hmirrors hfirst fun next hnext' ↦ ?_
        rw [hnext, Option.some.injEq] at hnext'
        subst hnext'
        omega

end Steps

/-! ### Runs -/

/-- Where every step of the first of two related scans is one of the second scan as well, and the
second scan ends where the first one does, both end alike. -/
theorem exists_run_eq_done {alike : Scan → Scan → Prop}
    (hstep : ∀ first second, alike first second →
      (first.step find).Carries alike (second.step find))
    (hdone : ∀ first second, alike first second → first.step find = .done first →
      second.step find = .done second) {last : Scan} (h : alike first second)
    (hrun : first.run find = .done last) :
    ∃ final, second.run find = .done final ∧ alike last final := by
  fun_induction Scan.run find first generalizing second with
  | case1 first next hmore ih =>
    obtain ⟨other, hother, halike⟩ := hstep first second h next hmore
    obtain ⟨final, hfinal, hlast⟩ := ih halike hrun
    exact ⟨final, (run_of_more hother).trans hfinal, hlast⟩
  | case2 first here hhere =>
    cases hrun
    obtain rfl := eq_of_step_eq_done hhere
    exact ⟨second, run_of_done (hdone first second h hhere), h⟩
  | case3 | case4 => cases hrun

end Scan

end CommandLine.Macro.Unix
