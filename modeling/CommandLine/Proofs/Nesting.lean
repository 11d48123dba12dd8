import CommandLine.Proofs.Cursor.Stopping
import Mathlib.Logic.Relation

/-!
What is open in the scans for a POSIX shell, step by step. Both the scan that puts in macros and the
search of a cursor keep the contexts that are open in one stack and the places to go back to in
another. At every step that they come to, the innermost construct is none exactly if the first stack
is empty, and the second one has a place for each arithmetic that is open, also after the scan has
gone back to one of them. So no step takes anything from an empty stack.

A closing parenthesis that closes nothing ends both. The search of a cursor never opens a group in
braces, and is then outside of everything. The scan that puts in macros may be in such a group,
which a parenthesis does not close.
-/

set_option autoImplicit false

namespace CommandLine

open Relation (ReflTransGen)
open Macro (Finder Occurrence)
open Macro.Unix (Balance)
open Macro.Unix.Scan (arithmetics)

/-- Neither a quotation nor a variable substitution: a closing parenthesis counts. -/
structure Construct.Plain (construct : Construct) : Prop where
  singleQuote : construct ≠ .singleQuote
  doubleQuote : construct ≠ .doubleQuote
  substitution : construct ≠ .variableSubstitution

/-- Where a closing parenthesis counts but closes nothing. -/
theorem Construct.Plain.eq_basic_or_brace {construct : Construct} (h : construct.Plain)
    (harithmetic : construct ≠ .arithmetic) (hparenthesis : construct ≠ .parenthesis)
    (hcommand : construct ≠ .commandSubstitution) : construct = .basic ∨ construct = .brace := by
  obtain ⟨hsingle, hdouble, hvariable⟩ := h
  cases construct <;> simp_all

/-- What is open, from the inside out, and how many places are kept to go back to. -/
structure Nested (context : Context) (stack : List Context) (kept : Nat) : Prop where
  basic_iff : context.construct = .basic ↔ stack = []
  arithmetics : arithmetics (context :: stack) = kept

theorem Macro.Unix.Balance.nested {context : Context} {stack : List Context} {kept : Nat}
    (h : Balance (context :: stack) kept) : Nested context stack kept :=
  ⟨h.rooted.stack_eq_nil_iff.symm, h.count⟩

/-! ### The scan that puts in macros -/

namespace Macro.Unix

/-- A step refuses a closing parenthesis only where nothing is open or a group in braces is. -/
def Progress.RefusesIn (context : Context) (progress : Progress) : Prop :=
  ∀ offset, progress = .failed (.unbalanced ')' offset) →
    context.construct = .basic ∨ context.construct = .brace

theorem Progress.RefusesIn.ite {context : Context} {chosen : Prop} [Decidable chosen]
    {first second : Progress} (hpos : chosen → first.RefusesIn context)
    (hneg : ¬chosen → second.RefusesIn context) :
    (if chosen then first else second).RefusesIn context :=
  iteInduction (motive := RefusesIn context) hpos hneg

theorem Progress.refusesIn_more (context : Context) (scan : Scan) :
    (Progress.more scan).RefusesIn context := by
  intro offset h
  cases h

theorem Progress.refusesIn_failed (context : Context) {failure : Failure}
    (hfailure : ∀ offset, failure ≠ .unbalanced ')' offset) :
    (Progress.failed failure).RefusesIn context := by
  intro offset h
  cases h
  exact absurd rfl (hfailure offset)

namespace Scan

open Progress (refusesIn_more refusesIn_failed)

variable {find : Finder} {scan : Scan} {context : Context}

theorem refusesIn_pop (count : Nat) : (scan.pop count).RefusesIn context := by
  intro offset h
  unfold pop at h
  split at h <;> cases h

theorem refusesIn_closeArithmetic : scan.closeArithmetic.RefusesIn context := by
  unfold closeArithmetic
  split
  · intro offset h
    cases h
  · exact refusesIn_pop 2

theorem refusesIn_reopen : scan.reopen.RefusesIn context := by
  intro offset h
  unfold reopen at h
  split at h <;> cases h

theorem refusesIn_openBackquote : scan.openBackquote.RefusesIn context := by
  intro offset h
  unfold openBackquote at h
  split at h <;> cases h

theorem refusesIn_readDollar : scan.readDollar.RefusesIn context := by
  unfold readDollar
  refine .ite (fun _ ↦ refusesIn_failed context (by simp)) fun _ ↦ ?_
  split <;> exact refusesIn_more context _

theorem refusesIn_readParenthesis (h : scan.context.construct.Plain) :
    scan.readParenthesis.RefusesIn scan.context := by
  unfold readParenthesis
  split
  · exact .ite (fun _ ↦ refusesIn_closeArithmetic) fun _ ↦ refusesIn_reopen
  · exact refusesIn_pop 1
  · exact refusesIn_pop 1
  · rename_i harithmetic hparenthesis hcommand
    intro offset _
    exact h.eq_basic_or_brace harithmetic hparenthesis hcommand

theorem refusesIn_readPlain (h : scan.context.construct.Plain) (c : Char) :
    (scan.readPlain c).RefusesIn scan.context := by
  refine .ite (fun _ ↦ refusesIn_readParenthesis h) fun _ ↦ ?_
  refine .ite (fun _ ↦ ?_) fun _ ↦ ?_
  · exact .ite (fun _ ↦ refusesIn_pop 1) fun _ ↦ refusesIn_failed _ (by simp)
  refine .ite (fun _ ↦ refusesIn_more _ _) fun _ ↦ ?_
  exact .ite (fun _ ↦ refusesIn_more _ _) fun _ ↦ refusesIn_more _ _

theorem refusesIn_read (c : Char) : (scan.read c).RefusesIn scan.context := by
  have hclosing (closes : Prop) [Decidable closes] :
      (if closes then scan.pop 1 else .more (scan.skip 1)).RefusesIn scan.context :=
    .ite (fun _ ↦ refusesIn_pop 1) fun _ ↦ refusesIn_more _ _
  refine .ite (fun _ ↦ hclosing _) fun hsingle ↦ ?_
  refine .ite (fun _ ↦ ?_) fun _ ↦ ?_
  · exact .ite (fun _ ↦ refusesIn_failed _ (by simp)) fun _ ↦ refusesIn_more _ _
  refine .ite (fun _ ↦ refusesIn_readDollar) fun _ ↦ ?_
  refine .ite (fun _ ↦ refusesIn_openBackquote) fun _ ↦ ?_
  refine .ite (fun _ ↦ hclosing _) fun hdouble ↦ ?_
  refine .ite (fun _ ↦ refusesIn_more _ _) fun _ ↦ ?_
  refine .ite (fun _ ↦ refusesIn_more _ _) fun _ ↦ ?_
  exact .ite (fun _ ↦ hclosing _) fun hvariable ↦
    refusesIn_readPlain ⟨hsingle, hdouble, hvariable⟩ c

theorem refusesIn_step (find : Finder) (scan : Scan) :
    (scan.step find).RefusesIn scan.context := by
  have hdone (final : Scan) : (Progress.done final).RefusesIn scan.context := by
    intro offset h
    cases h
  unfold Scan.step
  split
  · exact hdone _
  · split
    · exact .ite (fun _ ↦ hdone _) fun _ ↦ refusesIn_read _
    · refine .ite (fun _ ↦ refusesIn_more _ _) fun _ ↦ ?_
      exact .ite (fun _ ↦ refusesIn_failed _ (by simp)) fun _ ↦ refusesIn_read _

/-- The scans that a scan comes to, one step after the other. -/
abbrev Steps (find : Finder) : Scan → Scan → Prop :=
  ReflTransGen fun scan next ↦ scan.step find = .more next

theorem Steps.balanced {text : List Char} {found : Occurrence}
    (h : Steps find (start text found) scan) : scan.Balanced := by
  induction h with
  | refl => exact balanced_start text found
  | tail _ hstep ih => exact ih.step hstep

end Scan

end Macro.Unix

/-! ### The search of a cursor -/

namespace Cursor.Unix

namespace Scan

/-- No group in braces is open: to the search of a cursor a brace is a character of a word. -/
def Braceless (scan : Scan) : Prop :=
  ∀ context ∈ scan.context :: scan.stack, context.construct ≠ .brace

theorem braceless_start (text : List Char) : (start text).Braceless := by
  simp [Braceless, start, Context.basic]

end Scan

/-- A step opens no group in braces, and stops inside of something only at the end of the line. -/
def Progress.Level : Progress → Prop
  | more next => next.Braceless
  | ended final _ => final.rest = [] ∨ final.stack = []
  | underflow => True

theorem Progress.Level.ite {chosen : Prop} [Decidable chosen] {first second : Progress}
    (hpos : chosen → first.Level) (hneg : ¬chosen → second.Level) :
    (if chosen then first else second).Level :=
  iteInduction (motive := Progress.Level) hpos hneg

namespace Scan.Braceless

variable {scan : Scan} {c : Char} {rest : List Char} (h : scan.Braceless)

include h

theorem enter {next : Scan} (hcontext : next.context.construct ≠ .brace)
    (hstack : next.stack = scan.context :: scan.stack) : next.Braceless := by
  intro context hmem
  rw [hstack] at hmem
  rcases List.mem_cons.mp hmem with rfl | hopen
  · exact hcontext
  · exact h context hopen

theorem level_pop : (scan.pop rest).Level := by
  unfold pop
  split
  · trivial
  · rename_i hstack
    intro context hmem
    refine h context (List.mem_cons_of_mem _ ?_)
    rw [hstack]
    exact hmem

theorem level_closeArithmetic : (scan.closeArithmetic rest).Level := by
  unfold closeArithmetic
  split
  · trivial
  · rename_i saves hsaves
    have hsame : Braceless { scan with saves := saves } := h
    exact hsame.level_pop

theorem level_reopen : scan.reopen.Level := by
  unfold reopen
  split
  · trivial
  · intro context hmem
    rcases List.mem_cons.mp hmem with rfl | hmem
    · simp [Context.subshell]
    rcases List.mem_cons.mp hmem with rfl | hmem
    · simp [Context.substitution]
    · exact h context (List.mem_cons_of_mem _ hmem)

theorem level_readEscaped : (scan.readEscaped rest).Level := by
  unfold readEscaped
  split
  · exact .inl rfl
  · exact h

theorem level_readDollar : (scan.readDollar rest).Level := by
  unfold readDollar
  split
  · exact h
  · exact h.enter (by simp [push, Context.enter]) rfl
  · exact h.enter (by simp [push, Context.substitution]) rfl
  · exact h.enter (by simp [push, Context.enter]) rfl
  · exact h

theorem level_readBackquote : (scan.readBackquote rest).Level := by
  unfold readBackquote
  split
  · exact .inl rfl
  · exact h

variable (hbalanced : scan.Balanced)

include hbalanced

theorem level_readParenthesis (hplain : scan.context.construct.Plain) :
    (scan.readParenthesis rest).Level := by
  unfold readParenthesis
  split
  · split
    · exact .inl rfl
    · exact h.level_closeArithmetic
    · exact h.level_reopen
  · exact h.level_pop
  · exact h.level_pop
  · rename_i harithmetic hparenthesis hcommand
    have hbrace := h scan.context List.mem_cons_self
    have hbasic :=
      (hplain.eq_basic_or_brace harithmetic hparenthesis hcommand).resolve_right hbrace
    exact .inr (hbalanced.nested.basic_iff.mp hbasic)

theorem level_readPlain (hplain : scan.context.construct.Plain) (c : Char) :
    (scan.readPlain c rest).Level := by
  refine .ite (fun _ ↦ h.level_readParenthesis hbalanced hplain) fun _ ↦ ?_
  refine .ite (fun _ ↦ h.enter (by simp [push, Context.enter]) rfl) fun _ ↦ ?_
  refine .ite (fun hends ↦ ?_) fun _ ↦ ?_
  · rw [Bool.and_eq_true] at hends
    exact .inr (List.isEmpty_iff.mp hends.2)
  refine .ite (fun _ ↦ ?_) fun _ ↦ h
  refine .ite (fun _ ↦ h) fun _ ↦ ?_
  exact .ite (fun hstack ↦ .inr (List.isEmpty_iff.mp hstack)) fun _ ↦ h

theorem level_read (c : Char) : (scan.read c rest).Level := by
  have hclosing (closes : Prop) [Decidable closes] {onward : Scan} (honward : onward.Braceless) :
      (if closes then scan.pop rest else .more onward).Level :=
    .ite (fun _ ↦ h.level_pop) fun _ ↦ honward
  have hopening {context : Context} (hcontext : context.construct ≠ .brace) :
      (if scan.context.quoted then scan.take [c] rest else scan.quote context rest).Braceless := by
    split
    · exact h
    · exact h.enter hcontext rfl
  refine .ite (fun _ ↦ hclosing _ h) fun hsingle ↦ ?_
  refine .ite (fun _ ↦ h.level_readEscaped) fun _ ↦ ?_
  refine .ite (fun _ ↦ h.level_readDollar) fun _ ↦ ?_
  refine .ite (fun _ ↦ h.level_readBackquote) fun _ ↦ ?_
  refine .ite (fun _ ↦ hclosing _ h) fun hdouble ↦ ?_
  refine .ite (fun _ ↦ hopening (by simp [Context.enter])) fun _ ↦ ?_
  refine .ite (fun _ ↦ hopening (by simp [Context.doubleQuotation])) fun _ ↦ ?_
  refine .ite (fun _ ↦ hclosing _ h) fun hvariable ↦ ?_
  exact h.level_readPlain hbalanced ⟨hsingle, hdouble, hvariable⟩ c

theorem level_step : scan.step.Level := by
  unfold step
  split
  · rename_i hnil
    exact .inl hnil
  · exact h.level_read hbalanced _

end Scan.Braceless

/-- The scans that a search comes to, one step after the other. -/
abbrev Scan.Steps : Scan → Scan → Prop := ReflTransGen fun scan next ↦ scan.step = .more next

theorem Scan.Steps.invariant {text : List Char} {scan : Scan} (h : Steps (start text) scan) :
    scan.Balanced ∧ scan.Braceless := by
  induction h with
  | refl => exact ⟨balanced_start text, braceless_start text⟩
  | tail _ hstep ih =>
    obtain ⟨hbalanced, hbraceless⟩ := ih
    have hsound := hbalanced.sound_step
    have hlevel := hbraceless.level_step hbalanced
    rw [hstep] at hsound hlevel
    exact ⟨hsound, hlevel⟩

end Cursor.Unix

/-! ### Both -/

/-- Whatever the text and the values of its macros are, in every scan that they lead to the
innermost construct is none exactly if no other one is open, and a place is kept for each arithmetic
that is open. The next step takes nothing from an empty stack. A closing parenthesis at the top
level stops it only with nothing open. Inside of something the search stops only at the end of the
text, and the scan that puts in macros refuses a parenthesis only in a group in braces. -/
theorem scans_nested (find : Finder) (text : List Char) :
    (∀ found scan, Macro.Unix.Scan.Steps find (.start text found) scan →
      Nested scan.context scan.stack scan.saves.length ∧ scan.step find ≠ .underflow ∧
        ∀ offset, scan.step find = .failed (.unbalanced ')' offset) →
          scan.stack = [] ∨ scan.context.construct = .brace) ∧
    ∀ scan, Cursor.Unix.Scan.Steps (.start text) scan →
      Nested scan.context scan.stack scan.saves.length ∧ scan.step ≠ .underflow ∧
        ∀ final complete, scan.step = .ended final complete →
          final.rest = [] ∨ final.stack = [] := by
  constructor
  · intro found scan hsteps
    have hbalanced := hsteps.balanced
    have hnested := (Macro.Unix.Scan.balanced_iff.mp hbalanced).nested
    refine ⟨hnested, hbalanced.step_ne_underflow find, fun offset hrefused ↦ ?_⟩
    have hcontext := Macro.Unix.Scan.refusesIn_step find scan offset hrefused
    exact hcontext.imp_left hnested.basic_iff.mp
  · intro scan hsteps
    obtain ⟨hbalanced, hbraceless⟩ := hsteps.invariant
    have hsound := hbalanced.sound_step
    have hlevel := hbraceless.level_step hbalanced
    refine ⟨hbalanced.nested, fun hunderflow ↦ ?_, fun final complete hended ↦ ?_⟩
    · rw [hunderflow] at hsound
      exact hsound
    · rw [hended] at hlevel
      exact hlevel

/-- Behind arithmetic that was none, a closing parenthesis too many. -/
theorem scans_nested_behind_subshell :
    let find : Finder := fun _ _ ↦ none
    let found : Occurrence := ⟨9, 1, ['v'], by decide⟩
    let scan : Macro.Unix.Scan :=
      ⟨['$', '(', '(', 'a', ')', ' ', 'b', ')'].reverse.map .literal, [')', 'm'],
        some (found.nearer 8), .basic, [], []⟩
    let search : Cursor.Unix.Scan :=
      ⟨[')', 'm'], ['b', ' ', 'a', 'a'], .basic, [], [], true, false⟩
    (scan.step find = .failed (.unbalanced ')' 8) ∧
      (scan.stack = [] ∨ scan.context.construct = .brace)) ∧
    (search.step = .ended search true ∧ (search.rest = [] ∨ search.stack = [])) := by
  intro find found scan search
  let text := ['$', '(', '(', 'a', ')', ' ', 'b', ')', ')', 'm']
  obtain ⟨hscans, hsearches⟩ := scans_nested find text
  have hscan : Macro.Unix.Scan.Steps find (.start text found) scan :=
    .head rfl <| .head rfl <| .head rfl <| .head rfl <| .head rfl <| .head rfl <| .head rfl <|
      .head rfl .refl
  have hsearch : Cursor.Unix.Scan.Steps (.start text) search :=
    .head rfl <| .head rfl <| .head rfl <| .head rfl <| .head rfl <| .head rfl <| .head rfl <|
      .head rfl .refl
  have hrefused : scan.step find = .failed (.unbalanced ')' 8) := rfl
  have hended : search.step = .ended search true := rfl
  obtain ⟨-, -, hopen⟩ := hscans found scan hscan
  obtain ⟨-, -, hstops⟩ := hsearches search hsearch
  exact ⟨⟨hrefused, hopen 8 hrefused⟩, hended, hstops search true hended⟩

end CommandLine
