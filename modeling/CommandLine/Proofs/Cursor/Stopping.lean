import CommandLine.Proofs.Cursor.Written
import CommandLine.Proofs.Macro.UnixBalance

/-!
Where the search of a cursor stops. A search that comes upon no argument leaves the cursor at the
end of the text or at a character at which the arguments end, and from there every search stops at
once.

For a POSIX shell this rests on what is open in a scan. It is balanced as it is in a scan that
expands macros, although a backquoted command is passed over here in one step: so nothing is ever
taken from an empty stack, and a search stops inside of something only at the end of the text.
-/

set_option autoImplicit false

namespace CommandLine.Cursor

open CommandLine.Windows (isSeparator)

variable {dialect : Dialect} {c : Char} {text rest : List Char}

/-! ### The end of the arguments -/

/-- A character at which the arguments of a line end. -/
def endsArguments : Dialect → Char → Bool
  | .unix, c => Unix.endsCommand c || c == ')'
  | .windows, c => Dialect.windows.isMeta c

/-- No argument is ahead, and nothing but spaces and tabs up to the end of the text or to a
character at which the arguments end. -/
def atEnd (dialect : Dialect) (text : List Char) : Bool :=
  (text.dropWhile isSeparator).head?.all (endsArguments dialect)

/-- Blanks do not end the arguments. -/
theorem isBlank_of_endsArguments (h : endsArguments dialect c = true) :
    Text.isBlank c = false := by
  cases dialect with
  | unix =>
    simp only [endsArguments, Unix.endsCommand, Bool.or_eq_true, beq_iff_eq] at h
    rcases h with ((((rfl | rfl) | rfl) | rfl) | rfl) | rfl <;> decide
  | windows =>
    have hall : Dialect.windows.metaChars.all (!Text.isBlank ·) = true := by decide
    simpa using List.all_eq_true.mp hall c (List.contains_iff_mem.mp h)

theorem isSeparator_of_endsArguments (h : endsArguments dialect c = true) :
    isSeparator c = false := by
  have hblank := isBlank_of_endsArguments h
  by_contra htrue
  simp only [isSeparator, Bool.not_eq_false, Bool.or_eq_true, beq_iff_eq] at htrue
  rcases htrue with rfl | rfl <;> cases hblank

theorem atEnd_cons_of_not_isSeparator (hc : isSeparator c = false) (rest : List Char) :
    atEnd dialect (c :: rest) = endsArguments dialect c := by
  rw [atEnd, List.dropWhile_cons_of_neg (by simp [hc])]
  rfl

theorem atEnd_cons (hc : endsArguments dialect c = true) (rest : List Char) :
    atEnd dialect (c :: rest) = true :=
  (atEnd_cons_of_not_isSeparator (isSeparator_of_endsArguments hc) rest).trans hc

/-- A search stops at a character that ends the arguments. -/
theorem find_of_endsArguments (hc : endsArguments dialect c = true) (rest : List Char) :
    find dialect (c :: rest) = ⟨false, c :: rest, [], true⟩ := by
  cases dialect with
  | unix =>
    have hended : (Unix.Scan.start (c :: rest)).step = .ended (.start (c :: rest)) true := by
      simp only [endsArguments, Unix.endsCommand, Bool.or_eq_true, beq_iff_eq] at hc
      rcases hc with ((((rfl | rfl) | rfl) | rfl) | rfl) | rfl <;> rfl
    rw [find, Unix.next, Unix.run_of_ended hended]
    rfl
  | windows =>
    have hcircumflex : c ≠ '^' := by
      rintro rfl
      cases hc
    rw [find, Windows.next, Windows.Scan.run, if_neg (fun h ↦ hcircumflex h.2), if_pos ⟨rfl, hc⟩]
    rfl

theorem find_of_atEnd (h : atEnd dialect text = true) :
    find dialect text = ⟨false, text.dropWhile isSeparator, [], true⟩ := by
  induction text with
  | nil => exact find_replicate dialect 0
  | cons c rest ih =>
    unfold atEnd at h ih
    by_cases hc : isSeparator c = true
    · rw [List.dropWhile_cons_of_pos hc] at h ⊢
      rw [find_separator dialect hc, ih h]
    · rw [List.dropWhile_cons_of_neg hc] at h ⊢
      exact find_of_endsArguments h rest

/-! ### What is open in a scan for a POSIX shell -/

namespace Unix

open CommandLine.Macro.Unix (Balance)

namespace Scan

/-- What is open in a scan, and the places that it has kept. -/
def Balanced (scan : Scan) : Prop := Balance (scan.context :: scan.stack) scan.saves.length

/-- A scan has come to an argument that is complete, or to where no argument is ahead. -/
def Settled (scan : Scan) (complete : Bool) : Prop :=
  complete = true ∧ scan.stack = [] ∧ scan.inWord = true ∨ atEnd .unix scan.rest = true

end Scan

/-- A step keeps the balance of a scan or settles it. -/
def Progress.Sound : Progress → Prop
  | more next => next.Balanced
  | ended final complete => final.Settled complete
  | underflow => False

theorem Progress.Sound.ite {chosen : Prop} [Decidable chosen] {first second : Progress}
    (hpos : chosen → first.Sound) (hneg : ¬chosen → second.Sound) :
    (if chosen then first else second).Sound :=
  iteInduction (motive := Progress.Sound) hpos hneg

namespace Scan

theorem balanced_start (text : List Char) : (start text).Balanced := .outermost

variable {scan : Scan}

/-! ### Every step is sound -/

theorem settled_nil (scan : Scan) (complete : Bool) : (scan.skip []).Settled complete := .inr rfl

theorem settled_at (hc : endsArguments .unix c = true) (hrest : scan.rest = c :: rest)
    (complete : Bool) : scan.Settled complete := by
  refine .inr ?_
  rw [hrest]
  exact atEnd_cons hc rest

/-- What is around the context that is closed is open behind it. -/
theorem sound_pop_of_around (hnil : scan.stack ≠ [])
    (haround : Balance scan.stack scan.saves.length) : (scan.pop rest).Sound := by
  unfold pop
  split
  · contradiction
  · rename_i context stack hstack
    rw [hstack] at haround
    exact haround

namespace Balanced

variable (h : scan.Balanced)

include h

theorem push {context : Context}
    (hcontext : context.construct ≠ .basic ∧ context.construct ≠ .arithmetic) :
    (scan.push context rest).Balanced := h.enter hcontext

theorem sound_pop (hbasic : scan.context.construct ≠ .basic)
    (harithmetic : scan.context.construct ≠ .arithmetic) : (scan.pop rest).Sound :=
  sound_pop_of_around (h.ne_nil hbasic) (h.leave (h.ne_nil hbasic) harithmetic)

theorem sound_closeArithmetic (harithmetic : scan.context.construct = .arithmetic) :
    (scan.closeArithmetic rest).Sound := by
  have hnil := h.ne_nil (by simp [harithmetic])
  have hzero := h.ne_zero harithmetic
  unfold closeArithmetic
  split
  · rename_i hsaves
    exact hzero (congrArg List.length hsaves)
  · rename_i save saves hsaves
    have hconfirm : Balance scan.stack saves.length := by
      unfold Balanced at h
      rw [hsaves] at h
      exact h.confirm harithmetic
    exact sound_pop_of_around hnil hconfirm

theorem sound_reopen (harithmetic : scan.context.construct = .arithmetic) : scan.reopen.Sound := by
  have hzero := h.ne_zero harithmetic
  unfold reopen
  split
  · rename_i hsaves
    exact hzero (congrArg List.length hsaves)
  · rename_i save saves hsaves
    unfold Balanced at h
    rw [hsaves] at h
    exact h.abandon harithmetic

theorem sound_readEscaped : (scan.readEscaped rest).Sound := by
  unfold readEscaped
  split
  · exact settled_nil scan false
  · exact h

theorem sound_readDollar : (scan.readDollar rest).Sound := by
  unfold readDollar
  split
  · exact h
  · exact h.guess rfl
  · exact h.push (by simp [Context.substitution])
  · exact h.push (by simp [Context.enter])
  · exact h

theorem sound_readBackquote : (scan.readBackquote rest).Sound := by
  unfold readBackquote
  split
  · exact settled_nil scan false
  · exact h

theorem sound_readParenthesis (hrest : scan.rest = ')' :: rest) :
    (scan.readParenthesis rest).Sound := by
  unfold readParenthesis
  split
  · rename_i harithmetic
    split
    · exact settled_nil scan true
    · exact h.sound_closeArithmetic harithmetic
    · exact h.sound_reopen harithmetic
  · rename_i hcontext
    exact h.sound_pop (by simp [hcontext]) (by simp [hcontext])
  · rename_i hcontext
    exact h.sound_pop (by simp [hcontext]) (by simp [hcontext])
  · exact settled_at rfl hrest true

theorem sound_readPlain (hrest : scan.rest = c :: rest) : (scan.readPlain c rest).Sound := by
  refine .ite (fun hc ↦ ?_) fun _ ↦ ?_
  · rw [hc] at hrest
    exact h.sound_readParenthesis hrest
  refine .ite (fun _ ↦ h.push (by simp [Context.enter])) fun _ ↦ ?_
  refine .ite (fun hends ↦ ?_) fun _ ↦ ?_
  · rw [Bool.and_eq_true] at hends
    exact settled_at (by simp [endsArguments, hends.1]) hrest true
  refine .ite (fun _ ↦ ?_) fun _ ↦ h
  refine .ite (fun _ ↦ h) fun hword ↦ ?_
  refine .ite (fun hstack ↦ ?_) fun _ ↦ h
  exact .inl ⟨rfl, List.isEmpty_iff.mp hstack, by simpa using hword⟩

theorem sound_read (hrest : scan.rest = c :: rest) : (scan.read c rest).Sound := by
  have hopening {context : Context}
      (hne : context.construct ≠ .basic ∧ context.construct ≠ .arithmetic) :
      (if scan.context.quoted then scan.take [c] rest else scan.quote context rest).Balanced := by
    split
    · exact h
    · exact h.enter hne
  refine .ite (fun hsingle ↦ ?_) fun _ ↦ ?_
  · exact .ite (fun _ ↦ h.sound_pop (by simp [hsingle]) (by simp [hsingle])) fun _ ↦ h
  refine .ite (fun _ ↦ h.sound_readEscaped) fun _ ↦ ?_
  refine .ite (fun _ ↦ h.sound_readDollar) fun _ ↦ ?_
  refine .ite (fun _ ↦ h.sound_readBackquote) fun _ ↦ ?_
  refine .ite (fun hdouble ↦ ?_) fun _ ↦ ?_
  · exact .ite (fun _ ↦ h.sound_pop (by simp [hdouble]) (by simp [hdouble])) fun _ ↦ h
  refine .ite (fun _ ↦ hopening (by simp [Context.enter])) fun _ ↦ ?_
  refine .ite (fun _ ↦ hopening (by simp [Context.doubleQuotation])) fun _ ↦ ?_
  refine .ite (fun hvariable ↦ ?_) fun _ ↦ h.sound_readPlain hrest
  exact .ite (fun _ ↦ h.sound_pop (by simp [hvariable]) (by simp [hvariable])) fun _ ↦ h

theorem sound_step : scan.step.Sound := by
  unfold step
  split
  · rename_i hnil
    refine .inr ?_
    rw [hnil]
    rfl
  · rename_i hrest
    exact h.sound_read hrest

/-- A balanced scan comes to an end, and is settled there. -/
theorem exists_run : ∃ final complete, scan.run = some (final, complete) ∧
    final.Settled complete := by
  fun_induction Scan.run scan with
  | case1 scan next hstep ih =>
    have hsound := h.sound_step
    rw [hstep] at hsound
    exact ih hsound
  | case2 scan final complete hstep =>
    have hsound := h.sound_step
    rw [hstep] at hsound
    exact ⟨final, complete, rfl, hsound⟩
  | case3 scan hstep =>
    have hsound := h.sound_step
    rw [hstep] at hsound
    exact hsound.elim

end Balanced

/-- What is found where a scan ends. -/
def found (scan : Scan) (complete : Bool) : Found :=
  let closed := complete && scan.stack.isEmpty
  ⟨closed && scan.inWord, scan.rest, if closed && scan.simple then scan.value.reverse else [],
    scan.simple⟩

end Scan

/-- Every search comes to an end, and one that finds no argument leaves none ahead. -/
theorem exists_run_start (text : List Char) : ∃ final complete,
    (Scan.start text).run = some (final, complete) ∧ next text = final.found complete ∧
      ((next text).success = false → atEnd .unix (next text).rest = true) := by
  obtain ⟨final, complete, hrun, hsettled⟩ := (Scan.balanced_start text).exists_run
  have hnext : next text = final.found complete := by
    rw [next, hrun]
    rfl
  refine ⟨final, complete, hrun, hnext, fun hsuccess ↦ ?_⟩
  rw [hnext] at hsuccess ⊢
  rcases hsettled with ⟨rfl, hstack, hword⟩ | hend
  · simp [Scan.found, hstack, hword] at hsuccess
  · exact hend

end Unix

/-! ### Searches that find nothing -/

theorem Windows.Scan.atEnd_run (scan : Windows.Scan) (h : (scan.run text).success = false) :
    atEnd .windows (scan.run text).rest = true := by
  induction text generalizing scan with
  | nil =>
    rw [run, rest_finish]
    rfl
  | cons c rest ih =>
    unfold run at h ⊢
    by_cases hcircumflex : scan.shell = .plain ∧ c = '^'
    · rw [if_pos hcircumflex] at h ⊢
      exact ih _ h
    rw [if_neg hcircumflex] at h ⊢
    by_cases hmeta : scan.shell = .plain ∧ Dialect.windows.isMeta c = true
    · have hends : endsArguments .windows c = true := hmeta.2
      rw [if_pos hmeta, rest_finish]
      exact atEnd_cons hends rest
    rw [if_neg hmeta] at h ⊢
    by_cases hseparator : scan.word ≠ .quoted ∧ isSeparator c = true
    · rw [if_pos hseparator] at h ⊢
      by_cases hbetween : scan.word = .between
      · rw [if_pos hbetween] at h ⊢
        exact ih _ h
      · -- an argument is in front of the separator
        rw [if_neg hbetween] at h
        simp [finish, hbetween] at h
    · rw [if_neg hseparator] at h ⊢
      exact ih _ h

/-- A search that comes upon no argument leaves none ahead. -/
theorem atEnd_find (h : (find dialect text).success = false) :
    atEnd dialect (find dialect text).rest = true := by
  cases dialect with
  | unix =>
    obtain ⟨-, -, -, -, hend⟩ := Unix.exists_run_start text
    exact hend h
  | windows => exact Windows.Scan.atEnd_run .start h

end CommandLine.Cursor
