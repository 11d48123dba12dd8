import CommandLine.Macro.Expansion
import CommandLine.Proofs.Macro.UnixTokens

/-!
Where a step takes a scan for a POSIX shell. The scan puts in the macro that starts at its place, or
it reads a character and takes a token of the shell's language, guesses that arithmetic begins,
finds that guess confirmed or gives it up and goes back, or turns a backquoted command into a
substitution (`Advances`). Whatever is opened or closed, its place moves in one of four ways
(`Moves`).
-/

set_option autoImplicit false

namespace CommandLine.Macro.Unix

/-- If the scan goes on, then with a property; it does not end. -/
def Progress.Leads (holds : Scan → Prop) : Progress → Prop
  | more scan => holds scan
  | done _ => False
  | failed _ => True
  | underflow => True

theorem Progress.Leads.imp {holds others : Scan → Prop} {progress : Progress}
    (h : progress.Leads holds) (himp : ∀ scan, holds scan → others scan) :
    progress.Leads others := by
  cases progress with
  | more scan => exact himp scan h
  | done | failed | underflow => exact h

theorem Progress.Leads.ite {holds : Scan → Prop} {chosen : Prop} [Decidable chosen]
    {first second : Progress} (hpos : chosen → first.Leads holds)
    (hneg : ¬chosen → second.Leads holds) :
    (if chosen then first else second).Leads holds :=
  iteInduction (motive := Leads holds) hpos hneg

namespace Scan

/-- The place that a scan has come to. -/
def place (scan : Scan) : Save := ⟨scan.finished, scan.rest, scan.next⟩

/-- The next macro starts behind the next `count` characters, unless it starts with a parenthesis
among them. -/
def Clears (scan : Scan) (count : Nat) : Prop :=
  ∀ found, scan.next = some found → (count : Int) ≤ found.gap ∨
    ∃ index : Nat, found.gap = index ∧
      (scan.rest[index]? = some '(' ∨ scan.rest[index]? = some ')')

/-- What reading a character does to a scan. -/
inductive Turns (scan : Scan) : Scan → Prop
  /-- Something other than arithmetic was opened or closed, or nothing. -/
  | read (turn : Turn) (count : Nat) {context : Context} {stack : List Context}
    (hclears : scan.Clears count)
    (htoken : Token scan.context (scan.rest.take count) (scan.rest.drop count) turn)
    (hopens : ∀ inner, turn = .opens inner → inner.construct ≠ .arithmetic)
    (hcloses : turn = .closes → scan.context.construct ≠ .arithmetic)
    (hturn : turn.apply scan.context scan.stack = some (context, stack)) :
    Turns scan { scan.skip count with context := context, stack := stack }
  | guessed {rest : List Char} (hcontext : scan.context.construct ≠ .singleQuote)
    (hrest : scan.rest = '$' :: '(' :: '(' :: rest) (hclears : scan.Clears 3) :
    Turns scan scan.openArithmetic
  /-- Arithmetic was closed, and with it the place to go back to was given up. -/
  | confirmed {rest : List Char} {outer : Context} {stack : List Context} {save : Save}
    {saves : List Save} (hcontext : scan.context.construct = .arithmetic)
    (hrest : scan.rest = ')' :: ')' :: rest) (hclears : scan.Clears 2)
    (hstack : scan.stack = outer :: stack) (hsaves : scan.saves = save :: saves) :
    Turns scan { scan.skip 2 with context := outer, stack := stack, saves := saves }
  /-- Arithmetic was given up, and the scan went back. -/
  | abandoned {rest : List Char} {save : Save} {saves : List Save}
    (hcontext : scan.context.construct = .arithmetic) (hrest : scan.rest = ')' :: rest)
    (hclears : scan.Clears 1) (hlone : rest.head? ≠ some ')')
    (hsaves : scan.saves = save :: saves) :
    Turns scan ⟨save.finished, save.rest, save.next, .subshell, .substitution :: scan.stack, saves⟩
  /-- A backquoted command became a substitution. -/
  | unquoted {next : Scan} {rest : List Char} (hcontext : scan.context.construct ≠ .singleQuote)
    (hrest : scan.rest = '`' :: rest) (hclears : scan.Clears 1)
    (hopen : scan.openBackquote = .more next) : Turns scan next

/-- What a step does to the place of a scan and to the places to go back to. -/
inductive Moves (find : Finder) (scan : Scan) : Scan → Prop
  /-- The macro that starts here was put in. -/
  | substituted {found : Occurrence} (hnext : scan.next = some found) (hgap : found.gap = 0) :
    Moves find scan (scan.substitute find found)
  /-- Characters were passed, and the place behind them may have been kept. -/
  | passed {next : Scan} (count : Nat) (hclears : scan.Clears count)
    (hplace : next.place = (scan.skip count).place)
    (hsaves : ∀ save ∈ next.saves, save ∈ scan.saves ∨ save = next.place) : Moves find scan next
  /-- The scan went back to a place that it had kept. -/
  | returned {next : Scan} (hplace : next.place ∈ scan.saves)
    (hsaves : ∀ save ∈ next.saves, save ∈ scan.saves) : Moves find scan next
  /-- A backquoted command became a substitution. -/
  | unquoted {next : Scan} {rest : List Char} (hrest : scan.rest = '`' :: rest)
    (hopen : scan.openBackquote = .more next) : Moves find scan next

variable {find : Finder} {scan : Scan}

/-! ### Characters -/

theorem clears_of_le_gap {count : Nat}
    (h : ∀ found, scan.next = some found → (count : Int) ≤ found.gap) : scan.Clears count :=
  fun found hfound ↦ .inl (h found hfound)

theorem le_gap_of_not_reaches {count : Nat} (h : ¬scan.reaches count = true) :
    ∀ found, scan.next = some found → (count : Int) ≤ found.gap := by
  intro found hfound
  simp only [reaches, hfound, decide_eq_true_eq] at h
  omega

/-- At `$((` the scan has not asked for a macro at the second parenthesis. -/
theorem clears_opener {first : Char} {behind : List Char}
    (hrest : scan.rest = first :: '(' :: '(' :: behind)
    (hfar : ∀ found, scan.next = some found → 2 ≤ found.gap) : scan.Clears 3 := by
  intro found hfound
  by_cases hgap : found.gap = 2
  · exact .inr ⟨2, hgap, .inl (by rw [hrest]; rfl)⟩
  · have := hfar found hfound
    exact .inl (by omega)

/-- Nor does it ask for one at the second parenthesis of `))`. -/
theorem clears_closer (hclosing : scan.rest[1]? = some ')')
    (hfar : ∀ found, scan.next = some found → 1 ≤ found.gap) : scan.Clears 2 := by
  intro found hfound
  by_cases hgap : found.gap = 1
  · exact .inr ⟨1, hgap, .inr hclosing⟩
  · have := hfar found hfound
    exact .inl (by omega)

section Characters

variable {c : Char} {rest : List Char} (hrest : scan.rest = c :: rest)
  (hfar : ∀ found, scan.next = some found → 1 ≤ found.gap)

include hrest hfar

theorem turns_literal (hclosing : closing scan.context.construct ≠ some c)
    (hopened : opened scan.context c = none) (hc : isLiteral scan.context c = true) :
    Turns scan (scan.skip 1) := by
  refine .read .stays 1 (clears_of_le_gap hfar) ?_ (by simp) (by simp) rfl
  rw [hrest]
  exact .literal hclosing hopened hc

theorem turns_push {inner : Context} (hc : opened scan.context c = some inner)
    (hinner : inner.construct ≠ .arithmetic) : Turns scan (scan.push 1 inner) := by
  refine .read (.opens inner) 1 (clears_of_le_gap hfar) ?_ (by simp [hinner]) (by simp) rfl
  rw [hrest]
  exact .opening hc

theorem turns_pop (hc : closing scan.context.construct = some c) :
    (scan.pop 1).Leads (Turns scan) := by
  unfold pop
  split
  · trivial
  · rename_i outer stack hstack
    refine Turns.read .closes 1 (clears_of_le_gap hfar) ?_ (by simp)
      (fun _ harithmetic ↦ ?_) (by rw [hstack]; rfl)
    · rw [hrest]
      exact .closing hc
    · rw [harithmetic] at hc
      cases hc

omit hfar in
theorem turns_readDollar (hc : c = '$') (hcontext : scan.context.construct ≠ .singleQuote) :
    scan.readDollar.Leads (Turns scan) := by
  subst hc
  unfold readDollar
  split
  · trivial
  · rename_i hreaches
    have hfar := le_gap_of_not_reaches hreaches
    have hclears : scan.Clears 2 := clears_of_le_gap hfar
    split
    · rename_i first behind hopener
      obtain rfl : '$' = first := (List.cons.inj (hrest.symm.trans hopener)).1
      exact Turns.guessed hcontext hopener (clears_opener hopener hfar)
    · rename_i first behind hbehind hopener
      obtain rfl : '$' = first := (List.cons.inj (hrest.symm.trans hopener)).1
      refine Turns.read (.opens .substitution) 2 hclears ?_ (by simp [Context.substitution])
        (by simp) rfl
      rw [hopener]
      refine .substitution hcontext fun hparenthesis ↦ ?_
      obtain ⟨others, hothers⟩ := List.head?_eq_some_iff.mp hparenthesis
      exact hbehind others hothers
    · rename_i first behind hopener
      obtain rfl : '$' = first := (List.cons.inj (hrest.symm.trans hopener)).1
      refine Turns.read (.opens (scan.context.enter .variableSubstitution)) 2 hclears ?_
        (by simp [Context.enter]) (by simp) rfl
      rw [hopener]
      exact .variableSubstitution hcontext
    · rename_i hopener hparenthesis hbrace
      have hbehind (d : Char) (hd : ∀ first tail, scan.rest = first :: d :: tail → False) :
          (scan.rest.drop 1).head? ≠ some d := by
        intro hhead
        obtain ⟨tail, htail⟩ := List.head?_eq_some_iff.mp hhead
        rw [hrest] at htail
        exact hd '$' tail (by rw [hrest, ← htail]; rfl)
      refine Turns.read .stays 1 (clears_of_le_gap fun found hfound ↦ ?_) ?_ (by simp)
        (by simp) rfl
      · have := hfar found hfound
        omega
      · have htoken := Token.dollar hcontext (hbehind '(' hparenthesis) (hbehind '{' hbrace)
        rwa [hrest] at htoken ⊢

theorem turns_readParenthesis (hc : c = ')') : scan.readParenthesis.Leads (Turns scan) := by
  subst hc
  unfold readParenthesis
  split
  · rename_i hcontext
    split
    · rename_i hclosing
      have hclears := clears_closer hclosing hfar
      obtain ⟨behind, rfl⟩ : ∃ behind, rest = ')' :: behind := by
        rw [hrest] at hclosing
        cases rest with
        | nil => cases hclosing
        | cons d behind => exact ⟨behind, by simpa using hclosing⟩
      unfold closeArithmetic
      split
      · trivial
      · rename_i save saves hsaves
        unfold pop
        split
        · trivial
        · rename_i outer stack hstack
          exact Turns.confirmed hcontext hrest hclears hstack hsaves
    · rename_i hclosing
      unfold reopen
      split
      · trivial
      · rename_i save saves hsaves
        refine Turns.abandoned hcontext hrest (clears_of_le_gap hfar) (fun hlone ↦ hclosing ?_)
          hsaves
        rw [hrest]
        simpa [List.head?_eq_getElem?] using hlone
  · rename_i hcontext
    exact turns_pop hrest hfar (by rw [hcontext]; rfl)
  · rename_i hcontext
    exact turns_pop hrest hfar (by rw [hcontext]; rfl)
  · trivial

/-- Outside of quotations and variable substitutions. -/
theorem turns_readPlain (hspecial : isSpecial c = false) (hquotes : c ≠ '\'' ∧ c ≠ '"')
    (hcontext : scan.context.construct ≠ .singleQuote ∧ scan.context.construct ≠ .doubleQuote ∧
      scan.context.construct ≠ .variableSubstitution) :
    (scan.readPlain c).Leads (Turns scan) := by
  refine .ite (fun hc ↦ turns_readParenthesis hrest hfar hc) fun hparenthesis ↦ ?_
  refine .ite (fun hc ↦ .ite (fun hbrace ↦ ?_) fun _ ↦ trivial) fun hbrace ↦ ?_
  · exact turns_pop hrest hfar (by rw [hbrace, hc]; rfl)
  have hopened : opened scan.context c =
      if c = '(' then some (scan.context.enter .parenthesis)
      else if c = '{' then some (scan.context.enter .brace) else none := by
    unfold opened
    split <;> simp_all
  refine .ite (fun hc ↦ ?_) fun hopening ↦ ?_
  · exact turns_push hrest hfar (by rw [hopened, if_pos hc]) (by simp [Context.enter])
  refine .ite (fun hc ↦ ?_) fun hbraceOpening ↦ ?_
  · exact turns_push hrest hfar (by rw [hopened, if_neg hopening, if_pos hc])
      (by simp [Context.enter])
  · refine turns_literal hrest hfar ?_ (by rw [hopened, if_neg hopening, if_neg hbraceOpening]) ?_
    · exact closing_ne hquotes.1 hquotes.2 hparenthesis hbrace _
    · unfold isLiteral
      split <;> simp_all

/-- A quote means nothing within a double quotation. -/
theorem turns_quote {inner : Context} (hclosing : closing scan.context.construct ≠ some c)
    (hopened : opened scan.context c = if scan.context.quoted then none else some inner)
    (hc : isLiteral scan.context c = true) (hinner : inner.construct ≠ .arithmetic) :
    Turns scan (if scan.context.quoted then scan.skip 1 else scan.push 1 inner) := by
  split
  · rename_i hquoted
    exact turns_literal hrest hfar hclosing (by rw [hopened, if_pos hquoted]) hc
  · rename_i hquoted
    exact turns_push hrest hfar (by rw [hopened, if_neg hquoted]) hinner

/-- What reading a character leads to. -/
theorem turns_read : (scan.read c).Leads (Turns scan) := by
  unfold read
  refine .ite (fun hsingle ↦ ?_) fun hsingle ↦ ?_
  · refine .ite (fun hc ↦ turns_pop hrest hfar (by rw [hsingle, hc]; rfl)) fun hc ↦ ?_
    exact turns_literal hrest hfar (by simp [hsingle, closing, Ne.symm hc])
      (by simp [opened, hsingle]) (by simp [isLiteral, hsingle])
  refine .ite (fun hc ↦ .ite (fun _ ↦ trivial) fun hreaches ↦ ?_) fun hbackslash ↦ ?_
  · have hclears : scan.Clears 2 := clears_of_le_gap (le_gap_of_not_reaches hreaches)
    refine Turns.read .stays 2 hclears ?_ (by simp) (by simp) rfl
    rw [hrest, hc]
    cases rest with
    | nil => exact .escape hsingle
    | cons d behind => exact .escaped hsingle
  refine .ite (fun hc ↦ turns_readDollar hrest hc hsingle) fun hdollar ↦ ?_
  refine .ite (fun hc ↦ ?_) fun hbackquote ↦ ?_
  · cases hopen : scan.openBackquote with
    | more next => exact Turns.unquoted hsingle (hc ▸ hrest) (clears_of_le_gap hfar) hopen
    | done next =>
      unfold openBackquote at hopen
      split at hopen <;> cases hopen
    | failed | underflow => trivial
  have hspecial : isSpecial c = false := by simp [isSpecial, hbackslash, hdollar, hbackquote]
  refine .ite (fun hdouble ↦ ?_) fun hdouble ↦ ?_
  · refine .ite (fun hc ↦ turns_pop hrest hfar (by rw [hdouble, hc]; rfl)) fun hc ↦ ?_
    exact turns_literal hrest hfar (by simp [hdouble, closing, Ne.symm hc])
      (by simp [opened, hdouble]) (by simp [isLiteral, hdouble, hspecial])
  have hquote (hc : c = '\'' ∨ c = '"') : closing scan.context.construct ≠ some c ∧
      isLiteral scan.context c = true := by
    unfold closing isLiteral
    rcases hc with rfl | rfl <;> constructor <;> split <;> simp_all [isSpecial]
  refine .ite (fun hc ↦ ?_) fun hsingleMark ↦ ?_
  · refine turns_quote hrest hfar (hquote (.inl hc)).1 ?_ (hquote (.inl hc)).2
      (by simp [Context.enter])
    unfold opened
    split <;> simp_all
  refine .ite (fun hc ↦ ?_) fun hdoubleMark ↦ ?_
  · refine turns_quote hrest hfar (hquote (.inr hc)).1 ?_ (hquote (.inr hc)).2
      (by simp [Context.doubleQuotation])
    unfold opened
    split <;> simp_all
  refine .ite (fun hvariable ↦ ?_) fun hvariable ↦ ?_
  · refine .ite (fun hc ↦ turns_pop hrest hfar (by rw [hvariable, hc]; rfl)) fun hc ↦ ?_
    exact turns_literal hrest hfar (by simp [hvariable, closing, Ne.symm hc])
      (by simp [opened, hvariable, hsingleMark, hdoubleMark])
      (by simp [isLiteral, hvariable, hspecial])
  · exact turns_readPlain hrest hfar hspecial ⟨hsingleMark, hdoubleMark⟩
      ⟨hsingle, hdouble, hvariable⟩

end Characters

/-- Reading a character passes some, goes back, or rewrites a backquoted command. -/
theorem Turns.moves {next : Scan} (h : Turns scan next) : Moves find scan next := by
  cases h with
  | read _ count hclears => exact .passed count hclears rfl fun _ hsave ↦ .inl hsave
  | guessed _ _ hclears =>
    refine .passed 3 hclears rfl fun save hsave ↦ ?_
    rcases List.mem_cons.mp hsave with rfl | hold
    · exact .inr rfl
    · exact .inl hold
  | confirmed _ _ hclears _ hsaves =>
    refine .passed 2 hclears rfl fun save hsave ↦ .inl ?_
    rw [hsaves]
    exact List.mem_cons_of_mem _ hsave
  | abandoned _ _ _ _ hsaves =>
    refine .returned ?_ fun save hsave ↦ ?_
    · rw [hsaves]
      exact List.mem_cons_self
    · rw [hsaves]
      exact List.mem_cons_of_mem _ hsave
  | unquoted _ hrest _ hopen => exact .unquoted hrest hopen

/-! ### Steps and runs -/

/-- In front of the next macro a step reads a character. -/
theorem step_eq_read (find : Finder) {c : Char} {rest : List Char} {found : Occurrence}
    (hrest : scan.rest = c :: rest) (hnext : scan.next = some found) (hgap : 0 < found.gap) :
    scan.step find = scan.read c := by
  unfold step
  rw [hrest, hnext]
  dsimp only
  rw [if_neg (by omega), if_neg (by omega)]

/-- At `$(` without a second parenthesis a step enters a command substitution. -/
theorem step_of_substitution (find : Finder) {behind : List Char} {found : Occurrence}
    (hcontext : scan.context.construct ≠ .singleQuote) (hrest : scan.rest = '$' :: '(' :: behind)
    (hbehind : behind.head? ≠ some '(') (hnext : scan.next = some found) (hgap : 2 ≤ found.gap) :
    scan.step find = .more (scan.push 2 .substitution) := by
  have hreaches : ¬scan.reaches 2 = true := by
    simp only [reaches, hnext, decide_eq_true_eq]
    omega
  rw [step_eq_read find hrest hnext (by omega), read, if_neg hcontext, if_neg (by decide),
    if_pos rfl, readDollar, if_neg hreaches, hrest]
  cases behind with
  | nil => rfl
  | cons c rest =>
    have hc : c ≠ '(' := by simpa using hbehind
    simp only [List.cons.injEq, hc, false_and, imp_self, implies_true]

/-- What a step does to a scan. Without a macro ahead it reads on only where it may have to go
back. -/
inductive Advances (find : Finder) (scan : Scan) : Scan → Prop
  | substituted {found : Occurrence} (hnext : scan.next = some found) (hgap : found.gap = 0) :
    Advances find scan (scan.substitute find found)
  | turned {next : Scan} (hsaves : scan.next = none → scan.saves ≠ []) (h : Turns scan next) :
    Advances find scan next

/-- A step goes on in one of these ways, or the scan is at the end of its text or behind its last
macro. -/
theorem step_cases (find : Finder) (scan : Scan) :
    (scan.step find).Leads (Advances find scan) ∨
      scan.step find = .done scan ∧ (scan.rest = [] ∨ scan.next = none) := by
  have hread {c : Char} {rest : List Char} (hrest : scan.rest = c :: rest)
      (hfar : ∀ found, scan.next = some found → 1 ≤ found.gap)
      (hsaves : scan.next = none → scan.saves ≠ []) : (scan.read c).Leads (Advances find scan) :=
    (turns_read hrest hfar).imp fun _ ↦ .turned hsaves
  unfold step
  split
  · rename_i hrest
    exact .inr ⟨rfl, .inl hrest⟩
  · rename_i c rest hrest
    split
    · rename_i hnone
      split
      · exact .inr ⟨rfl, .inr hnone⟩
      · rename_i hsaves
        exact .inl (hread hrest (by simp [hnone]) fun _ ↦ by simpa using hsaves)
    · rename_i found hfound
      split
      · rename_i hgap
        exact .inl (Advances.substituted hfound hgap)
      · split
        · exact .inl trivial
        · refine .inl (hread hrest (fun other hother ↦ ?_) (by simp [hfound]))
          rw [hfound, Option.some.injEq] at hother
          subst hother
          omega

theorem advances_of_step {next : Scan} (h : scan.step find = .more next) :
    Advances find scan next := by
  rcases step_cases find scan with hleads | ⟨hdone, -⟩
  · rw [h] at hleads
    exact hleads
  · exact absurd (h.symm.trans hdone) (by simp)

theorem Advances.moves {next : Scan} (h : Advances find scan next) : Moves find scan next := by
  cases h with
  | substituted hnext hgap => exact .substituted hnext hgap
  | turned _ h => exact h.moves

theorem moves_of_step {next : Scan} (h : scan.step find = .more next) : Moves find scan next :=
  (advances_of_step h).moves

/-- A scan ends where it has come to. -/
theorem eq_of_step_eq_done {last : Scan} (h : scan.step find = .done last) : scan = last := by
  rcases step_cases find scan with hleads | ⟨hdone, -⟩
  · rw [h] at hleads
    exact hleads.elim
  · rw [hdone, Progress.done.injEq] at h
    exact h

/-- It ends at the end of its text, and behind its last macro if there is no place to go back to. -/
theorem step_eq_done_iff :
    scan.step find = .done scan ↔ scan.rest = [] ∨ scan.next = none ∧ scan.saves = [] := by
  constructor
  · intro hdone
    rcases step_cases find scan with hleads | ⟨-, hnil | hnone⟩
    · rw [hdone] at hleads
      exact hleads.elim
    · exact .inl hnil
    · cases hrest : scan.rest with
      | nil => exact .inl rfl
      | cons c rest =>
        cases hsaves : scan.saves with
        | nil => exact .inr ⟨hnone, rfl⟩
        | cons save saves =>
          have hstep : scan.step find = scan.read c := by
            unfold step
            rw [hrest, hnone, hsaves]
            rfl
          have hread := turns_read hrest (by simp [hnone])
          rw [← hstep, hdone] at hread
          exact hread.elim
  · unfold step
    rintro (hnil | ⟨hnone, hsaves⟩)
    · rw [hnil]
    · rw [hnone, hsaves]
      split <;> rfl

theorem run_eq (find : Finder) (scan : Scan) : scan.run find =
    match scan.step find with
    | .more next => next.run find
    | .done final => .done final
    | .failed failure => .failed failure
    | .underflow => .underflow := by
  rw [Scan.run]
  split <;> (rename_i h; rw [h])

theorem run_of_more {next : Scan} (h : scan.step find = .more next) :
    scan.run find = next.run find := by
  rw [run_eq, h]

theorem run_of_done {last : Scan} (h : scan.step find = .done last) :
    scan.run find = .done last := by
  rw [run_eq, h]

/-- What every step preserves holds where a scan ends. -/
theorem of_run {holds : Scan → Prop}
    (hadvances : ∀ scan next, holds scan → Advances find scan next → holds next) {last : Scan}
    (hrun : scan.run find = .done last) (hscan : holds scan) :
    holds last ∧ (last.rest = [] ∨ last.next = none ∧ last.saves = []) := by
  fun_induction Scan.run find scan with
  | case1 scan next hmore ih => exact ih hrun (hadvances scan next hscan (advances_of_step hmore))
  | case2 scan final hfinal =>
    cases hrun
    obtain rfl := eq_of_step_eq_done hfinal
    exact ⟨hscan, step_eq_done_iff.mp hfinal⟩
  | case3 | case4 => cases hrun

/-- What every move preserves holds where a scan ends. -/
theorem of_run_eq_done {holds : Scan → Prop}
    (hmoves : ∀ scan next, holds scan → Moves find scan next → holds next) {last : Scan}
    (hrun : scan.run find = .done last) (hscan : holds scan) :
    holds last ∧ (last.rest = [] ∨ last.next = none) := by
  obtain ⟨hlast, hend⟩ := of_run (fun scan next hholds hadvances ↦
    hmoves scan next hholds hadvances.moves) hrun hscan
  exact ⟨hlast, hend.imp_right And.left⟩

/-- The property holds at the place of the scan and at every place to go back to. -/
structure Everywhere (holds : Save → Prop) (scan : Scan) : Prop where
  place : holds scan.place
  saves : ∀ save ∈ scan.saves, holds save

theorem saves_of_openBackquote {next : Scan} (h : scan.openBackquote = .more next) :
    next.saves = scan.saves := by
  unfold openBackquote at h
  split at h <;> cases h
  rfl

/-- What putting in a macro, passing characters and rewriting a backquoted command preserve at the
place of a scan every move preserves everywhere. -/
theorem Everywhere.moves {holds : Save → Prop}
    (hsubstitute : ∀ (scan : Scan) found, holds scan.place → scan.next = some found →
      found.gap = 0 → holds (scan.substitute find found).place)
    (hskip : ∀ (scan : Scan) count, holds scan.place → scan.Clears count →
      holds (scan.skip count).place)
    (hunquote : ∀ (scan next : Scan) rest, holds scan.place → scan.rest = '`' :: rest →
      scan.openBackquote = .more next → holds next.place)
    {next : Scan} (h : scan.Everywhere holds) (hmoves : Moves find scan next) :
    next.Everywhere holds := by
  cases hmoves with
  | substituted hnext hgap => exact ⟨hsubstitute scan _ h.place hnext hgap, h.saves⟩
  | passed count hclears hplace hsaves =>
    have hnext : holds next.place := by
      rw [hplace]
      exact hskip scan count h.place hclears
    refine ⟨hnext, fun save hsave ↦ ?_⟩
    rcases hsaves save hsave with hold | rfl
    · exact h.saves save hold
    · exact hnext
  | returned hplace hsaves =>
    exact ⟨h.saves _ hplace, fun save hsave ↦ h.saves save (hsaves save hsave)⟩
  | unquoted hrest hopen =>
    refine ⟨hunquote scan next _ h.place hrest hopen, ?_⟩
    rw [saves_of_openBackquote hopen]
    exact h.saves

end Scan

/-- The expansion of a line with a macro is where its scan ends. -/
theorem expand_of_find {find : Finder} {text : List Char} {found : Occurrence}
    (h : find [] text = some found) :
    Macro.expand .unix find text =
      match (Scan.start text found).run find with
      | .done last => ⟨last.text, none, last.stack.length⟩
      | .failed failure => ⟨text, some failure, 0⟩
      | .underflow => ⟨text, some .nothingOpen, 0⟩ := by
  rw [Macro.expand, expand, h]
  dsimp only
  cases (Scan.start text found).run find <;> rfl

theorem expand_of_run_eq_done {find : Finder} {text : List Char} {found : Occurrence} {last : Scan}
    (hfind : find [] text = some found) (hrun : (Scan.start text found).run find = .done last) :
    Macro.expand .unix find text = ⟨last.text, none, last.stack.length⟩ := by
  rw [expand_of_find hfind, hrun]

end CommandLine.Macro.Unix
