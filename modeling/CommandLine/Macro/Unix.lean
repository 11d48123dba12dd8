import CommandLine.Context
import CommandLine.Macro.Failure
import CommandLine.Macro.Finder
import CommandLine.Rescan

/-!
Putting macros into a line for a POSIX shell. A scan walks over the line with a model of what the
shell has open, and writes each value so that it stays literal in its context. Two things make the
scan more than a walk: a backquoted command becomes a substitution before it is scanned,
and where `$((` turns out not to open arithmetic the scan goes back to it.
-/

set_option autoImplicit false

namespace CommandLine.Macro.Unix

/-- A part of the finished text: a character of the line, or a value. -/
inductive Fragment
  | literal (c : Char)
  | inserted (protection : Protection) (value : List Char)
  deriving DecidableEq, Repr

def Fragment.text : Fragment → List Char
  | literal c => [c]
  | inserted protection value => protection.apply value

/-- The text of fragments in reverse order. -/
def textOf (reversed : List Fragment) : List Char := reversed.reverse.flatMap Fragment.text

/-- A place to go back to: what is finished there, what is left, and the macro ahead. -/
structure Save where
  finished : List Fragment
  rest : List Char
  next : Option Occurrence

/-- A scan: what is finished, in reverse order, what is left, the macro ahead, what is open, from
the inside out, and the places where arithmetic was opened. -/
structure Scan where
  finished : List Fragment
  rest : List Char
  next : Option Occurrence
  context : Context
  stack : List Context
  saves : List Save

/-- What one step of a scan leads to. -/
inductive Progress
  | more (scan : Scan)
  | done (scan : Scan)
  | failed (failure : Failure)
  /-- A context or a place to go back to was taken from an empty stack. -/
  | underflow

namespace Scan

/-- The text that the scan has come to. -/
def text (scan : Scan) : List Char := textOf scan.finished ++ scan.rest

/-- The position of the scan in its text. -/
def offset (scan : Scan) : Nat := (textOf scan.finished).length

/-- Moves over characters that stay as they are. -/
def skip (scan : Scan) (count : Nat) : Scan :=
  { scan with
    finished := (scan.rest.take count).reverse.map .literal ++ scan.finished
    rest := scan.rest.drop count
    next := scan.next.map (·.nearer count) }

/-- Moves over characters that open a context. -/
def push (scan : Scan) (count : Nat) (context : Context) : Scan :=
  { scan.skip count with context := context, stack := scan.context :: scan.stack }

/-- Moves over characters that close the context. -/
def pop (scan : Scan) (count : Nat) : Progress :=
  match scan.stack with
  | [] => .underflow
  | context :: stack => .more { scan.skip count with context := context, stack := stack }

/-- The macro ahead starts less than `count` characters further on. -/
def reaches (scan : Scan) (count : Nat) : Bool :=
  match scan.next with
  | some found => found.gap < count
  | none => false

/-- Writes the value of the macro that starts here, and looks for the next one. -/
def substitute (find : Finder) (scan : Scan) (found : Occurrence) : Scan :=
  let finished := .inserted (.inContext scan.context) found.value :: scan.finished
  let rest := scan.rest.drop found.length
  { scan with finished := finished, rest := rest, next := find (textOf finished) rest }

/-- Opens arithmetic, and keeps the place behind `$((`. -/
def openArithmetic (scan : Scan) : Scan :=
  let inside := scan.push 3 (scan.context.enter .arithmetic)
  { inside with saves := ⟨inside.finished, inside.rest, inside.next⟩ :: scan.saves }

/-- Closes arithmetic at `))`. -/
def closeArithmetic (scan : Scan) : Progress :=
  match scan.saves with
  | [] => .underflow
  | _ :: saves => { scan with saves := saves }.pop 2

/-- Goes back to the last `$((`, which opens a substitution and a parenthesis instead. -/
def reopen (scan : Scan) : Progress :=
  match scan.saves with
  | [] => .underflow
  | save :: saves =>
    .more
      { finished := save.finished, rest := save.rest, next := save.next
        context := .subshell, stack := .substitution :: scan.stack, saves := saves }

/-- A backslash before one of these is taken away when a backquoted command is read. -/
def isUnescaped (quoted : Bool) (c : Char) : Bool :=
  c == '$' || c == '`' || c == '\\' || (quoted && c == '"')

/-- A backquoted command from behind its opening mark: the command without the escapes that the
backquotes call for, what follows the closing mark, and where backslashes were taken away. -/
def unescaped (quoted : Bool) (index : Nat) :
    List Char → Option (List Char × List Char × List Nat)
  | [] => none
  | '`' :: after => some ([], after, [])
  | '\\' :: c :: rest =>
    (unescaped quoted (index + 2) rest).map fun (body, after, removed) ↦
      if isUnescaped quoted c then (c :: body, after, index :: removed)
      else ('\\' :: c :: body, after, removed)
  | c :: rest =>
    (unescaped quoted (index + 1) rest).map fun (body, after, removed) ↦ (c :: body, after, removed)

/-- Turns the backquoted command that starts here into a substitution and enters it. The blank
keeps a parenthesis that follows from opening arithmetic. -/
def openBackquote (scan : Scan) : Progress :=
  match unescaped scan.context.quoted 0 (scan.rest.drop 1) with
  | none => .failed .unterminatedBackquote
  | some (body, after, removed) =>
    .more
      { scan with
        finished := [.literal ' ', .literal '(', .literal '$'] ++ scan.finished
        rest := body ++ ')' :: after
        next := scan.next.map fun found ↦
          let ahead := found.nearer 1
          ahead.nearer (removed.filter fun (index : Nat) ↦ (index : Int) < ahead.gap).length
        context := .substitution
        stack := scan.context :: scan.stack }

/-- A dollar sign and what it opens. -/
def readDollar (scan : Scan) : Progress :=
  if scan.reaches 2 then .failed .afterDollar
  else
    match scan.rest with
    | _ :: '(' :: '(' :: _ => .more scan.openArithmetic
    | _ :: '(' :: _ => .more (scan.push 2 .substitution)
    | _ :: '{' :: _ => .more (scan.push 2 (scan.context.enter .variableSubstitution))
    | _ => .more (scan.skip 1)

/-- A closing parenthesis outside of quotes. -/
def readParenthesis (scan : Scan) : Progress :=
  match scan.context.construct with
  | .arithmetic => if scan.rest[1]? = some ')' then scan.closeArithmetic else scan.reopen
  | .parenthesis | .commandSubstitution => scan.pop 1
  | _ => .failed (.unbalanced ')' scan.offset)

/-- A character outside of quotations and variable substitutions. -/
def readPlain (scan : Scan) (c : Char) : Progress :=
  if c = ')' then scan.readParenthesis
  else if c = '}' then
    if scan.context.construct = .brace then scan.pop 1
    else .failed (.unbalanced '}' scan.offset)
  else if c = '(' then .more (scan.push 1 (scan.context.enter .parenthesis))
  else if c = '{' then .more (scan.push 1 (scan.context.enter .brace))
  else .more (scan.skip 1)

/-- Reads the character at the scan's place. -/
def read (scan : Scan) (c : Char) : Progress :=
  if scan.context.construct = .singleQuote then
    if c = '\'' then scan.pop 1 else .more (scan.skip 1)
  else if c = '\\' then
    if scan.reaches 2 then .failed .afterBackslash else .more (scan.skip 2)
  else if c = '$' then scan.readDollar
  else if c = '`' then scan.openBackquote
  else if scan.context.construct = .doubleQuote then
    if c = '"' then scan.pop 1 else .more (scan.skip 1)
  else if c = '\'' then
    .more (if scan.context.quoted then scan.skip 1
      else scan.push 1 (scan.context.enter .singleQuote))
  else if c = '"' then
    .more (if scan.context.quoted then scan.skip 1 else scan.push 1 .doubleQuotation)
  else if scan.context.construct = .variableSubstitution then
    if c = '}' then scan.pop 1 else .more (scan.skip 1)
  else scan.readPlain c

/-- One step of a scan. Without a macro ahead the scan goes on only to settle whether `$((` opens
arithmetic. -/
def step (find : Finder) (scan : Scan) : Progress :=
  match scan.rest with
  | [] => .done scan
  | c :: _ =>
    match scan.next with
    | none => if scan.saves.isEmpty then .done scan else scan.read c
    | some found =>
      if found.gap = 0 then .more (scan.substitute find found)
      else if found.gap < 0 then .failed (.insideToken (scan.offset + found.gap).toNat)
      else scan.read c

/-! ### Every scan ends -/

/-- The weight of a scan, which every step makes smaller. -/
def weight (scan : Scan) : Nat :=
  Rescan.weight scan.rest.length (scan.saves.map fun save ↦ save.rest.length)

theorem length_unescaped {quoted : Bool} {index : Nat} {text body after : List Char}
    {removed : List Nat} (h : unescaped quoted index text = some (body, after, removed)) :
    body.length + after.length < text.length := by
  fun_induction unescaped quoted index text generalizing body after removed with
  | case1 => simp at h
  | case2 index rest =>
    simp only [Option.some.injEq, Prod.mk.injEq] at h
    obtain ⟨rfl, rfl, rfl⟩ := h
    simp
  | case3 index c rest ih =>
    obtain ⟨⟨body', after', removed'⟩, hfound, heq⟩ := Option.map_eq_some_iff.mp h
    have := ih hfound
    dsimp only at heq
    split at heq <;> cases heq <;> simp only [List.length_cons] <;> omega
  | case4 index c rest _ _ ih =>
    obtain ⟨⟨body', after', removed'⟩, hfound, heq⟩ := Option.map_eq_some_iff.mp h
    have := ih hfound
    cases heq
    simp only [List.length_cons]
    omega

/-- A scan with less left and the same saves weighs less. -/
theorem weight_lt {first second : Scan} (hrest : first.rest.length < second.rest.length)
    (hsaves : first.saves = second.saves) : first.weight < second.weight := by
  rw [weight, weight, hsaves]
  exact Rescan.weight_lt hrest

theorem weight_skip {scan : Scan} {count : Nat} (hcount : 0 < count) (hrest : scan.rest ≠ []) :
    (scan.skip count).weight < scan.weight := by
  have := List.length_pos_iff.mpr hrest
  exact weight_lt (by simp only [skip, List.length_drop]; omega) rfl

theorem weight_push {scan : Scan} {count : Nat} (context : Context) (hcount : 0 < count)
    (hrest : scan.rest ≠ []) : (scan.push count context).weight < scan.weight :=
  weight_skip hcount hrest

theorem weight_pop {scan next : Scan} {count : Nat} (hcount : 0 < count) (hrest : scan.rest ≠ [])
    (h : scan.pop count = .more next) : next.weight < scan.weight := by
  unfold pop at h
  split at h <;> cases h
  exact weight_skip hcount hrest

theorem weight_substitute (find : Finder) {scan : Scan} (found : Occurrence)
    (hrest : scan.rest ≠ []) : (scan.substitute find found).weight < scan.weight := by
  have := List.length_pos_iff.mpr hrest
  have := found.length_pos
  exact weight_lt (by simp only [substitute, List.length_drop]; omega) rfl

theorem weight_openArithmetic {scan : Scan} (hrest : 3 ≤ scan.rest.length) :
    scan.openArithmetic.weight < scan.weight := by
  simp only [openArithmetic, push, skip, weight, List.map_cons, List.length_drop]
  exact Rescan.weight_lt_of_keep (by omega)

theorem weight_closeArithmetic {scan next : Scan} (hrest : scan.rest ≠ [])
    (h : scan.closeArithmetic = .more next) : next.weight < scan.weight := by
  unfold closeArithmetic at h
  split at h
  · cases h
  · rename_i save saves hsaves
    have := List.length_pos_iff.mpr hrest
    unfold pop at h
    split at h <;> cases h
    simp only [skip, weight, hsaves, List.map_cons, List.length_drop]
    exact Rescan.weight_lt_of_drop (by omega)

theorem weight_reopen {scan next : Scan} (h : scan.reopen = .more next) :
    next.weight < scan.weight := by
  unfold reopen at h
  split at h
  · cases h
  · rename_i save saves hsaves
    cases h
    simp only [weight, hsaves, List.map_cons]
    exact Rescan.weight_lt_of_back

theorem weight_openBackquote {scan next : Scan} (h : scan.openBackquote = .more next) :
    next.weight < scan.weight := by
  unfold openBackquote at h
  split at h
  · cases h
  · rename_i body after removed hbody
    cases h
    have hlength := length_unescaped hbody
    refine weight_lt ?_ rfl
    simp only [List.length_append, List.length_cons, List.length_drop] at hlength ⊢
    omega

theorem weight_readDollar {scan next : Scan} (hrest : scan.rest ≠ [])
    (h : scan.readDollar = .more next) : next.weight < scan.weight := by
  unfold readDollar at h
  split at h
  · cases h
  · split at h
    · rename_i hscan
      cases h
      exact weight_openArithmetic (by simp [hscan])
    · cases h
      exact weight_push _ (by decide) hrest
    · cases h
      exact weight_push _ (by decide) hrest
    · cases h
      exact weight_skip (by decide) hrest

theorem weight_readParenthesis {scan next : Scan} (hrest : scan.rest ≠ [])
    (h : scan.readParenthesis = .more next) : next.weight < scan.weight := by
  unfold readParenthesis at h
  split at h
  · split at h
    · exact weight_closeArithmetic hrest h
    · exact weight_reopen h
  · exact weight_pop (by decide) hrest h
  · exact weight_pop (by decide) hrest h
  · cases h

theorem weight_readPlain {scan next : Scan} {c : Char} (hrest : scan.rest ≠ [])
    (h : scan.readPlain c = .more next) : next.weight < scan.weight := by
  unfold readPlain at h
  repeat' split at h
  · exact weight_readParenthesis hrest h
  · exact weight_pop (by decide) hrest h
  · cases h
  · cases h
    exact weight_push _ (by decide) hrest
  · cases h
    exact weight_push _ (by decide) hrest
  · cases h
    exact weight_skip (by decide) hrest

theorem weight_read {scan next : Scan} {c : Char} (hrest : scan.rest ≠ [])
    (h : scan.read c = .more next) : next.weight < scan.weight := by
  unfold read at h
  repeat' split at h
  all_goals first
    | exact weight_pop (by decide) hrest h
    | exact weight_readDollar hrest h
    | exact weight_openBackquote h
    | exact weight_readPlain hrest h
    | cases h <;> exact weight_skip (by decide) hrest

/-- Every step makes the scan lighter. -/
theorem weight_step {find : Finder} {scan next : Scan} (h : scan.step find = .more next) :
    next.weight < scan.weight := by
  unfold step at h
  split at h
  · cases h
  · rename_i c rest hscan
    have hrest : scan.rest ≠ [] := by simp [hscan]
    split at h
    · split at h
      · cases h
      · exact weight_read hrest h
    · split at h
      · cases h
        exact weight_substitute find _ hrest
      · split at h
        · cases h
        · exact weight_read hrest h

/-- Where a scan ends. -/
inductive Outcome
  | done (scan : Scan)
  | failed (failure : Failure)
  | underflow

/-- Scans to the end. -/
def run (find : Finder) (scan : Scan) : Outcome :=
  match _h : scan.step find with
  | .more next => run find next
  | .done scan => .done scan
  | .failed failure => .failed failure
  | .underflow => .underflow
termination_by scan.weight
decreasing_by exact weight_step _h

/-- The scan of a whole text with a macro ahead. -/
def start (text : List Char) (found : Occurrence) : Scan := ⟨[], text, some found, .basic, [], []⟩

end Scan

/-- The text with its macros put in, and the number of contexts open at its end. A text without a
macro stays as it is. -/
def expand (find : Finder) (text : List Char) : Except Failure (List Char × Nat) :=
  match find [] text with
  | none => .ok (text, 0)
  | some found =>
    match (Scan.start text found).run find with
    | .done scan => .ok (scan.text, scan.stack.length)
    | .failed failure => .error failure
    | .underflow => .error .nothingOpen

end CommandLine.Macro.Unix
