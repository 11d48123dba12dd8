import CommandLine.Context
import CommandLine.Cursor.Found
import CommandLine.Rescan

/-!
The next argument of a line for a POSIX shell. Nothing is expanded: an argument that holds a
variable or a substitution is not simple. Quoting errors and characters that end the command end
the arguments too.
-/

set_option autoImplicit false

namespace CommandLine.Cursor.Unix

/-- A scan for one argument: what is left, the value so far in reverse order, what is open, from the
inside out, and the rests behind each place where arithmetic was opened. -/
structure Scan where
  rest : List Char
  value : List Char
  context : Context
  stack : List Context
  saves : List (List Char)
  inWord : Bool
  simple : Bool

/-- What one step of a scan leads to. An incomplete argument breaks off at the end of the line. -/
inductive Progress
  | more (scan : Scan)
  | ended (scan : Scan) (complete : Bool)
  /-- A context or a place to go back to was taken from an empty stack. -/
  | underflow

/-- An unquoted character that ends the command. -/
def endsCommand (c : Char) : Bool := c == '<' || c == '>' || c == '&' || c == '|' || c == ';'

/-- What follows the closing mark of a backquoted command. -/
def afterBackquote : List Char → Option (List Char)
  | [] => none
  | '`' :: rest => some rest
  | '\\' :: _ :: rest => afterBackquote rest
  | _ :: rest => afterBackquote rest

namespace Scan

/-- Takes characters into the value. -/
def take (scan : Scan) (reversed rest : List Char) : Scan :=
  { scan with rest := rest, value := reversed ++ scan.value, inWord := true }

/-- Moves on to a rest. -/
def skip (scan : Scan) (rest : List Char) : Scan := { scan with rest := rest }

/-- Opens a quotation. -/
def quote (scan : Scan) (context : Context) (rest : List Char) : Scan :=
  { scan with
    rest := rest, context := context, stack := scan.context :: scan.stack, inWord := true }

/-- Moves over something whose value is not known. -/
def unknown (scan : Scan) (rest : List Char) : Scan :=
  { scan with rest := rest, inWord := true, simple := false }

/-- Opens a construct whose value is not known. -/
def push (scan : Scan) (context : Context) (rest : List Char) : Scan :=
  { scan.unknown rest with context := context, stack := scan.context :: scan.stack }

/-- Closes the context. -/
def pop (scan : Scan) (rest : List Char) : Progress :=
  match scan.stack with
  | [] => .underflow
  | context :: stack => .more { scan with rest := rest, context := context, stack := stack }

/-- Closes arithmetic. -/
def closeArithmetic (scan : Scan) (rest : List Char) : Progress :=
  match scan.saves with
  | [] => .underflow
  | _ :: saves => { scan with saves := saves }.pop rest

/-- Goes back behind the last `$((`, which opens a substitution and a parenthesis instead. -/
def reopen (scan : Scan) : Progress :=
  match scan.saves with
  | [] => .underflow
  | save :: saves =>
    .more
      { scan with
        rest := save, context := .subshell, stack := .substitution :: scan.stack, saves := saves }

/-- A backslash inside a double quotation is part of the value unless one of these follows. -/
def keepsBackslash (scan : Scan) (c : Char) : Bool :=
  scan.context.quoted && !(c == '"' || c == '\\' || c == '$' || c == '`')

/-- Reads what follows a backslash. -/
def readEscaped (scan : Scan) : List Char → Progress
  | [] => .ended (scan.skip []) false
  | c :: rest =>
    .more (scan.take (if scan.keepsBackslash c then [c, '\\'] else [c]) rest)

/-- Reads what follows a dollar sign. At the end of the line it is literal. -/
def readDollar (scan : Scan) : List Char → Progress
  | [] => .more (scan.take ['$'] [])
  | '(' :: '(' :: rest =>
    let inside := scan.push (scan.context.enter .arithmetic) rest
    .more { inside with saves := rest :: scan.saves }
  | '(' :: rest => .more (scan.push .substitution rest)
  | '{' :: rest => .more (scan.push (scan.context.enter .variableSubstitution) rest)
  | rest => .more (scan.unknown rest)

/-- Reads a backquoted command from behind its opening mark. -/
def readBackquote (scan : Scan) (rest : List Char) : Progress :=
  match afterBackquote rest with
  | none => .ended (scan.skip []) false
  | some rest => .more (scan.unknown rest)

/-- Reads a closing parenthesis outside of quotes. -/
def readParenthesis (scan : Scan) (rest : List Char) : Progress :=
  match scan.context.construct with
  | .arithmetic =>
    match rest with
    | [] => .ended (scan.skip []) true
    | ')' :: rest => scan.closeArithmetic rest
    | _ => scan.reopen
  | .parenthesis | .commandSubstitution => scan.pop rest
  | _ => .ended scan true

/-- Reads a character outside of quotations and variable substitutions. -/
def readPlain (scan : Scan) (c : Char) (rest : List Char) : Progress :=
  if c = ')' then scan.readParenthesis rest
  else if c = '(' then .more (scan.push (scan.context.enter .parenthesis) rest)
  else if endsCommand c && scan.stack.isEmpty then .ended scan true
  else if c = ' ' ∨ c = '\t' then
    if !scan.inWord then .more (scan.skip rest)
    else if scan.stack.isEmpty then .ended scan true
    else .more (scan.take [c] rest)
  else .more (scan.take [c] rest)

/-- Reads a character. -/
def read (scan : Scan) (c : Char) (rest : List Char) : Progress :=
  if scan.context.construct = .singleQuote then
    if c = '\'' then scan.pop rest else .more (scan.take [c] rest)
  else if c = '\\' then scan.readEscaped rest
  else if c = '$' then scan.readDollar rest
  else if c = '`' then scan.readBackquote rest
  else if scan.context.construct = .doubleQuote then
    if c = '"' then scan.pop rest else .more (scan.take [c] rest)
  else if c = '\'' then
    .more (if scan.context.quoted then scan.take [c] rest
      else scan.quote (scan.context.enter .singleQuote) rest)
  else if c = '"' then
    .more (if scan.context.quoted then scan.take [c] rest else scan.quote .doubleQuotation rest)
  else if scan.context.construct = .variableSubstitution then
    if c = '}' then scan.pop rest else .more (scan.skip rest)
  else scan.readPlain c rest

/-- One step of a scan. -/
def step (scan : Scan) : Progress :=
  match scan.rest with
  | [] => .ended scan true
  | c :: rest => scan.read c rest

/-! ### Every scan ends, and what it finds takes up characters -/

/-- The weight of a scan, which every step makes smaller. -/
def weight (scan : Scan) : Nat := Rescan.weight scan.rest.length (scan.saves.map List.length)

/-- How a scan relates to the one it comes from: less is left, or a place that was kept is gone back
to, and places that are kept lie further on. -/
structure Follows (scan next : Scan) : Prop where
  rest : (next.rest.length < scan.rest.length ∧
      ∀ save ∈ next.saves, save ∈ scan.saves ∨ save.length < scan.rest.length) ∨
    scan.saves = next.rest :: next.saves
  weight : next.weight < scan.weight

theorem follows_of_length_lt {scan next : Scan} (hrest : next.rest.length < scan.rest.length)
    (hsaves : next.saves = scan.saves) : Follows scan next := by
  refine ⟨.inl ⟨hrest, fun save hsave ↦ .inl (hsaves ▸ hsave)⟩, ?_⟩
  rw [weight, weight, hsaves]
  exact Rescan.weight_lt hrest

theorem length_afterBackquote {text rest : List Char} (h : afterBackquote text = some rest) :
    rest.length < text.length := by
  fun_induction afterBackquote text with
  | case1 => simp at h
  | case2 => simp at h; simp [h]
  | case3 c text ih => have := ih h; simp only [List.length_cons]; omega
  | case4 c text _ _ ih => have := ih h; simp only [List.length_cons]; omega

section

variable {scan next : Scan} {c : Char} {rest : List Char}

theorem follows_pop (hscan : rest.length < scan.rest.length) (h : scan.pop rest = .more next) :
    Follows scan next := by
  unfold pop at h
  split at h <;> cases h
  exact follows_of_length_lt hscan rfl

theorem follows_closeArithmetic (hscan : rest.length < scan.rest.length)
    (h : scan.closeArithmetic rest = .more next) : Follows scan next := by
  unfold closeArithmetic at h
  split at h
  · cases h
  · rename_i save saves hsaves
    unfold pop at h
    split at h <;> cases h
    refine ⟨.inl ⟨hscan, fun save hsave ↦ .inl ?_⟩, ?_⟩
    · rw [hsaves]
      exact List.mem_cons_of_mem _ hsave
    · simp only [weight, hsaves, List.map_cons]
      exact Rescan.weight_lt_of_drop hscan

theorem follows_reopen (h : scan.reopen = .more next) : Follows scan next := by
  unfold reopen at h
  split at h
  · cases h
  · rename_i save saves hsaves
    cases h
    refine ⟨.inr hsaves, ?_⟩
    simp only [weight, hsaves, List.map_cons]
    exact Rescan.weight_lt_of_back

theorem follows_readEscaped (hscan : scan.rest = c :: rest)
    (h : scan.readEscaped rest = .more next) : Follows scan next := by
  unfold readEscaped at h
  split at h <;> cases h
  exact follows_of_length_lt (by simp only [take, hscan, List.length_cons]; omega) rfl

theorem follows_readDollar (hscan : scan.rest = c :: rest)
    (h : scan.readDollar rest = .more next) : Follows scan next := by
  unfold readDollar at h
  split at h <;> cases h
  · exact follows_of_length_lt (by simp [take, hscan]) rfl
  · rename_i rest
    have hlength : scan.rest.length = rest.length + 3 := by simp [hscan]
    refine ⟨.inl ⟨by simp only [push, unknown]; omega, fun save hsave ↦ ?_⟩, ?_⟩
    · rcases List.mem_cons.mp hsave with rfl | hsave
      · exact .inr (by omega)
      · exact .inl hsave
    · simp only [weight, push, unknown, List.map_cons]
      exact Rescan.weight_lt_of_keep (by omega)
  · exact follows_of_length_lt (by simp only [push, unknown, hscan, List.length_cons]; omega) rfl
  · exact follows_of_length_lt (by simp only [push, unknown, hscan, List.length_cons]; omega) rfl
  · exact follows_of_length_lt (by simp [unknown, hscan]) rfl

theorem follows_readBackquote (hscan : scan.rest = c :: rest)
    (h : scan.readBackquote rest = .more next) : Follows scan next := by
  unfold readBackquote at h
  split at h <;> cases h
  rename_i hafter
  have := length_afterBackquote hafter
  exact follows_of_length_lt (by simp only [unknown, hscan, List.length_cons]; omega) rfl

theorem follows_readParenthesis (hscan : scan.rest = c :: rest)
    (h : scan.readParenthesis rest = .more next) : Follows scan next := by
  unfold readParenthesis at h
  split at h
  · split at h
    · cases h
    · exact follows_closeArithmetic (by simp only [hscan, List.length_cons]; omega) h
    · exact follows_reopen h
  · exact follows_pop (by simp [hscan]) h
  · exact follows_pop (by simp [hscan]) h
  · cases h

theorem follows_readPlain (hscan : scan.rest = c :: rest)
    (h : scan.readPlain c rest = .more next) : Follows scan next := by
  have hless : rest.length < scan.rest.length := by simp [hscan]
  unfold readPlain at h
  repeat' split at h
  · exact follows_readParenthesis hscan h
  all_goals cases h
  all_goals exact follows_of_length_lt hless rfl

theorem follows_read (hscan : scan.rest = c :: rest) (h : scan.read c rest = .more next) :
    Follows scan next := by
  have hless : rest.length < scan.rest.length := by simp [hscan]
  unfold read at h
  repeat' split at h
  all_goals first
    | exact follows_pop hless h
    | exact follows_readEscaped hscan h
    | exact follows_readDollar hscan h
    | exact follows_readBackquote hscan h
    | exact follows_readPlain hscan h
    | cases h
  all_goals exact follows_of_length_lt hless rfl

theorem follows_step (h : scan.step = .more next) : Follows scan next := by
  unfold step at h
  split at h
  · cases h
  · rename_i c rest hscan
    exact follows_read hscan h

end

theorem rest_of_ended {scan final : Scan} {complete : Bool}
    (h : scan.step = .ended final complete) :
    final.inWord = scan.inWord ∧ (final.rest = scan.rest ∨ final.rest = [] ∧ scan.rest ≠ []) := by
  unfold step at h
  split at h
  · cases h
    exact ⟨rfl, .inl rfl⟩
  · rename_i c rest hscan
    have hpop : ∀ {scan final : Scan} {rest : List Char} {complete : Bool},
        scan.pop rest ≠ .ended final complete := by
      intro scan final rest complete
      unfold pop
      split <;> simp
    unfold read at h
    repeat' split at h
    all_goals first
      | cases h
      | exact absurd h hpop
      | unfold readEscaped at h
        split at h <;> cases h
        exact ⟨rfl, .inr ⟨rfl, by simp [hscan]⟩⟩
      | unfold readDollar at h
        split at h <;> cases h
      | unfold readBackquote at h
        split at h <;> cases h
        exact ⟨rfl, .inr ⟨rfl, by simp [hscan]⟩⟩
      | unfold readPlain readParenthesis at h
        repeat' split at h
        all_goals first
          | exact absurd h hpop
          | unfold closeArithmetic at h
            split at h <;> first | cases h | exact absurd h hpop
          | unfold reopen at h
            split at h <;> cases h
          | cases h <;> first
            | exact ⟨rfl, .inl rfl⟩
            | exact ⟨rfl, .inr ⟨rfl, by simp [hscan]⟩⟩

/-- The scan at which a run ends, and whether it is complete. -/
def run (scan : Scan) : Option (Scan × Bool) :=
  match _h : scan.step with
  | .more next => run next
  | .ended scan complete => some (scan, complete)
  | .underflow => none
termination_by scan.weight
decreasing_by exact (follows_step _h).weight

/-- A run that comes upon a word has moved on. -/
theorem length_run {scan final : Scan} {complete : Bool} {bound : Nat}
    (hrest : scan.rest.length ≤ bound) (hword : scan.inWord = true → scan.rest.length < bound)
    (hsaves : ∀ save ∈ scan.saves, save.length < bound) (h : scan.run = some (final, complete)) :
    final.rest.length ≤ bound ∧ (final.inWord = true → final.rest.length < bound) := by
  fun_induction run scan with
  | case1 scan next hstep ih =>
    have hnext : next.rest.length < bound ∧ ∀ save ∈ next.saves, save.length < bound := by
      rcases (follows_step hstep).rest with ⟨hless, hkept⟩ | hback
      · refine ⟨by omega, fun save hsave ↦ ?_⟩
        rcases hkept save hsave with hold | hnew
        · exact hsaves save hold
        · omega
      · rw [hback] at hsaves
        exact ⟨hsaves _ (List.mem_cons_self ..),
          fun save hsave ↦ hsaves save (List.mem_cons_of_mem _ hsave)⟩
    exact ih (Nat.le_of_lt hnext.1) (fun _ ↦ hnext.1) hnext.2 h
  | case2 scan found complete hstep =>
    cases h
    obtain ⟨hinWord, hsame | ⟨hnil, hne⟩⟩ := rest_of_ended hstep
    · rw [hsame, hinWord]
      exact ⟨hrest, hword⟩
    · have := List.length_pos_iff.mpr hne
      rw [hnil]
      exact ⟨Nat.zero_le _, fun _ ↦ by simp only [List.length_nil]; omega⟩
  | case3 => cases h

/-- A scan that starts at the head of a text. -/
def start (text : List Char) : Scan := ⟨text, [], .basic, [], [], false, true⟩

end Scan

/-- Finds the next argument of a text. -/
def next (text : List Char) : Found :=
  match (Scan.start text).run with
  | some (scan, complete) =>
    let closed := complete && scan.stack.isEmpty
    ⟨closed && scan.inWord, scan.rest, if closed && scan.simple then scan.value.reverse else [],
      scan.simple⟩
  | none => ⟨false, [], [], true⟩

/-- An argument takes up characters of the text. -/
theorem length_next {text : List Char} (h : (next text).success = true) :
    (next text).rest.length < text.length := by
  unfold next at h ⊢
  split
  · rename_i scan complete hrun
    simp only [hrun, Bool.and_eq_true] at h
    exact (Scan.length_run (Nat.le_refl _) (by simp [Scan.start]) (by simp [Scan.start]) hrun).2 h.2
  · rename_i hrun
    simp [hrun] at h

end CommandLine.Cursor.Unix
