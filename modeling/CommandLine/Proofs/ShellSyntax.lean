import CommandLine.Line
import CommandLine.Proofs.Unix.Comparison
import CommandLine.Proofs.Windows.Reading

/-!
What calls for a shell. Whether a shell interprets a character of a line is told by the quoting that
is in force where the character stands, and that by the characters in front of it alone; no words
are formed, and it does not matter how the line ends. A strict split finds something for a shell in
exactly the lines that hold such a character (`split_strict_eq_foundMeta_iff`).
-/

set_option autoImplicit false

namespace CommandLine

/-! ### Characters in their places -/

section Occurs

variable {σ : Type} {after : σ → Char → σ} {active : σ → Char → List Char → Bool}

/-- Somewhere in a text stands a character that is active there: in the state that the characters in
front of it lead to, with what is left of the text behind it. -/
def Occurs (after : σ → Char → σ) (active : σ → Char → List Char → Bool) (state : σ)
    (text : List Char) : Prop :=
  ∃ front c rest, text = front ++ c :: rest ∧ active (front.foldl after state) c rest = true

theorem not_occurs_nil (state : σ) : ¬Occurs after active state [] := by
  rintro ⟨front, c, rest, htext, -⟩
  simp at htext

theorem occurs_cons {state : σ} {c : Char} {rest : List Char} :
    Occurs after active state (c :: rest) ↔
      active state c rest = true ∨ Occurs after active (after state c) rest := by
  constructor
  · rintro ⟨front, d, behind, htext, hactive⟩
    cases front with
    | nil =>
      cases htext
      exact .inl hactive
    | cons first front =>
      cases htext
      exact .inr ⟨front, d, behind, rfl, hactive⟩
  · rintro (hactive | ⟨front, d, behind, rfl, hactive⟩)
    · exact ⟨[], c, rest, rfl, hactive⟩
    · exact ⟨c :: front, d, behind, rfl, hactive⟩

instance decidableOccurs :
    ∀ (state : σ) (text : List Char), Decidable (Occurs after active state text)
  | state, [] => .isFalse (not_occurs_nil state)
  | state, c :: rest =>
    have := decidableOccurs (after state c) rest
    decidable_of_iff (active state c rest = true ∨ Occurs after active (after state c) rest)
      occurs_cons.symm

end Occurs

namespace Unix

/-! ### The POSIX shell -/

/-- The quoting that is in force at a place of a line. -/
inductive Quoting
  /-- None, and a word may begin. -/
  | between
  /-- None, within a word. -/
  | word
  | escaped
  | single
  | double
  | escapedInDouble
  deriving DecidableEq, Repr

/-- A character that an unquoted place gives a meaning, other than to quote what follows. -/
def isOperator (c : Char) : Bool :=
  Dialect.unix.isMeta c && !(c == '\'' || c == '"' || c == '\\')

/-- What stands behind a tilde is the name of a user. -/
def namesUser (rest : List Char) : Bool :=
  rest.head?.any fun c ↦ !(Text.isBlank c || c == '/')

namespace Quoting

/-- The quoting behind a character. -/
def after : Quoting → Char → Quoting
  | between, c | word, c =>
    if Text.isBlank c then between
    else if c = '\'' then single
    else if c = '"' then double
    else if c = '\\' then escaped
    else word
  | escaped, _ => word
  | single, c => if c = '\'' then word else single
  | double, c => if c = '"' then word else if c = '\\' then escapedInDouble else double
  | escapedInDouble, _ => double

/-- A shell interprets a character: an operator that is not quoted, a tilde in front of the name of
a user at the beginning of a word, and what begins an expansion between double quotes. -/
def interprets : Quoting → Char → List Char → Bool
  | between, c, rest => isOperator c || c == '~' && namesUser rest
  | word, c, _ => isOperator c
  | double, c, _ => c == '$' || c == '`'
  | escaped, _, _ | single, _, _ | escapedInDouble, _, _ => false

/-- The mode in which a scanner comes to a place. -/
def mode : Quoting → Mode
  | between => .gap
  | word => .bare
  | escaped => .escape
  | single => .single
  | double => .double
  | escapedInDouble => .doubleEscape

end Quoting

namespace Reading

variable {reading : Reading} {mode next : Mode} {c : Char} {rest : List Char} {refusal : Refusal}

/-- A line is refused where its first character is. -/
theorem pieces_cons_of_error (h : (reading.step mode c).map Prod.snd = .error refusal)
    (rest : List Char) : reading.pieces mode (c :: rest) = .error refusal := by
  cases hstep : reading.step mode c with
  | error other =>
    rw [hstep] at h
    cases h
    simp [pieces, hstep, bind, Except.bind]
  | ok result =>
    rw [hstep] at h
    cases h

/-- A line is refused where it is behind its first character. -/
theorem pieces_cons_eq_error_iff (h : (reading.step mode c).map Prod.snd = .ok next) :
    reading.pieces mode (c :: rest) = .error refusal ↔
      reading.pieces next rest = .error refusal := by
  obtain ⟨⟨found, last⟩, hstep, rfl⟩ := Transducer.exists_of_map_eq_ok h
  rw [pieces_cons _ hstep]
  cases reading.pieces last rest <;> simp [Except.map]

variable {directory : Option (List Char)} {home : List Char}

/-- Outside of quotes a strict scan with nothing to expand refuses the operators. -/
theorem map_snd_bareStep (c : Char) :
    ((Reading.mk true ⟨none, directory, home⟩).bareStep c).map Prod.snd =
      if isOperator c then .error .foundMeta else .ok (Quoting.word.after c).mode := by
  by_cases hblank : Text.isBlank c = true
  · have hoperator : isOperator c = false := by
      rw [isOperator, Dialect.unix_isMeta_eq_false_of_isBlank hblank, Bool.false_and]
    simp [bareStep, hblank, hoperator, Quoting.after, Except.map, Quoting.mode]
  · by_cases hsingle : c = '\''
    · subst hsingle
      rfl
    · by_cases hdouble : c = '"'
      · subst hdouble
        rfl
      · by_cases hescape : c = '\\'
        · subst hescape
          rfl
        · cases hmeta : Dialect.unix.isMeta c <;>
            simp [bareStep, hblank, hsingle, hdouble, hescape, isOperator, hmeta, Quoting.after,
              Except.map, Quoting.mode, expands]

variable (rest directory home) in
/-- So it does elsewhere with what a shell interprets there. A tilde at the beginning of a word has
to wait for what follows. -/
theorem map_snd_step {quoting : Quoting} (htilde : ¬(quoting = .between ∧ c = '~')) :
    ((Reading.mk true ⟨none, directory, home⟩).step quoting.mode c).map Prod.snd =
      if quoting.interprets c rest then .error .foundMeta else .ok (quoting.after c).mode := by
  cases quoting with
  | between =>
    have hc : c ≠ '~' := fun hc ↦ htilde ⟨rfl, hc⟩
    have hstep : (Reading.mk true ⟨none, directory, home⟩).step Quoting.between.mode c =
        (Reading.mk true ⟨none, directory, home⟩).bareStep c := if_neg hc
    have hinterprets : Quoting.between.interprets c rest = isOperator c := by
      simp [Quoting.interprets, hc]
    rw [hstep, hinterprets, map_snd_bareStep]
    rfl
  | word => exact map_snd_bareStep c
  | escaped | escapedInDouble => rfl
  | single =>
    by_cases hc : c = '\'' <;>
      simp [Quoting.mode, step, hc, Quoting.interprets, Quoting.after, Except.map]
  | double =>
    by_cases hquote : c = '"'
    · subst hquote
      rfl
    · by_cases hescape : c = '\\'
      · subst hescape
        rfl
      · by_cases hactive : c = '$' ∨ c = '`' <;>
          simp [Quoting.mode, step, doubleStep, expands, hquote, hescape, hactive,
            Quoting.interprets, Quoting.after, Except.map]

/-- Behind a tilde a line is refused for the name of a user, or where it is without the tilde. -/
theorem pieces_tilde_eq_error_iff :
    (Reading.mk true ⟨none, directory, home⟩).pieces .tilde rest = .error .foundMeta ↔
      namesUser rest = true ∨
        (Reading.mk true ⟨none, directory, home⟩).pieces .bare rest = .error .foundMeta := by
  cases rest with
  | nil => simp [pieces, finish, namesUser]
  | cons c rest =>
    by_cases hend : Text.isBlank c = true ∨ c = '/'
    · have hname : namesUser (c :: rest) = false := by
        rcases hend with hblank | rfl <;> simp [namesUser, *]
      have hsame : ((Reading.mk true ⟨none, directory, home⟩).step .tilde c).map Prod.snd =
          ((Reading.mk true ⟨none, directory, home⟩).step .bare c).map Prod.snd := by
        simp only [step, if_pos hend, prepend]
        cases (Reading.mk true ⟨none, directory, home⟩).bareStep c <;> rfl
      rw [hname]
      simp only [Bool.false_eq_true, false_or]
      cases hstep : ((Reading.mk true ⟨none, directory, home⟩).step .bare c).map Prod.snd with
      | error refusal =>
        rw [pieces_cons_of_error hstep, pieces_cons_of_error (hsame.trans hstep)]
      | ok next =>
        rw [pieces_cons_eq_error_iff hstep, pieces_cons_eq_error_iff (hsame.trans hstep)]
    · have hname : namesUser (c :: rest) = true := by simpa [namesUser] using hend
      have hstep : ((Reading.mk true ⟨none, directory, home⟩).step .tilde c).map Prod.snd =
          .error .foundMeta := by
        simp [step, hend, Except.map]
      simp [hname, pieces_cons_of_error hstep]

variable (directory home) in
/-- From any place on, a strict scan with nothing to expand comes upon something for a shell exactly
if a character stands there that a shell interprets. -/
theorem pieces_eq_foundMeta_iff (quoting : Quoting) (line : List Char) :
    (Reading.mk true ⟨none, directory, home⟩).pieces quoting.mode line = .error .foundMeta ↔
      Occurs Quoting.after Quoting.interprets quoting line := by
  induction line generalizing quoting with
  | nil =>
    simp only [not_occurs_nil, iff_false]
    cases quoting <;> simp [pieces, finish, Quoting.mode]
  | cons c rest ih =>
    rw [occurs_cons]
    by_cases htilde : quoting = .between ∧ c = '~'
    · obtain ⟨rfl, rfl⟩ := htilde
      have hstep : ((Reading.mk true ⟨none, directory, home⟩).step .gap '~').map Prod.snd =
          .ok .tilde := rfl
      have hinterprets : Quoting.between.interprets '~' rest = namesUser rest := rfl
      rw [Quoting.mode, pieces_cons_eq_error_iff hstep, pieces_tilde_eq_error_iff, hinterprets]
      exact or_congr_right (ih .word)
    · have hstep := map_snd_step rest directory home htilde
      cases hinterprets : quoting.interprets c rest with
      | true =>
        rw [hinterprets, if_pos rfl] at hstep
        simp [pieces_cons_of_error hstep]
      | false =>
        rw [hinterprets, if_neg Bool.false_ne_true] at hstep
        rw [pieces_cons_eq_error_iff hstep, ih]
        simp

end Reading

end Unix

namespace Windows

/-! ### The command processor -/

namespace ShellMode

/-- The mode behind a character. -/
def behind (mode : ShellMode) (c : Char) : ShellMode :=
  if mode = .plain ∧ c = '^' then .escaped else mode.after c

/-- The command processor interprets what stands neither between double quotes nor behind a
circumflex. -/
def interprets (mode : ShellMode) (c : Char) (_ : List Char) : Bool :=
  mode == .plain && Dialect.windows.isMeta c

end ShellMode

/-- The command processor refuses a line for what it interprets, and for nothing else. -/
theorem receivedFrom_eq_error_iff {mode : ShellMode} {line : List Char} {refusal : Refusal} :
    receivedFrom mode line = .error refusal ↔
      refusal = .foundMeta ∧ Occurs ShellMode.behind ShellMode.interprets mode line := by
  have hmap {result : Except Refusal (List Char)} {c : Char} :
      result.map (c :: ·) = .error refusal ↔ result = .error refusal := by
    cases result <;> simp [Except.map]
  fun_induction receivedFrom mode line with
  | case1 mode => simp [not_occurs_nil]
  | case2 rest ih =>
    simp [ih, occurs_cons, ShellMode.interprets, ShellMode.behind, Dialect.isMeta,
      Dialect.metaChars]
  | case3 rest _ ih =>
    simp [hmap, ih, occurs_cons, ShellMode.interprets, ShellMode.behind, ShellMode.after,
      Dialect.isMeta, Dialect.metaChars]
  | case4 c rest hcircumflex hquote hmeta =>
    simp [occurs_cons, ShellMode.interprets, hmeta, eq_comm]
  | case5 c rest hcircumflex hquote hmeta ih =>
    simp [hmap, ih, occurs_cons, ShellMode.interprets, ShellMode.behind, ShellMode.after, hmeta,
      hcircumflex, hquote]
  | case6 c rest ih =>
    simp [hmap, ih, occurs_cons, ShellMode.interprets, ShellMode.behind, ShellMode.after]
  | case7 c rest ih =>
    simp [hmap, ih, occurs_cons, ShellMode.interprets, ShellMode.behind, ShellMode.after]

theorem arguments_ne_foundMeta (line : List Char) : arguments line ≠ .error .foundMeta := by
  rw [arguments_eq, Runtime.pieces, Runtime.finish]
  split <;> simp [Except.map]

theorem received_bind_arguments_eq_foundMeta_iff (line : List Char) :
    (received line >>= arguments) = .error .foundMeta ↔
      Occurs ShellMode.behind ShellMode.interprets .plain (dropEcho line) := by
  cases hreceived : received line with
  | error refusal =>
    obtain ⟨rfl, hoccurs⟩ := receivedFrom_eq_error_iff.mp hreceived
    simp [bind, Except.bind, hoccurs]
  | ok passed =>
    have hnone : ¬Occurs ShellMode.behind ShellMode.interprets .plain (dropEcho line) := by
      intro hoccurs
      rw [received, receivedFrom_eq_error_iff.mpr ⟨rfl, hoccurs⟩] at hreceived
      cases hreceived
    simp [bind, Except.bind, hnone, arguments_ne_foundMeta]

end Windows

namespace Dialect

/-- A line holds something that only a shell can interpret. On Windows that is every percent sign,
and in front of the rest of the line an at sign means nothing. -/
def CallsForShell (line : List Char) : Dialect → Prop
  | unix => Occurs Unix.Quoting.after Unix.Quoting.interprets .between line
  | windows =>
    '%' ∈ line ∨
      Occurs Windows.ShellMode.behind Windows.ShellMode.interprets .plain (Windows.dropEcho line)

instance (line : List Char) : ∀ dialect, Decidable (CallsForShell line dialect)
  | unix => decidableOccurs ..
  | windows => inferInstanceAs (Decidable ('%' ∈ line ∨ _))

/-- With nothing to expand, a strict split finds something for a shell in exactly the lines that
hold a character which a shell interprets where it stands. -/
theorem split_strict_eq_foundMeta_iff (dialect : Dialect) (directory : Option (List Char))
    (home line : List Char) :
    dialect.split true ⟨none, directory, home⟩ line = .error .foundMeta ↔
      CallsForShell line dialect := by
  cases dialect with
  | unix =>
    have hpieces := Unix.Reading.pieces_eq_foundMeta_iff directory home .between line
    rw [CallsForShell, ← hpieces, split, Unix.split, Unix.Quoting.mode]
    cases (Unix.Reading.mk true ⟨none, directory, home⟩).pieces .gap line <;> simp [Except.map]
  | windows =>
    rw [CallsForShell, ← Windows.received_bind_arguments_eq_foundMeta_iff, split,
      Windows.split_strict_eq]
    split <;> simp [*]

end Dialect

end CommandLine
