import CommandLine.Yaml.Source

/-!
Plain scalars. A plain scalar is a sequence of runs with gaps of blanks or line breaks between them;
a gap with line breaks is folded, and ends the scalar where the next line is not indented enough.
-/

set_option autoImplicit false

namespace CommandLine.Yaml.Plain

/-- A character that has a meaning of its own between items in brackets. -/
def isFlowSign (c : Char) : Bool :=
  c == ',' || c == '[' || c == ']' || c == '\x7b' || c == '\x7d'

/-- A character that starts a token of another kind, at least in front of a blank. -/
def isSign (c : Char) : Bool :=
  isFlowSign c ||
    ['-', '?', ':', '#', '&', '*', '!', '|', '>', '\'', '"', '%', '@', '`'].contains c

/-- A plain scalar starts with this character, in front of `rest`. -/
def starts (flow : Bool) (c : Char) (rest : List Char) : Bool :=
  !(isGap c || isSign c) ||
    (!isAt isGap rest && (c == '-' || (!flow && (c == '?' || c == ':'))))

/-- A run ends in front of this character, in front of `rest`. -/
def endsRun (flow : Bool) (c : Char) (rest : List Char) : Bool :=
  isGap c || (c == ':' && isAt (fun next ↦ isGap next || (flow && isFlowSign next)) rest) ||
    (flow && (isFlowSign c || c == '?'))

/-- The run that is ahead, and what follows it. -/
def run (flow : Bool) : List Char → List Char × List Char
  | [] => ([], [])
  | c :: rest =>
    if endsRun flow c rest then ([], c :: rest)
    else
      let (run, after) := run flow rest
      (c :: run, after)

theorem length_run (flow : Bool) (text : List Char) :
    (run flow text).1.length + (run flow text).2.length = text.length := by
  induction text with
  | nil => rfl
  | cons c rest ih =>
    by_cases h : endsRun flow c rest <;> simp [run, h] at ih ⊢
    omega

/-- A gap between runs: what it counts as, nothing if the scalar ends with it, whether it holds line
breaks, how far it is into its last line, and what follows it. -/
structure Gap where
  text : List Char
  broken : Bool
  column : Nat
  rest : List Char

/-- The line breaks and blanks that are ahead behind a first line break. A marker ends the scalar. -/
def breaks (first : Char) (reversed : List Char) (column : Nat) : List Char → Gap
  | [] => ⟨folded first reversed.reverse, true, column, []⟩
  | c :: rest =>
    if c = ' ' then breaks first reversed (column + 1) rest
    else if isBreak c then
      if isMarker rest then ⟨[], true, 0, rest⟩ else breaks first (breakChar c :: reversed) 0 rest
    else ⟨folded first reversed.reverse, true, column, c :: rest⟩

/-- The gap that is ahead. -/
def gap (text : List Char) : Gap :=
  let blanks := text.takeWhile (· == ' ')
  match text.drop blanks.length with
  | c :: rest =>
    if isBreak c then
      if isMarker rest then ⟨[], true, 0, rest⟩ else breaks c [] 0 rest
    else ⟨blanks, false, 0, c :: rest⟩
  | [] => ⟨blanks, false, 0, []⟩

theorem length_breaks (first : Char) (reversed : List Char) (column : Nat) (text : List Char) :
    (breaks first reversed column text).rest.length ≤ text.length := by
  induction text generalizing reversed column with
  | nil => simp [breaks]
  | cons c rest ih =>
    simp only [breaks]
    split
    · exact Nat.le_succ_of_le (ih ..)
    · split
      · split
        · simp
        · exact Nat.le_succ_of_le (ih ..)
      · simp

theorem length_gap (text : List Char) : (gap text).rest.length ≤ text.length := by
  have hdrop : (text.drop (text.takeWhile (· == ' ')).length).length ≤ text.length := by simp
  simp only [gap]
  split
  · next c rest hrest =>
    rw [hrest] at hdrop
    have hc : rest.length + 1 ≤ text.length := hdrop
    split
    · split
      · exact Nat.le_of_succ_le hc
      · exact Nat.le_trans (length_breaks ..) (Nat.le_of_succ_le hc)
    · exact hdrop
  · simp

/-- A scalar: its text, whether it ends with line breaks, and what follows. -/
structure Scalar where
  text : List Char
  broken : Bool
  rest : List Char

/-- The scalar that is ahead, behind a gap that counts as `spaces`. -/
def scalarFrom (flow : Bool) (indent : Nat) (spaces : List Char) (broken : Bool)
    (text : List Char) : Scalar :=
  if text.head? = some '#' ∨ (run flow text).1 = [] then ⟨[], broken, text⟩
  else
    let front := spaces ++ (run flow text).1
    let found := gap (run flow text).2
    if found.text.isEmpty || found.rest.head? == some '#' ||
        (found.broken && !flow && found.column < indent) then
      ⟨front, found.broken, found.rest⟩
    else
      let scalar := scalarFrom flow indent found.text found.broken found.rest
      { scalar with text := front ++ scalar.text }
termination_by text.length
decreasing_by
  rename_i h _
  have hrun := length_run flow text
  have hgap := length_gap (run flow text).2
  have hpos : 0 < (run flow text).1.length :=
    List.length_pos_iff.mpr fun hnil ↦ h (Or.inr hnil)
  omega

/-- The scalar that is ahead, its lines indented by at least `indent` blanks. -/
def scalar (flow : Bool) (indent : Nat) (text : List Char) : Scalar :=
  scalarFrom flow indent [] false text

end CommandLine.Yaml.Plain
