import CommandLine.Macro.Finder

/-!
Regular expressions as they are used to find macros: by the matches that they have in a text, one
behind the other. The first group of a match is the name of a macro, or all of it where there are no
groups. The patterns of the small language are such expressions, and the macros that they find are
those that are found match by match along the text.
-/

set_option autoImplicit false

namespace CommandLine.Macro

/-- A match that lies `gap` characters ahead: what it takes, and what its first group takes, if the
group takes part in it. -/
structure Match where
  gap : Nat
  taken : List Char
  group : Option (List Char)
  deriving DecidableEq, Repr

/-- A regular expression: whether it has groups, and its matches at or behind a place in a text,
given by what is in front of the place and what follows it. -/
structure Expression where
  grouped : Bool
  search : (front rest : List Char) → List Match

/-- Why a text is compiled to no expression. -/
inductive CompileError
  /-- The text is no expression, and this is what is wrong with it. -/
  | invalid (reason : String)
  /-- The compiler fails without a word about the text. -/
  | failed (reason : String)
  deriving DecidableEq, Repr

/-- A compiler of regular expressions. -/
abbrev Compiler := List Char → Except CompileError Expression

namespace Expression

variable (expression : Expression) (values : Table (List Char) (List Char))

/-- The name that a match stands for. -/
def name? (found : Match) : Option (List Char) :=
  if expression.grouped then found.group else some found.taken

/-- The macro that a match is, if it takes a character and its name has a value. -/
def occurrence? (found : Match) : Option Occurrence :=
  if h : 0 < found.taken.length then
    ((expression.name? found).bind values.get?).map fun value ↦
      ⟨found.gap, found.taken.length, value, h⟩
  else none

/-- The finder of macros with these values. -/
def finder : Finder := fun front rest ↦
  (expression.search front rest).findSome? (expression.occurrence? values)

end Expression

/-! ### Patterns as expressions -/

namespace Pattern

/-- The match at the head of a text. -/
def matchAt? (pattern : Pattern) (gap : Nat) (text : List Char) : Option Match :=
  (matchItems pattern.items text).map fun capture ↦ ⟨gap, capture.taken, some capture.group⟩

/-- The matches of a text, none of which begins in another. The first `skip` characters belong to a
match in front. -/
def matchesFrom (pattern : Pattern) (skip gap : Nat) : List Char → List Match
  | [] => (pattern.matchAt? gap []).toList
  | c :: rest =>
    match skip with
    | skip + 1 => pattern.matchesFrom skip (gap + 1) rest
    | 0 =>
      match pattern.matchAt? gap (c :: rest) with
      | some found => found :: pattern.matchesFrom (found.taken.length - 1) (gap + 1) rest
      | none => pattern.matchesFrom 0 (gap + 1) rest

/-- The expression of a pattern, to which the text in front does not matter. -/
def expression (pattern : Pattern) : Expression :=
  ⟨pattern.grouped, fun _ rest ↦ pattern.matchesFrom 0 0 rest⟩

/-- The expression that a text writes. -/
def compile (text : List Char) : Except CompileError Expression :=
  match parse text with
  | .ok pattern => .ok pattern.expression
  | .error (.invalid error) => .error (.invalid (error.message text))
  | .error .beyond => .error (.failed "the pattern goes beyond what is understood")

theorem compile_defaultText : compile defaultText = .ok Pattern.default.expression := by
  rw [compile, parse_defaultText]

theorem taken_of_matchRun_nil {set : CharSet} {following : List Char → Option Capture}
    {atLeast : Nat} {capture : Capture}
    (h : matchRun set following atLeast [] = some capture) : following [] = some capture := by
  rw [matchRun] at h
  split at h
  · exact h
  · cases h

/-- A match of an empty text takes nothing. -/
theorem taken_of_matchItems_nil {items : List Item} {capture : Capture}
    (h : matchItems items [] = some capture) : capture.taken = [] := by
  induction items generalizing capture with
  | nil =>
    cases h
    rfl
  | cons item items ih =>
    cases item with
    | one set => cases h
    | run set atLeast => exact ih (taken_of_matchRun_nil h)
    | opening group | closing group =>
      obtain ⟨inner, hinner, heq⟩ := Option.map_eq_some_iff.mp h
      have hnone := ih hinner
      split at heq <;> rw [← heq] <;> exact hnone

variable (values : Table (List Char) (List Char))

theorem findSome?_matchesFrom (pattern : Pattern) (skip gap : Nat) (text : List Char) :
    (pattern.matchesFrom skip gap text).findSome? (pattern.expression.occurrence? values) =
      Macros.findFrom ⟨values, pattern⟩ skip gap text := by
  induction text generalizing skip gap with
  | nil =>
    rw [matchesFrom, Macros.findFrom, matchAt?]
    cases hmatch : matchItems pattern.items [] with
    | none => rfl
    | some capture => simp [Expression.occurrence?, taken_of_matchItems_nil hmatch]
  | cons c rest ih =>
    cases skip with
    | succ skip => exact ih skip (gap + 1)
    | zero =>
      rw [matchesFrom, Macros.findFrom, matchAt?, match?]
      cases matchItems pattern.items (c :: rest) with
      | none => exact ih 0 (gap + 1)
      | some capture =>
        obtain ⟨taken, group, recording⟩ := capture
        cases taken with
        | nil => simpa [Expression.occurrence?] using ih 0 (gap + 1)
        | cons d taken =>
          have hname : (pattern.expression.name? ⟨gap, d :: taken, some group⟩) =
              some (if pattern.grouped then group else d :: taken) := by
            rw [Expression.name?, expression]
            cases pattern.grouped <;> rfl
          cases hvalue : values.get? (if pattern.grouped then group else d :: taken) with
          | none =>
            simpa [Expression.occurrence?, hname, hvalue] using ih taken.length (gap + 1)
          | some value => simp [Expression.occurrence?, hname, hvalue]

/-- The macros that the expression of a pattern finds. -/
theorem finder_expression (pattern : Pattern) :
    pattern.expression.finder values = Macros.finder ⟨values, pattern⟩ := by
  funext front rest
  exact findSome?_matchesFrom values pattern 0 0 rest

end Pattern

end CommandLine.Macro
