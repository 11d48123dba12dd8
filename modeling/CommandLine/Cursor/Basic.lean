import CommandLine.Cursor.Unix
import CommandLine.Cursor.Windows
import CommandLine.Line

/-!
A cursor walks over the arguments of a line, one at a time, and lets the line be edited on the way:
the argument just found can be deleted, and words can be put in at the cursor.
-/

set_option autoImplicit false

namespace CommandLine

/-- A cursor in a line. The line is what was passed before the current argument, the current
argument with all that was moved over since, and the rest. -/
structure Cursor where
  dialect : Dialect
  passed : List Char
  current : List Char
  rest : List Char
  value : List Char
  simple : Bool
  deriving DecidableEq, Repr

namespace Cursor

/-- A cursor at the start of a line. -/
def ofLine (dialect : Dialect) (line : List Char) : Cursor := ⟨dialect, [], [], line, [], true⟩

/-- The line under the cursor. -/
def line (cursor : Cursor) : List Char := cursor.passed ++ cursor.current ++ cursor.rest

/-- Finds the next argument of a text. -/
def find (dialect : Dialect) (text : List Char) : Found :=
  match dialect with
  | .unix => Unix.next text
  | .windows => Windows.next text

theorem length_find {dialect : Dialect} {text : List Char}
    (h : (find dialect text).success = true) : (find dialect text).rest.length < text.length := by
  cases dialect
  · exact Unix.length_next h
  · exact Windows.length_next h

/-- Moves to the next argument, and says whether there is one. When there is none the current
argument stays, so that it can still be deleted. -/
def advance (cursor : Cursor) : Bool × Cursor :=
  let found := find cursor.dialect cursor.rest
  let consumed := cursor.rest.take (cursor.rest.length - found.rest.length)
  (found.success,
    if found.success then
      { cursor with
        passed := cursor.passed ++ cursor.current, current := consumed, rest := found.rest
        value := found.value, simple := found.simple }
    else
      { cursor with
        current := cursor.current ++ consumed, rest := found.rest
        value := found.value, simple := found.simple })

/-- Deletes the current argument. At the start of the line the blanks behind it go too. -/
def deleteCurrent (cursor : Cursor) : Cursor :=
  { cursor with
    current := []
    rest := if cursor.passed.isEmpty then cursor.rest.dropWhile Text.isBlank else cursor.rest }

/-- Puts a word in at the cursor, in front of the next argument. -/
def insertBefore (cursor : Cursor) (word : Word) : Cursor :=
  let quoted := cursor.dialect.quote word
  { cursor with
    current :=
      if cursor.passed.isEmpty ∧ cursor.current.isEmpty then quoted ++ [' ']
      else cursor.current ++ ' ' :: quoted }

theorem rest_advance (cursor : Cursor) :
    cursor.advance.2.rest = (find cursor.dialect cursor.rest).rest := by
  unfold advance
  dsimp only
  split <;> rfl

/-- Moves to the end, and collects the arguments on the way, each with whether it is simple. -/
def collect (cursor : Cursor) : List (Word × Bool) × Cursor :=
  match _h : cursor.advance with
  | (true, next) =>
    let behind := collect next
    ((next.value, next.simple) :: behind.1, behind.2)
  | (false, next) => ([], next)
termination_by cursor.rest.length
decreasing_by
  have hrest : next.rest = (find cursor.dialect cursor.rest).rest := by rw [← rest_advance, _h]
  rw [hrest]
  exact length_find (congrArg Prod.fst _h)

/-- The arguments of a line, each with whether it is simple. -/
def arguments (dialect : Dialect) (line : List Char) : List (Word × Bool) :=
  (ofLine dialect line).collect.1

end Cursor

end CommandLine
