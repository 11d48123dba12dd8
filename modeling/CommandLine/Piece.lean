import CommandLine.Dialect

/-!
What a splitter finds in a line, piece by piece: characters of words, the marks that open and close
a quotation, and gaps. The words are the maximal groups without a gap that hold a character or a
mark, so that empty quotes make an empty word and gaps alone make none.
-/

set_option autoImplicit false

namespace CommandLine

inductive Piece
  | char (c : Char)
  | opening
  | closing
  | gap
  deriving DecidableEq, Repr

namespace Piece

/-- The word that the pieces begin with, if they begin with one, and the words behind it. -/
def group : List Piece → Option Word × List Word
  | [] => (none, [])
  | char c :: rest =>
    let behind := group rest
    (some (c :: behind.1.getD []), behind.2)
  | opening :: rest | closing :: rest =>
    let behind := group rest
    (some (behind.1.getD []), behind.2)
  | gap :: rest =>
    let behind := group rest
    (none, behind.1.toList ++ behind.2)

/-- The words of a row of pieces. -/
def words (pieces : List Piece) : List Word :=
  let found := group pieces
  found.1.toList ++ found.2

/-- Characters as they stand. -/
def chars (text : List Char) : List Piece := text.map char

@[simp] theorem words_nil : words [] = [] := rfl

@[simp] theorem words_gap (rest : List Piece) : words (gap :: rest) = words rest := by
  simp [words, group]

theorem group_append_gap (first second : List Piece) :
    group (first ++ gap :: second) =
      ((group first).1, (group first).2 ++ words second) := by
  induction first with
  | nil => simp [group, words]
  | cons piece rest ih => cases piece <;> simp [group, ih]

/-- A gap separates: the words before it and the words behind it do not touch. -/
theorem words_append_gap (first second : List Piece) :
    words (first ++ gap :: second) = words first ++ words second := by
  simp [words, group_append_gap]

end Piece

end CommandLine
