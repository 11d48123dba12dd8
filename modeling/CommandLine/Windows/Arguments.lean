import CommandLine.Piece

/-!
The C runtime's reading of a line. Spaces and tabs outside of quotes separate words. Backslashes
count only in front of a double quote: an even run is halved and the quote opens or closes, an odd
run is halved and the quote is literal. Two quotes inside a quotation close it and leave one.
-/

set_option autoImplicit false

namespace CommandLine.Windows

/-- A character that separates words for the C runtime. -/
def isSeparator (c : Char) : Bool := c == ' ' || c == '\t'

/-- A run of backslashes. -/
def backslashes (count : Nat) : List Char := List.replicate count '\\'

/-- The pieces of a line behind a run of `pending` backslashes, inside a quotation or not. -/
def argumentPieces (quoted : Bool) (pending : Nat) : List Char → Except Refusal (List Piece)
  | [] => if quoted then .error .badQuoting else .ok (Piece.chars (backslashes pending))
  | '\\' :: rest => argumentPieces quoted (pending + 1) rest
  | '"' :: rest =>
    if pending % 2 = 1 then
      (argumentPieces quoted 0 rest).map
        (Piece.chars (backslashes (pending / 2)) ++ .char '"' :: ·)
    else if quoted then
      match rest with
      | '"' :: rest =>
        (argumentPieces false 0 rest).map
          (Piece.chars (backslashes (pending / 2)) ++ .closing :: .char '"' :: ·)
      | rest =>
        (argumentPieces false 0 rest).map
          (Piece.chars (backslashes (pending / 2)) ++ .closing :: ·)
    else
      (argumentPieces true 0 rest).map (Piece.chars (backslashes (pending / 2)) ++ .opening :: ·)
  | c :: rest =>
    (argumentPieces quoted 0 rest).map
      (Piece.chars (backslashes pending) ++
        (if !quoted && isSeparator c then .gap else .char c) :: ·)

/-- The words that a program makes of the line it receives. -/
def arguments (line : List Char) : Except Refusal (List Word) :=
  (argumentPieces false 0 line).map Piece.words

end CommandLine.Windows
