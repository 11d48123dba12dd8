import CommandLine.CharClass
import CommandLine.Windows.Arguments

/-!
Quoting for Windows. The two readers of a line quote independently of each other: a double quote
inside a quoted word closes the command processor's quotation, is escaped for both readers, and
opens the quotation again, with the backslashes in front of it doubled.
-/

set_option autoImplicit false

namespace CommandLine.Windows

/-- The inside of a quoted word, behind a run of `pending` backslashes, and the number of
backslashes at its end, which are left out. -/
def escaped (pending : Nat) : List Char → List Char × Nat
  | [] => ([], pending)
  | '\\' :: rest => escaped (pending + 1) rest
  | '"' :: rest =>
    let behind := escaped 0 rest
    ('"' :: backslashes (2 * pending) ++ ['\\', '^', '"', '"'] ++ behind.1, behind.2)
  | c :: rest =>
    let behind := escaped 0 rest
    (backslashes pending ++ c :: behind.1, behind.2)

/-- A word as it is written on a line. The closing quote goes in front of trailing backslashes,
which would escape it. -/
def quote (word : Word) : List Char :=
  if word.isEmpty then ['"', '"']
  else if Dialect.windows.needsQuotes word then
    let inside := escaped 0 word
    '"' :: inside.1 ++ '"' :: backslashes inside.2
  else word

/-- A text for use inside a quotation, behind a run of `pending` backslashes, and the number of
backslashes at its end, which have to be doubled if a quote follows. Each double quote closes the
command processor's quotation and is escaped for both readers; it opens the quotation again. -/
def quoteInside (pending : Nat) : List Char → List Char × Nat
  | [] => ([], pending)
  | '\\' :: rest =>
    let behind := quoteInside (pending + 1) rest
    ('\\' :: behind.1, behind.2)
  | '"' :: rest =>
    let behind := quoteInside 0 rest
    (backslashes pending ++ ['"', '\\', '^', '"', '"'] ++ behind.1, behind.2)
  | c :: rest =>
    let behind := quoteInside 0 rest
    (c :: behind.1, behind.2)

theorem quote_ne_nil (word : Word) : quote word ≠ [] := by
  unfold quote
  split
  · simp
  · split
    · simp
    · rename_i h _
      intro hnil
      simp [hnil] at h

end CommandLine.Windows
