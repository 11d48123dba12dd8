/-!
Line ends. A text file may end its lines with a line feed, a carriage return, or both; its lines
are read with a single line feed behind each.
-/

set_option autoImplicit false

namespace CommandLine.Text

/-- Writes every line end of a text as one line feed. -/
def unifyLineEnds : List Char → List Char
  | [] => []
  | '\r' :: '\n' :: rest => '\n' :: unifyLineEnds rest
  | '\r' :: rest => '\n' :: unifyLineEnds rest
  | c :: rest => c :: unifyLineEnds rest

theorem return_not_mem_unifyLineEnds (text : List Char) : '\r' ∉ unifyLineEnds text := by
  fun_induction unifyLineEnds text with
  | case1 => simp
  | case2 rest ih => simpa using ih
  | case3 rest _ ih => simpa using ih
  | case4 c rest _ hc ih => simp only [List.mem_cons, not_or]; exact ⟨fun h ↦ hc h.symm, ih⟩

end CommandLine.Text
