import CommandLine.Json.Limits
import CommandLine.Macro.Expression
import CommandLine.Yaml.Reader

/-!
What the program takes from its platform: the compiler of regular expressions, the limits of the
reader and the writer of JSON, and the reader of macro files. The default pattern is known to
compile to what it says; nothing else is taken for granted.
-/

set_option autoImplicit false

namespace CommandLine

structure Platform where
  compile : Macro.Compiler
  limits : Json.Limits
  document : List Char → Except Yaml.Error Yaml.Document
  compile_default : compile Macro.Pattern.defaultText = .ok Macro.Pattern.default.expression

namespace Platform

/-- A platform that compiles the small language of patterns. -/
def plain : Platform where
  compile := Macro.Pattern.compile
  limits := ⟨4300, 950, 950, by decide, by decide, by decide⟩
  document := Yaml.Document.ofText
  compile_default := Macro.Pattern.compile_defaultText

/-- On every platform the default pattern finds the same macros. -/
theorem finder_of_compile_default {platform : Platform} {expression : Macro.Expression}
    (h : platform.compile Macro.Pattern.defaultText = .ok expression)
    (values : Table (List Char) (List Char)) :
    expression.finder values = Macro.Macros.finder ⟨values, .default⟩ := by
  rw [platform.compile_default] at h
  cases h
  exact Macro.Pattern.finder_expression values .default

end Platform

end CommandLine
