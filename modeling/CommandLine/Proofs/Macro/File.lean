import CommandLine.Macro.File

/-!
Files of macro values, whatever reads their documents. A file that holds a mapping gives each name
the value that stands last under it; every other file that can be read, and one that is missing,
gives no values at all and is reported once.
-/

set_option autoImplicit false

namespace CommandLine

/-- Of several values under a key the last one is kept. -/
theorem Table.get?_putAll {κ ν : Type} [DecidableEq κ] (table : Table κ ν) (pairs : List (κ × ν))
    (key : κ) :
    (putAll table pairs).get? key =
      ((pairs.reverse.find? fun pair ↦ pair.1 = key).map Prod.snd).or (table.get? key) := by
  induction pairs generalizing table with
  | nil => rfl
  | cons pair rest ih =>
    have hputAll : putAll table (pair :: rest) = putAll (table.put pair.1 pair.2) rest := rfl
    rw [hputAll, ih, get?_put, List.reverse_cons, List.find?_append]
    cases hrest : rest.reverse.find? fun pair ↦ pair.1 = key with
    | some found => rfl
    | none => by_cases hkey : pair.1 = key <;> simp [hkey]

namespace Macro

/-- The value of a name is the one that stands last under it, as it is shown. -/
theorem get?_of_values? {document : Yaml.Document} {members : List (Yaml.Scalar × Yaml.Value)}
    (hmembers : mapping? document = some members) {values : Table (List Char) (List Char)}
    (hvalues : values? document = some values) (name : List Char) :
    values.get? name =
      (members.reverse.find? fun member ↦ member.1.alone = name).map fun member ↦
        valueText document member.2 := by
  rw [values?, hmembers] at hvalues
  cases hvalues
  rw [Table.get?_putAll, Table.get?_nil, Option.or_none, ← List.map_reverse, List.find?_map,
    Option.map_map]
  rfl

/-- Macro values are those of a mapping that was read, or there are none and one thing to report. -/
theorem of_load {read : List Char → Except Yaml.Error Yaml.Document} {tree : Files.Tree}
    {path : Files.Path} {values : Table (List Char) (List Char)} {notices : List Notice}
    (h : load read tree path = .ok (values, notices)) :
    (notices = [] ∧ ∃ text document members, tree.readText path = .ok text ∧
        read text = .ok document ∧ mapping? document = some members ∧
        ∀ name, values.get? name =
          (members.reverse.find? fun member ↦ member.1.alone = name).map fun member ↦
            valueText document member.2) ∨
      values = [] ∧ ∃ notice, notices = [notice] := by
  unfold load at h
  split at h
  · cases h
    exact .inr ⟨rfl, _, rfl⟩
  · cases h
  · rename_i text htext
    split at h
    · cases h
      exact .inr ⟨rfl, _, rfl⟩
    · cases h
    · rename_i document hdocument
      split at h
      · rename_i found hvalues
        cases h
        obtain ⟨members, hmembers, -⟩ := Option.map_eq_some_iff.mp hvalues
        exact .inl ⟨rfl, text, document, members, htext, hdocument, hmembers,
          get?_of_values? hmembers hvalues⟩
      · cases h
        exact .inr ⟨rfl, _, rfl⟩

end Macro

end CommandLine
