/-!
Tables that keep the order in which their keys were first put. Putting a value under a key that is
there replaces the value and keeps the key's place.
-/

set_option autoImplicit false

namespace CommandLine

/-- Keys with their values, in the order of first insertion. -/
abbrev Table (κ ν : Type) := List (κ × ν)

namespace Table

variable {κ ν : Type} [DecidableEq κ]

/-- The value under a key. -/
def get? (table : Table κ ν) (key : κ) : Option ν :=
  match table with
  | [] => none
  | (k, v) :: rest => if k = key then some v else get? rest key

/-- Puts a value under a key. -/
def put (table : Table κ ν) (key : κ) (value : ν) : Table κ ν :=
  match table with
  | [] => [(key, value)]
  | (k, v) :: rest => if k = key then (k, value) :: rest else (k, v) :: put rest key value

/-- Puts all pairs of a list, in order. -/
def putAll (table : Table κ ν) (pairs : List (κ × ν)) : Table κ ν :=
  pairs.foldl (fun table pair ↦ put table pair.1 pair.2) table

@[simp] theorem get?_nil (key : κ) : get? ([] : Table κ ν) key = none := rfl

@[simp] theorem get?_put (table : Table κ ν) (key other : κ) (value : ν) :
    get? (put table key value) other = if key = other then some value else get? table other := by
  induction table with
  | nil => simp [put, get?]
  | cons head rest ih =>
    obtain ⟨k, v⟩ := head
    by_cases hk : k = key
    · subst hk
      by_cases ho : k = other <;> simp [put, get?, ho]
    · by_cases ho : k = other
      · subst ho
        simp [put, get?, hk, Ne.symm hk]
      · simp [put, get?, hk, ho, ih]

/-- The keys after a put: the old ones in their order, and the key last if it is new. -/
theorem keys_put (table : Table κ ν) (key : κ) (value : ν) :
    (put table key value).map Prod.fst =
      if key ∈ table.map Prod.fst then table.map Prod.fst else table.map Prod.fst ++ [key] := by
  induction table with
  | nil => simp [put]
  | cons head rest ih =>
    obtain ⟨k, v⟩ := head
    by_cases hk : k = key
    · subst hk
      simp [put]
    · simp only [put, hk, if_false, List.map_cons, ih, List.mem_cons, Ne.symm hk, false_or]
      split <;> simp

end Table

end CommandLine
