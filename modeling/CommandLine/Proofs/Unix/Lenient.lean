import CommandLine.Proofs.Unix.Reading

/-!
A strict and a lenient reading of one line by the rules of the POSIX shell. The strict one refuses
more, but whatever it takes leaves both in the same mode, so that no quotation is open at the end of
the one that is not open at the end of the other.
-/

set_option autoImplicit false

namespace CommandLine.Unix.Reading

open Transducer (exists_of_map_eq_ok)

variable {surroundings : Surroundings} {mode next : Mode} {c : Char} {found : List Piece}

/-- A variable that a strict scan finds a value for has that value to a lenient one. -/
theorem lenient_valueOf {name : List Char} {value : Option (List Char)}
    (h : (Reading.mk true surroundings).valueOf name = .ok value) :
    (Reading.mk false surroundings).valueOf name = .ok value := by
  unfold valueOf at h ⊢
  generalize (if name = ['P', 'W', 'D'] then surroundings.directory? else none) = directory at h ⊢
  generalize surroundings.environment.bind (·.lookup name) = bound at h ⊢
  cases directory with
  | some directory => exact h
  | none =>
    cases bound with
    | some bound => exact h
    | none => cases h

theorem lenient_expansion {quoted : Bool} {name : List Char}
    (h : (Reading.mk true surroundings).expansion quoted name = .ok found) :
    (Reading.mk false surroundings).expansion quoted name = .ok found := by
  cases hvalue : (Reading.mk true surroundings).valueOf name with
  | error refusal => simp [expansion, hvalue, bind, Except.bind] at h
  | ok value =>
    rw [expansion, hvalue] at h
    rw [expansion, lenient_valueOf hvalue]
    exact h

/-- Outside of quotes a lenient scan reads what a strict one reads. -/
theorem lenient_bareStep (h : (Reading.mk true surroundings).bareStep c = .ok (found, next)) :
    (Reading.mk false surroundings).bareStep c = .ok (found, next) := by
  unfold bareStep at h ⊢
  repeat' split at h
  all_goals simp_all [expands]

/-- Inside double quotes a lenient scan reads what a strict one reads. -/
theorem lenient_doubleStep (h : (Reading.mk true surroundings).doubleStep c = .ok (found, next)) :
    (Reading.mk false surroundings).doubleStep c = .ok (found, next) := by
  unfold doubleStep at h ⊢
  repeat' split at h
  all_goals simp_all [expands]

/-- What a strict scan reads behind the name of a variable a lenient one reads too. -/
theorem lenient_nameEnd {quoted braced : Bool} {name : List Char}
    (h : (Reading.mk true surroundings).nameEnd quoted braced name c = .ok (found, next)) :
    (Reading.mk false surroundings).nameEnd quoted braced name c = .ok (found, next) := by
  cases hexpansion : (Reading.mk true surroundings).expansion quoted name with
  | error refusal => simp [nameEnd, hexpansion, bind, Except.bind] at h
  | ok pieces =>
    simp only [nameEnd, hexpansion, lenient_expansion hexpansion, bind, Except.bind] at h ⊢
    cases braced with
    | true =>
      by_cases hbrace : c = '}'
      · simpa [hbrace] using h
      · simp [hbrace] at h
    | false =>
      obtain ⟨⟨after, last⟩, hafter, heq⟩ := exists_of_map_eq_ok h
      have hlenient : (if quoted = true then (Reading.mk false surroundings).doubleStep c
          else (Reading.mk false surroundings).bareStep c) = .ok (after, last) := by
        cases quoted with
        | true => exact lenient_doubleStep hafter
        | false => exact lenient_bareStep hafter
      simpa [prepend, hlenient, Except.map] using heq

theorem lenient_nameStep {quoted braced : Bool} {reversed : List Char}
    (h : (Reading.mk true surroundings).nameStep quoted braced reversed c = .ok (found, next)) :
    (Reading.mk false surroundings).nameStep quoted braced reversed c = .ok (found, next) := by
  unfold nameStep at h ⊢
  split at h
  · rename_i hname
    rwa [if_pos hname]
  · rename_i hname
    rw [if_neg hname]
    exact lenient_nameEnd h

/-- What a strict scan reads a lenient one reads too, except behind a backslash inside double
quotes. -/
theorem lenient_step (hmode : mode ≠ .doubleEscape)
    (h : (Reading.mk true surroundings).step mode c = .ok (found, next)) :
    (Reading.mk false surroundings).step mode c = .ok (found, next) := by
  cases mode with
  | gap =>
    simp only [step] at h ⊢
    split at h
    · rename_i htilde
      rwa [if_pos htilde]
    · rename_i htilde
      rw [if_neg htilde]
      exact lenient_bareStep h
  | tilde =>
    simp only [step] at h ⊢
    split at h
    · rename_i hend
      obtain ⟨⟨after, last⟩, hafter, heq⟩ := exists_of_map_eq_ok h
      rw [if_pos hend, prepend, lenient_bareStep hafter, ← heq]
      rfl
    · cases h
  | bare => exact lenient_bareStep h
  | escape | single => exact h
  | double => exact lenient_doubleStep h
  | doubleEscape => exact absurd rfl hmode
  | dollar quoted =>
    simp only [step] at h ⊢
    split at h
    · rename_i hbrace
      rwa [if_pos hbrace]
    · rename_i hbrace
      rw [if_neg hbrace]
      exact lenient_nameStep h
  | name quoted braced reversed => exact lenient_nameStep h

/-- A character that a strict scan reads leads a lenient scan to the same mode. What they find is
the same but behind a backslash inside double quotes, where a lenient scan drops fewer. -/
theorem exists_lenient_step (h : (Reading.mk true surroundings).step mode c = .ok (found, next)) :
    ∃ other, (Reading.mk false surroundings).step mode c = .ok (other, next) := by
  by_cases hmode : mode = .doubleEscape
  · subst hmode
    cases h
    exact ⟨_, rfl⟩
  · exact ⟨found, lenient_step hmode h⟩

/-- A line that a strict scan can end in a mode a lenient scan can end in it. -/
theorem lenient_finish (h : (Reading.mk true surroundings).finish mode = .ok found) :
    (Reading.mk false surroundings).finish mode = .ok found := by
  cases mode with
  | gap | tilde | bare => exact h
  | escape | single | double | doubleEscape | dollar => cases h
  | name quoted braced reversed =>
    cases quoted with
    | true => cases h
    | false =>
      cases braced with
      | true => cases h
      | false => exact lenient_expansion h

/-- A line that a strict scan takes a lenient scan takes too. -/
theorem exists_lenient_pieces {line : List Char}
    (h : (Reading.mk true surroundings).pieces mode line = .ok found) :
    ∃ other, (Reading.mk false surroundings).pieces mode line = .ok other := by
  induction line generalizing mode found with
  | nil => exact ⟨found, lenient_finish h⟩
  | cons c rest ih =>
    obtain ⟨here, next, more, hstep, hmore, rfl⟩ := exists_of_pieces_cons _ h
    obtain ⟨first, hfirst⟩ := exists_lenient_step hstep
    obtain ⟨others, hothers⟩ := ih hmore
    exact ⟨first ++ others, by rw [pieces_cons _ hfirst, hothers]; rfl⟩

end CommandLine.Unix.Reading

namespace CommandLine.Unix

/-- A line that can be split strictly can be split leniently. -/
theorem exists_split_lenient {surroundings : Surroundings} {line : List Char} {words : List Word}
    (h : split true surroundings line = .ok words) :
    ∃ others, split false surroundings line = .ok others := by
  obtain ⟨found, hfound, -⟩ := Transducer.exists_of_map_eq_ok h
  obtain ⟨other, hother⟩ := Reading.exists_lenient_pieces hfound
  exact ⟨Piece.words other, by rw [split, hother]; rfl⟩

end CommandLine.Unix
