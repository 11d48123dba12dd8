import CommandLine.Context
import CommandLine.Proofs.Unix.Reading

/-!
A strict reading of a line with nothing to expand. Every character is literal or quotes, but for a
tilde that stands for the home directory; the words hold no other characters.
-/

set_option autoImplicit false

namespace CommandLine.Unix.Reading

open Transducer

/-- Takes a line literally where it can, and refuses it elsewhere. -/
abbrev literally (home : List Char) : Reading := ⟨true, .bare home⟩

variable {home : List Char}

theorem valueOf_literally (name : List Char) :
    (literally home).valueOf name = .error .foundMeta := by
  have hdirectory : (Surroundings.bare home).directory? = none := rfl
  have henvironment : (Surroundings.bare home).environment = none := rfl
  simp [valueOf, hdirectory, henvironment]

/-- Nothing ends the name of a variable. -/
theorem nameEnd_literally (quoted braced : Bool) (name : List Char) (c : Char) :
    (literally home).nameEnd quoted braced name c = .error .foundMeta := by
  simp [nameEnd, expansion, valueOf_literally, bind, Except.bind]

/-- What can be read outside of quotes. -/
theorem bareStep_cases {c : Char} {found : List Piece} {next : Mode}
    (h : (literally home).bareStep c = .ok (found, next)) :
    (Text.isBlank c = true ∧ found = [.gap] ∧ next = .gap) ∨
      (c = '\'' ∧ found = [.opening] ∧ next = .single) ∨
      (c = '"' ∧ found = [.opening] ∧ next = .double) ∨
      (c = '\\' ∧ found = [] ∧ next = .escape) ∨
      (Dialect.unix.isMeta c = false ∧ found = [.char c] ∧ next = .bare) := by
  unfold bareStep at h
  have hexpands : (literally home).expands = false := rfl
  simp only [hexpands, Bool.false_eq_true, and_false, if_false, true_and] at h
  split at h
  · rename_i hblank
    cases h
    exact .inl ⟨hblank, rfl, rfl⟩
  · split at h
    · rename_i hquote
      cases h
      exact .inr (.inl ⟨hquote, rfl, rfl⟩)
    · split at h
      · rename_i hquote
        cases h
        exact .inr (.inr (.inl ⟨hquote, rfl, rfl⟩))
      · split at h
        · rename_i hbackslash
          cases h
          exact .inr (.inr (.inr (.inl ⟨hbackslash, rfl, rfl⟩)))
        · split at h
          · cases h
          · rename_i hmeta
            cases h
            exact .inr (.inr (.inr (.inr ⟨by simpa using hmeta, rfl, rfl⟩)))

/-- What can be read inside double quotes. -/
theorem doubleStep_cases {c : Char} {found : List Piece} {next : Mode}
    (h : (literally home).doubleStep c = .ok (found, next)) :
    (c = '"' ∧ found = [.closing] ∧ next = .bare) ∨
      (c = '\\' ∧ found = [] ∧ next = .doubleEscape) ∨
      (c ≠ '"' ∧ c ≠ '\\' ∧ c ≠ '$' ∧ c ≠ '`' ∧ found = [.char c] ∧ next = .double) := by
  unfold doubleStep at h
  have hexpands : (literally home).expands = false := rfl
  simp only [hexpands, Bool.false_eq_true, and_false, if_false, true_and] at h
  split at h
  · rename_i hquote
    cases h
    exact .inl ⟨hquote, rfl, rfl⟩
  · split at h
    · rename_i hbackslash
      cases h
      exact .inr (.inl ⟨hbackslash, rfl, rfl⟩)
    · split at h
      · cases h
      · rename_i hquote hbackslash hactive
        simp only [not_or] at hactive
        cases h
        exact .inr (.inr ⟨hquote, hbackslash, hactive.1, hactive.2, rfl, rfl⟩)

/-! ### Outside of quotes -/

/-- The modes outside of quotes. -/
def IsOutside (mode : Mode) : Prop := mode = .gap ∨ mode = .tilde ∨ mode = .bare

/-- What can be read outside of quotes, where a tilde may stand for the home directory. -/
theorem step_of_isOutside {mode next : Mode} (hmode : IsOutside mode) {c : Char}
    {found : List Piece} (h : (literally home).step mode c = .ok (found, next)) :
    (c = '~' ∧ found = [] ∧ next = .tilde) ∨
      ∃ before after, found = before ++ after ∧
        (before = [] ∨
          mode = .tilde ∧ before = (literally home).homePieces ∧
            (Text.isBlank c = true ∨ c = '/')) ∧
        (literally home).bareStep c = .ok (after, next) := by
  rcases hmode with rfl | rfl | rfl
  · simp only [step] at h
    split at h
    · rename_i htilde
      cases h
      exact .inl ⟨htilde, rfl, rfl⟩
    · exact .inr ⟨[], found, rfl, .inl rfl, h⟩
  · simp only [step] at h
    split at h
    · rename_i hend
      obtain ⟨⟨after, last⟩, hbare, heq⟩ := exists_of_map_eq_ok h
      cases heq
      exact .inr ⟨_, after, rfl, .inr ⟨rfl, rfl, hend⟩, hbare⟩
    · cases h
  · exact .inr ⟨[], found, rfl, .inl rfl, h⟩

/-! ### Characters of words -/

/-- A property of characters that the home directory, backslashes and tildes have. -/
structure Keeps (home : List Char) (p : Char → Prop) : Prop where
  backslash : p '\\'
  tilde : p '~'
  home : ∀ c ∈ home, p c

/-- What can be read of characters with the property has the property. -/
theorem Keeps.step {p : Char → Prop} (hkeeps : Keeps home p) {mode next : Mode} {c : Char}
    (hc : p c) {found : List Piece} (h : (literally home).step mode c = .ok (found, next)) :
    ∀ d, .char d ∈ found → p d := by
  have hhome : ∀ d, .char d ∈ (literally home).homePieces → p d := by
    intro d hd
    exact hkeeps.home d (by simpa [homePieces, Piece.chars, Surroundings.bare] using hd)
  have hbare {after : List Piece} {last : Mode}
      (h : (literally home).bareStep c = .ok (after, last)) : ∀ d, .char d ∈ after → p d := by
    intro d hd
    rcases bareStep_cases h with ⟨-, rfl, -⟩ | ⟨-, rfl, -⟩ | ⟨-, rfl, -⟩ | ⟨-, rfl, -⟩ | ⟨-, rfl, -⟩
    all_goals simp_all
  have houtside (hmode : IsOutside mode) : ∀ d, .char d ∈ found → p d := by
    intro d hd
    rcases step_of_isOutside hmode h with ⟨-, rfl, -⟩ | ⟨before, after, rfl, hbefore, hafter⟩
    · cases hd
    · rcases List.mem_append.mp hd with hd | hd
      · rcases hbefore with rfl | ⟨-, rfl, -⟩
        · cases hd
        · exact hhome d hd
      · exact hbare hafter d hd
  intro d hd
  cases mode with
  | gap => exact houtside (.inl rfl) d hd
  | tilde => exact houtside (.inr (.inl rfl)) d hd
  | bare => exact houtside (.inr (.inr rfl)) d hd
  | escape =>
    cases h
    simp_all
  | single =>
    simp only [Reading.step] at h
    split at h <;> cases h <;> simp_all
  | double =>
    rcases doubleStep_cases h with ⟨-, rfl, -⟩ | ⟨-, rfl, -⟩ | ⟨-, -, -, -, rfl, -⟩
    all_goals simp_all
  | doubleEscape =>
    cases h
    split at hd
    · simp_all
    · rcases List.mem_cons.mp hd with heq | hd
      · cases heq
        exact hkeeps.backslash
      · simp_all
  | dollar quoted =>
    simp only [Reading.step, nameStep, nameEnd_literally] at h
    split at h
    · cases h
      cases hd
    · split at h <;> cases h
      cases hd
  | name quoted braced reversed =>
    simp only [Reading.step, nameStep, nameEnd_literally] at h
    split at h <;> cases h
    cases hd

/-- Pieces of a line whose characters have the property. -/
theorem Keeps.pieces {p : Char → Prop} (hkeeps : Keeps home p) {mode : Mode} {line : List Char}
    (hline : ∀ c ∈ line, p c) {found : List Piece}
    (h : (literally home).pieces mode line = .ok found) : ∀ d, .char d ∈ found → p d := by
  induction line generalizing mode found with
  | nil =>
    intro d hd
    cases mode with
    | gap | bare =>
      cases h
      cases hd
    | tilde =>
      cases h
      exact hkeeps.home d (by simpa [homePieces, Piece.chars, Surroundings.bare] using hd)
    | name quoted braced reversed =>
      cases quoted <;> cases braced <;>
        simp [Reading.pieces, finish, expansion, valueOf_literally, bind, Except.bind] at h
    | escape | single | double | doubleEscape | dollar => cases h
  | cons c rest ih =>
    obtain ⟨here, next, more, hstep, hmore, rfl⟩ := exists_of_pieces_cons _ h
    intro d hd
    rcases List.mem_append.mp hd with hd | hd
    · exact hkeeps.step (hline c List.mem_cons_self) hstep d hd
    · exact ih (fun e he ↦ hline e (List.mem_cons_of_mem _ he)) hmore d hd

/-! ### Inside of quotes -/

/-- The modes in which a quotation is open. -/
def IsQuoting (mode : Mode) : Prop := mode = .single ∨ mode = .double ∨ mode = .doubleEscape

/-- Inside a quotation there is an open word. -/
theorem isSome_addAll_of_step {mode next : Mode} {c : Char} {found : List Piece}
    (h : (literally home).step mode c = .ok (found, next)) (hnext : IsQuoting next)
    {gathered : Piece.Gathered} (hword : IsQuoting mode → gathered.current.isSome = true) :
    (gathered.addAll found).current.isSome = true := by
  have hlast (before : List Piece) {piece : Piece} (hpiece : piece ≠ .gap) :
      (gathered.addAll (before ++ [piece])).current.isSome = true := by
    rw [Piece.Gathered.addAll_append]
    cases piece <;> simp_all [Piece.Gathered.add]
  have houtside (hmode : IsOutside mode) : (gathered.addAll found).current.isSome = true := by
    rcases step_of_isOutside hmode h with ⟨-, -, rfl⟩ | ⟨before, after, rfl, -, hafter⟩
    · simp [IsQuoting] at hnext
    · rcases bareStep_cases hafter with
        ⟨-, -, rfl⟩ | ⟨-, rfl, -⟩ | ⟨-, rfl, -⟩ | ⟨-, -, rfl⟩ | ⟨-, -, rfl⟩
      · simp [IsQuoting] at hnext
      · exact hlast before (by simp)
      · exact hlast before (by simp)
      · simp [IsQuoting] at hnext
      · simp [IsQuoting] at hnext
  cases mode with
  | gap => exact houtside (.inl rfl)
  | tilde => exact houtside (.inr (.inl rfl))
  | bare => exact houtside (.inr (.inr rfl))
  | escape =>
    cases h
    simp [IsQuoting] at hnext
  | single =>
    simp only [Reading.step] at h
    split at h
    · cases h
      simp [IsQuoting] at hnext
    · cases h
      exact hlast [] (by simp)
  | double =>
    rcases doubleStep_cases h with ⟨-, -, rfl⟩ | ⟨-, rfl, -⟩ | ⟨-, -, -, -, rfl, -⟩
    · simp [IsQuoting] at hnext
    · exact hword (.inr (.inl rfl))
    · exact hlast [] (by simp)
  | doubleEscape =>
    cases h
    split
    · exact hlast [] (by simp)
    · exact hlast [.char '\\'] (by simp)
  | dollar quoted =>
    simp only [Reading.step, nameStep, nameEnd_literally] at h
    split at h
    · cases h
      simp [IsQuoting] at hnext
    · split at h <;> cases h
      simp [IsQuoting] at hnext
  | name quoted braced reversed =>
    simp only [Reading.step, nameStep, nameEnd_literally] at h
    split at h <;> cases h
    simp [IsQuoting] at hnext

/-- A value with its active characters escaped reads as it stands between double quotes. -/
theorem advance_doubleQuoted (value : List Char) :
    advance (literally home).step .double (Protection.doubleQuoted.apply value) =
      .ok (Piece.chars value, .double) := by
  have hcharacter (c : Char) :
      advance (literally home).step .double (if Protection.isActive c then ['\\', c] else [c]) =
        .ok ([.char c], .double) := by
    have hexpands : (literally home).expands = false := rfl
    by_cases hactive : Protection.isActive c = true
    · rw [if_pos hactive]
      have hbackslash : (literally home).step .double '\\' = .ok ([], .doubleEscape) := by
        simp [Reading.step, doubleStep]
      have hdrops : (literally home).dropsBackslash c = true := by
        simp only [Protection.isActive, Bool.or_eq_true, beq_iff_eq] at hactive
        rcases hactive with ((rfl | rfl) | rfl) | rfl <;> rfl
      have hescaped : (literally home).step .doubleEscape c = .ok ([.char c], .double) := by
        simp [Reading.step, hdrops]
      exact advance_cons_of_ok hbackslash (advance_singleton hescaped)
    · rw [if_neg hactive]
      simp only [Protection.isActive, Bool.or_eq_true, beq_iff_eq, not_or] at hactive
      obtain ⟨⟨⟨hdollar, hbackquote⟩, hquote⟩, hbackslash⟩ := hactive
      exact advance_singleton (by
        simp [Reading.step, doubleStep, hexpands, hdollar, hbackquote, hquote, hbackslash])
  induction value with
  | nil => rfl
  | cons c rest ih =>
    have happly : Protection.doubleQuoted.apply (c :: rest) =
        (if Protection.isActive c then ['\\', c] else [c]) ++ Protection.doubleQuoted.apply rest :=
      List.flatMap_cons
    rw [happly, advance_append_of_ok (hcharacter c) ih]
    rfl

end CommandLine.Unix.Reading
