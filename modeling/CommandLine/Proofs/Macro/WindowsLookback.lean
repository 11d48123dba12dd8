import CommandLine.Proofs.Macro.WindowsScan
import CommandLine.Proofs.Windows.Circumflex

/-!
The C runtime's reading of a line, told by looking back. A scan that puts in macros has to know where
the C runtime is before it has seen what follows, so it cannot look for the second of two quotes as
`argumentPieces` does. It judges by the state that the first one leads to. Where no macro is in the
line both give each character the same role, are between words at the same places, and find the same
quotations open at the end.
-/

set_option autoImplicit false

namespace CommandLine.Windows

open Transducer

/-! ### Looking ahead -/

/-- What each character of a line is behind a run of `pending` backslashes, inside a quotation or
not. The quote behind a quote inside a quotation is looked for. -/
def roles (quoted : Bool) (pending : Nat) : List Char → List Piece
  | [] => []
  | '\\' :: rest => .char '\\' :: roles quoted (pending + 1) rest
  | '"' :: rest =>
    if pending % 2 = 1 then .char '"' :: roles quoted 0 rest
    else if quoted then
      match rest with
      | '"' :: rest => .closing :: .char '"' :: roles false 0 rest
      | rest => .closing :: roles false 0 rest
    else .opening :: roles true 0 rest
  | c :: rest =>
    (if !quoted && isSeparator c then .gap else .char c) :: roles quoted 0 rest

/-- The pieces that roles make: backslashes are halved in front of a quote. -/
def halved (pending : Nat) : List Piece → List Piece
  | [] => Piece.chars (backslashes pending)
  | .char '\\' :: rest => halved (pending + 1) rest
  | .char '"' :: rest => Piece.chars (backslashes (pending / 2)) ++ .char '"' :: halved 0 rest
  | .opening :: rest => Piece.chars (backslashes (pending / 2)) ++ .opening :: halved 0 rest
  | .closing :: rest => Piece.chars (backslashes (pending / 2)) ++ .closing :: halved 0 rest
  | .gap :: rest => Piece.chars (backslashes pending) ++ .gap :: halved 0 rest
  | .char c :: rest => Piece.chars (backslashes pending) ++ .char c :: halved 0 rest

section Roles

variable {quoted : Bool} {pending : Nat} {rest : List Char} {c : Char}

/-- Behind an odd run of backslashes a quote is literal. -/
theorem roles_quote_of_odd (hodd : pending % 2 = 1) :
    roles quoted pending ('"' :: rest) = .char '"' :: roles quoted 0 rest := by
  rw [roles.eq_def]
  simp [hodd]

/-- Inside a quotation a quote closes it, and the one behind it is literal. -/
theorem roles_doubled (heven : ¬pending % 2 = 1) :
    roles true pending ('"' :: '"' :: rest) = .closing :: .char '"' :: roles false 0 rest := by
  rw [roles.eq_def]
  simp [heven]

theorem roles_closing (heven : ¬pending % 2 = 1) (hrest : ∀ tail, rest ≠ '"' :: tail) :
    roles true pending ('"' :: rest) = .closing :: roles false 0 rest := by
  rw [roles.eq_def]
  simp [heven]

theorem roles_opening (heven : ¬pending % 2 = 1) :
    roles false pending ('"' :: rest) = .opening :: roles true 0 rest := by
  rw [roles.eq_def]
  simp [heven]

theorem roles_character (hbackslash : c ≠ '\\') (hquote : c ≠ '"') :
    roles quoted pending (c :: rest) =
      (if !quoted && isSeparator c then .gap else .char c) :: roles quoted 0 rest := by
  rw [roles.eq_def]
  simp

theorem halved_character (hbackslash : c ≠ '\\') (hquote : c ≠ '"') (behind : List Piece) :
    halved pending (.char c :: behind) =
      Piece.chars (backslashes pending) ++ .char c :: halved 0 behind := by
  rw [halved.eq_def]
  simp

end Roles

/-- The pieces of a line are the roles of its characters, with backslashes halved. -/
theorem argumentPieces_eq_halved {quoted : Bool} {pending : Nat} {line : List Char}
    {found : List Piece} (h : argumentPieces quoted pending line = .ok found) :
    found = halved pending (roles quoted pending line) := by
  fun_induction argumentPieces quoted pending line generalizing found with
  | case1 => cases h
  | case2 pending =>
    cases h
    rfl
  | case3 quoted pending rest ih =>
    rw [ih h]
    rfl
  | case4 quoted pending rest hodd ih =>
    obtain ⟨behind, hbehind, rfl⟩ := exists_of_map_eq_ok h
    rw [roles_quote_of_odd hodd, ih hbehind, halved]
  | case5 pending heven rest ih =>
    obtain ⟨behind, hbehind, rfl⟩ := exists_of_map_eq_ok h
    rw [roles_doubled heven, ih hbehind, halved, halved]
    rfl
  | case6 pending heven rest hrest ih =>
    obtain ⟨behind, hbehind, rfl⟩ := exists_of_map_eq_ok h
    rw [roles_closing heven hrest, ih hbehind, halved]
  | case7 quoted pending rest heven hquoted ih =>
    obtain ⟨behind, hbehind, rfl⟩ := exists_of_map_eq_ok h
    rw [Bool.not_eq_true] at hquoted
    subst hquoted
    rw [roles_opening heven, ih hbehind, halved]
  | case8 quoted pending c rest hbackslash hquote ih =>
    obtain ⟨behind, hbehind, rfl⟩ := exists_of_map_eq_ok h
    rw [roles_character hbackslash hquote, ih hbehind]
    split
    · rw [halved]
    · rw [halved_character hbackslash hquote]

/-- Of two quotes inside a quotation the first one closes it and the second one is literal. -/
example : roles false 0 ['"', 'a', '"', '"', ' '] =
    [.opening, .char 'a', .closing, .char '"', .gap] := by
  decide

/-- The C runtime has nothing else to refuse than the quoting. -/
theorem refusal_eq_badQuoting {quoted : Bool} {pending : Nat} {line : List Char}
    {refusal : Refusal} (h : argumentPieces quoted pending line = .error refusal) :
    refusal = .badQuoting := by
  rw [argumentPieces_eq, Runtime.pieces, Runtime.finish] at h
  split at h
  · cases h
    rfl
  · cases h

@[simp] theorem length_roles (quoted : Bool) (pending : Nat) (line : List Char) :
    (roles quoted pending line).length = line.length := by
  fun_induction roles quoted pending line <;> simp_all

end CommandLine.Windows

namespace CommandLine.Macro.Windows

open CommandLine.Windows (Runtime isSeparator roles halved arguments argumentPieces
  arguments_eq_badQuoting_iff argumentPieces_eq_halved refusal_eq_badQuoting length_roles
  roles_quote_of_odd roles_doubled roles_closing roles_opening roles_character)
open Transducer

namespace ArgvState

/-! ### Looking back -/

/-- What a character is, told by the states in front of it and behind it. -/
def role (before after : ArgvState) (c : Char) : Piece :=
  if c = '"' then
    if before ≠ quoted ∧ after = quoted then .opening
    else if before = quoted ∧ after ≠ quoted then .closing
    else .char '"'
  else if after = between then .gap
  else .char c

/-- A character is read behind a run of backslashes, and has its role. -/
def step (place : ArgvState × Nat) (c : Char) :
    Except Failure (List Piece × (ArgvState × Nat)) :=
  (place.1.read place.2 c).map fun next ↦ ([place.1.role next.1 c], next)

/-- No macro is behind that something is owed to. -/
def isBare : ArgvState → Bool
  | needsWord | hadQuote | needsQuote => false
  | between | inWord | closed | quoted => true

variable {state : ArgvState}

theorem role_afterCharacter (h : state.isBare = true) (c : Char) :
    state.role state.afterCharacter c = .char c := by
  by_cases hc : c = '"'
  · subst hc
    cases state <;> simp_all [isBare, role, afterCharacter, isQuoted]
  · cases state <;> simp_all [isBare, role, afterCharacter, isQuoted]

theorem step_of_read {next : ArgvState} {slashes count : Nat} {c : Char}
    (h : state.read slashes c = .ok (next, count)) :
    step (state, slashes) c = .ok ([state.role next c], (next, count)) := by
  rw [step, h]
  rfl

/-- A backslash, and a quote behind an odd run of them, leaves the C runtime where it is. -/
theorem step_literal (h : state.isBare = true) {slashes : Nat} {c : Char}
    (hc : c = '\\' ∨ c = '"' ∧ slashes % 2 = 1) :
    step (state, slashes) c =
      .ok ([.char c], (state.afterCharacter, if c = '\\' then slashes + 1 else 0)) := by
  have hread : state.read slashes c =
      .ok (state.afterCharacter, if c = '\\' then slashes + 1 else 0) := by
    rcases hc with rfl | ⟨rfl, hodd⟩
    · rfl
    · have hseparator : isSeparator '"' = false := by decide
      simp [read, hseparator, hodd]
  rw [step_of_read hread, role_afterCharacter h]

/-- A quote behind an even run of backslashes. -/
theorem step_quote {next : ArgvState} {slashes : Nat} (heven : ¬slashes % 2 = 1)
    (h : state.afterQuote = .ok next) :
    step (state, slashes) '"' = .ok ([state.role next '"'], (next, 0)) := by
  have hseparator : isSeparator '"' = false := by decide
  have hzero : slashes % 2 = 0 := by omega
  refine step_of_read ?_
  simp [read, hseparator, hzero, h, Except.map]

theorem step_closing {slashes : Nat} (heven : ¬slashes % 2 = 1) :
    step (quoted, slashes) '"' = .ok ([.closing], (closed, 0)) := by
  have hafter : afterQuote quoted = .ok closed := rfl
  exact step_quote heven hafter

/-- The state of a line without macros, inside a quotation or not, in front of what is left of it. A
quote right behind a closing one has been read with it. -/
structure Tracks (state : ArgvState) (quoted : Bool) (rest : List Char) : Prop where
  bare : state.isBare = true
  quoted_iff : state = .quoted ↔ quoted = true
  closed : state = .closed → ∀ tail, rest ≠ '"' :: tail

theorem Tracks.afterCharacter {quoted : Bool} {line : List Char} (h : Tracks state quoted line)
    (rest : List Char) : Tracks state.afterCharacter quoted rest := by
  have hbare := h.bare
  have hquoted := h.quoted_iff
  constructor
  · cases state <;> simp_all [isBare, ArgvState.afterCharacter, isQuoted]
  · cases state <;> simp_all [isBare, ArgvState.afterCharacter, isQuoted]
  · cases state <;> simp [ArgvState.afterCharacter, isQuoted]

theorem tracks_between (line : List Char) : Tracks between false line :=
  ⟨rfl, by simp, by simp⟩

theorem tracks_inWord (line : List Char) : Tracks inWord false line :=
  ⟨rfl, by simp, by simp⟩

theorem tracks_quoted (line : List Char) : Tracks quoted true line :=
  ⟨rfl, by simp, by simp⟩

/-- A separator or any other character of a word. -/
theorem Tracks.step_character {quoted : Bool} {line : List Char} (h : Tracks state quoted line)
    {c : Char} (hbackslash : c ≠ '\\') (hquote : c ≠ '"') (slashes : Nat) (rest : List Char) :
    ∃ next, Tracks next quoted rest ∧ step (state, slashes) c =
      .ok ([if !quoted && isSeparator c then .gap else .char c], (next, 0)) := by
  by_cases hseparator : isSeparator c = true
  · have hread : state.read slashes c = .ok (state.afterSeparator, 0) := by
      simp [read, hseparator]
    cases quoted with
    | true =>
      obtain rfl := h.quoted_iff.mpr rfl
      refine ⟨.quoted, tracks_quoted rest, (step_of_read hread).trans ?_⟩
      simp [afterSeparator, isQuoted, role, hquote]
    | false =>
      have hafter : state.afterSeparator = between := by
        have hbare := h.bare
        have hquoted := h.quoted_iff
        cases state <;> simp_all [isBare, afterSeparator, isQuoted]
      refine ⟨between, tracks_between rest, ?_⟩
      rw [step_of_read hread, hafter]
      simp [role, hquote, hseparator]
  · have hread : state.read slashes c = .ok (state.afterCharacter, 0) := by
      simp [read, hseparator, hbackslash, hquote]
    refine ⟨state.afterCharacter, h.afterCharacter rest, ?_⟩
    rw [step_of_read hread, role_afterCharacter h.bare]
    simp [hseparator]

/-- Looking back and looking ahead give every character the same role. -/
theorem advance_step {quoted : Bool} {pending : Nat} {line : List Char}
    (h : Tracks state quoted line) : ∃ place,
      advance step (state, pending) line = .ok (roles quoted pending line, place) ∧
        place.1.isBare = true := by
  fun_induction roles quoted pending line generalizing state with
  | case1 quoted pending => exact ⟨(state, pending), rfl, h.bare⟩
  | case2 quoted pending rest ih =>
    obtain ⟨place, hrest, hbare⟩ := ih (h.afterCharacter rest)
    exact ⟨place, advance_cons_of_ok (step_literal h.bare (.inl rfl)) hrest, hbare⟩
  | case3 quoted pending rest hodd ih =>
    obtain ⟨place, hrest, hbare⟩ := ih (h.afterCharacter rest)
    exact ⟨place, advance_cons_of_ok (step_literal h.bare (.inr ⟨rfl, hodd⟩)) hrest, hbare⟩
  | case4 pending heven rest ih =>
    -- the quotation is closed by the first quote, and the second one is literal behind it
    obtain rfl := h.quoted_iff.mpr rfl
    obtain ⟨place, hrest, hbare⟩ := ih (tracks_inWord rest)
    have hfirst := step_closing heven
    have hsecond : step (.closed, 0) '"' = .ok ([.char '"'], (.inWord, 0)) := rfl
    exact ⟨place, advance_cons_of_ok hfirst (advance_cons_of_ok hsecond hrest), hbare⟩
  | case5 pending heven rest hrest ih =>
    obtain rfl := h.quoted_iff.mpr rfl
    have hclosed : Tracks .closed false rest := ⟨rfl, by simp, fun _ ↦ hrest⟩
    obtain ⟨place, hbehind, hbare⟩ := ih hclosed
    exact ⟨place, advance_cons_of_ok (step_closing heven) hbehind, hbare⟩
  | case6 quoted pending rest heven hquoted ih =>
    obtain ⟨place, hrest, hbare⟩ := ih (tracks_quoted rest)
    have hopening : step (state, pending) '"' = .ok ([.opening], (.quoted, 0)) := by
      have hstate : state ≠ .quoted := fun hstate ↦ hquoted (h.quoted_iff.mp hstate)
      have hclosed : state ≠ .closed := fun hclosed ↦ h.closed hclosed rest rfl
      have hafter : state.afterQuote = .ok .quoted := by
        have hbare := h.bare
        cases state <;> simp_all [isBare, afterQuote]
      rw [step_quote heven hafter]
      simp [role, hstate]
    exact ⟨place, advance_cons_of_ok hopening hrest, hbare⟩
  | case7 quoted pending c rest hbackslash hquote ih =>
    obtain ⟨next, hnext, hstep⟩ := h.step_character hbackslash hquote pending rest
    obtain ⟨place, hrest, hbare⟩ := ih hnext
    exact ⟨place, advance_cons_of_ok hstep hrest, hbare⟩

/-! ### Every place of a line -/

/-- The state behind a text in which there is no macro, and the run of backslashes there. -/
def behind (text : List Char) : Except Failure (ArgvState × Nat) :=
  text.foldlM (fun place c ↦ place.1.read place.2 c) (between, 0)

theorem read_of_step {place next : ArgvState × Nat} {c : Char} {here : List Piece}
    (h : step place c = .ok (here, next)) :
    place.1.read place.2 c = .ok next ∧ here = [place.1.role next.1 c] := by
  obtain ⟨found, hread, heq⟩ := exists_of_map_eq_ok h
  cases heq
  exact ⟨hread, rfl⟩

theorem foldlM_of_advance {place last : ArgvState × Nat} {text : List Char} {found : List Piece}
    (h : advance step place text = .ok (found, last)) :
    text.foldlM (fun place c ↦ place.1.read place.2 c) place = .ok last := by
  induction text generalizing place found with
  | nil =>
    cases h
    rfl
  | cons c rest ih =>
    obtain ⟨here, next, more, hstep, hrest, rfl⟩ := exists_of_advance_cons h
    rw [List.foldlM_cons, (read_of_step hstep).1]
    exact ih hrest

/-- Only separators outside of quotations lead between words. -/
theorem role_eq_gap_iff {next : ArgvState} {slashes count : Nat} {c : Char}
    (h : state.read slashes c = .ok (next, count)) :
    state.role next c = .gap ↔ next = between := by
  by_cases hc : c = '"'
  · subst hc
    have hseparator : isSeparator '"' = false := by decide
    have hnext : next ≠ between := by
      unfold read at h
      rw [hseparator, if_neg Bool.false_ne_true, if_neg (by decide)] at h
      split at h
      · obtain ⟨other, hafter, heq⟩ := exists_of_map_eq_ok h
        cases heq
        cases state <;> cases hafter <;> simp
      · cases h
        cases state <;> simp [afterCharacter, isQuoted]
    refine iff_of_false ?_ hnext
    unfold role
    rw [if_pos rfl]
    split
    · simp
    · split <;> simp
  · simp [role, hc]

theorem marked_eq_inside {state : ArgvState} : state.marked = .inside ↔ state = quoted := by
  cases state <;> simp [marked]

/-- The C runtime is where the state says. -/
theorem runtime_of_advance {place last : ArgvState × Nat} (hneeds : place.1 ≠ needsQuote)
    {text : List Char} {found : List Piece} (h : advance step place text = .ok (found, last)) :
    (Runtime.advance ⟨place.1.marked, place.2⟩ text).2 = ⟨last.1.marked, last.2⟩ := by
  induction text generalizing place found with
  | nil =>
    cases h
    rfl
  | cons c rest ih =>
    obtain ⟨here, next, more, hstep, hrest, rfl⟩ := exists_of_advance_cons h
    obtain ⟨hread, -⟩ := read_of_step hstep
    rw [Runtime.advance_cons, (Scan.runtimeStep_read 0 hneeds hread).1]
    exact ih (read_ok hneeds hread).1 hrest

/-- A line without macros from its beginning. -/
theorem advance_between (line : List Char) : ∃ place,
    advance step (between, 0) line = .ok (roles false 0 line, place) ∧ place.1.isBare = true :=
  advance_step (tracks_between line)

/-- What follows a part of a line does not change the roles of that part. -/
theorem roles_append {before : List Char} {place : ArgvState × Nat}
    (h : advance step (between, 0) before = .ok (roles false 0 before, place))
    (after : List Char) : ∃ found last, advance step place after = .ok (found, last) ∧
      roles false 0 (before ++ after) = roles false 0 before ++ found := by
  obtain ⟨last, hall, -⟩ := advance_between (before ++ after)
  rw [advance_append h] at hall
  obtain ⟨⟨found, final⟩, hafter, heq⟩ := exists_of_map_eq_ok hall
  exact ⟨found, final, hafter, (Prod.mk.inj heq).1.symm⟩

/-- The role of the character behind a part of a line. -/
theorem getElem?_roles {before : List Char} {place : ArgvState × Nat}
    (h : advance step (between, 0) before = .ok (roles false 0 before, place)) (c : Char)
    (rest : List Char) : ∃ next, place.1.read place.2 c = .ok next ∧
      (roles false 0 (before ++ c :: rest))[before.length]? = some (place.1.role next.1 c) := by
  obtain ⟨found, last, hafter, happend⟩ := roles_append h (c :: rest)
  obtain ⟨here, next, more, hstep, -, rfl⟩ := exists_of_advance_cons hafter
  obtain ⟨hread, rfl⟩ := read_of_step hstep
  refine ⟨next, hread, ?_⟩
  rw [happend, List.getElem?_append_right (Nat.le_of_eq (length_roles _ _ _)), length_roles,
    Nat.sub_self]
  rfl

/-- Behind each part of a line the state is between words exactly if the part ends with a separator
outside of quotations. -/
theorem between_iff {before : List Char} {place : ArgvState × Nat}
    (h : advance step (between, 0) before = .ok (roles false 0 before, place))
    (after : List Char) : place.1 = between ↔
      before = [] ∨ (roles false 0 (before ++ after))[before.length - 1]? = some .gap := by
  rcases List.eq_nil_or_concat before with rfl | ⟨front, c, rfl⟩
  · cases h
    simp
  · obtain ⟨place', hfront, -⟩ := advance_between front
    obtain ⟨next, hread, hrole⟩ := getElem?_roles hfront c after
    have hplace : next = place := by
      have hwhole := foldlM_of_advance h
      rw [List.concat_eq_append, List.foldlM_append, foldlM_of_advance hfront] at hwhole
      simpa [bind, Except.bind, hread, pure, Except.pure] using hwhole
    subst hplace
    have hlength : (front.concat c).length - 1 = front.length := by simp
    rw [hlength, List.concat_eq_append, List.append_assoc, List.singleton_append, hrole,
      Option.some_inj, role_eq_gap_iff hread]
    simp

/-- At the end of a line the state is inside a quotation exactly if the quoting is bad. Where it is
not, the words are made from the roles. -/
theorem arguments_of_advance {line : List Char} {place : ArgvState × Nat}
    (h : advance step (between, 0) line = .ok (roles false 0 line, place)) :
    arguments line = if place.1 = quoted then .error .badQuoting
      else .ok (Piece.words (halved 0 (roles false 0 line))) := by
  have hneeds : between ≠ needsQuote := by simp
  have hstart : Runtime.start = ⟨between.marked, 0⟩ := rfl
  have hfinish : (Runtime.start.advance line).2.quoting = .inside ↔ place.1 = quoted := by
    rw [hstart, runtime_of_advance hneeds h]
    exact marked_eq_inside
  split
  · rename_i hquoted
    exact (arguments_eq_badQuoting_iff line).mpr (hfinish.mpr hquoted)
  · rename_i hquoted
    have hgood : arguments line ≠ .error .badQuoting := fun hbad ↦
      hquoted (hfinish.mp ((arguments_eq_badQuoting_iff line).mp hbad))
    unfold arguments at hgood ⊢
    cases hpieces : argumentPieces false 0 line with
    | error refusal =>
      obtain rfl := refusal_eq_badQuoting hpieces
      rw [hpieces] at hgood
      exact absurd rfl hgood
    | ok found =>
      rw [argumentPieces_eq_halved hpieces]
      rfl

/-- Looking back keeps up with looking ahead. Behind each part of a line in which there is no macro
the state is between words exactly if the part ends with a separator outside of quotations; the
character that follows, a quote among them, has the role that the states on both sides of it tell;
and at the end of the line the state is inside a quotation exactly if the quoting is bad. The roles
are those from which the words of the line are made. -/
theorem behind_keeps_up (before after : List Char) :
    ∃ state slashes, behind before = .ok (state, slashes) ∧
      (state = between ↔
        before = [] ∨ (roles false 0 (before ++ after))[before.length - 1]? = some .gap) ∧
      match after with
      | [] =>
        arguments before = if state = quoted then .error .badQuoting
          else .ok (Piece.words (halved 0 (roles false 0 before)))
      | c :: _ =>
        ∃ next, state.read slashes c = .ok next ∧
          (roles false 0 (before ++ after))[before.length]? = some (state.role next.1 c) := by
  obtain ⟨⟨state, slashes⟩, hbefore, -⟩ := advance_between before
  refine ⟨state, slashes, foldlM_of_advance hbefore, between_iff hbefore after, ?_⟩
  cases after with
  | nil => exact arguments_of_advance hbefore
  | cons c rest => exact getElem?_roles hbefore c rest

end ArgvState

end CommandLine.Macro.Windows
