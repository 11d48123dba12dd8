import CommandLine.Proofs.Parts
import CommandLine.Proofs.Unix.Lenient

/-!
A strict and a lenient reading of a line compared. On the way through the line the strict one
refuses nothing but shell syntax, and the lenient one nothing but bad quoting; where the strict one
gets to the end of the line with something open, the lenient one has the same open. What both find
is one row of findings, which they spell differently where a dollar sign or a backquote is escaped
inside double quotes: there the lenient one keeps the backslash. So the words differ in such
backslashes only.
-/

set_option autoImplicit false

namespace CommandLine.Unix

open Transducer (exists_of_map_eq_ok)

/-- What is found in a line, with the characters told apart in front of which only a strict scan
drops a backslash. -/
inductive Finding
  | common (piece : Piece)
  /-- A character that is escaped inside double quotes. -/
  | escaped (c : Char)
  deriving DecidableEq, Repr

namespace Finding

/-- The pieces that a strict scan makes of a finding. -/
def strict : Finding → List Piece
  | common piece => [piece]
  | escaped c => [.char c]

/-- The pieces that a lenient scan makes of a finding. -/
def lenient : Finding → List Piece
  | common piece => [piece]
  | escaped c => [.char '\\', .char c]

/-- The words that findings spell: one for each group between gaps. -/
def words (spelled : Finding → List Piece) (findings : List Finding) : List Word :=
  (groups (.common .gap) findings).map fun group ↦ Piece.text (group.flatMap spelled)

theorem words_flatMap {spelled : Finding → List Piece}
    (hcommon : ∀ piece, spelled (.common piece) = [piece])
    (hescaped : ∀ c, spelled (.escaped c) ≠ [] ∧ .gap ∉ spelled (.escaped c))
    (findings : List Finding) :
    Piece.words (findings.flatMap spelled) = words spelled findings := by
  refine Piece.words_flatMap (.common .gap) spelled (hcommon .gap) ?_ findings
  intro finding hfinding
  cases finding with
  | common piece =>
    have hgap : Piece.gap ≠ piece := fun h ↦ hfinding (h ▸ rfl)
    simp [hcommon, hgap]
  | escaped c => exact hescaped c

theorem words_strict (findings : List Finding) :
    Piece.words (findings.flatMap strict) = words strict findings :=
  words_flatMap (fun _ ↦ rfl) (fun c ↦ by simp [strict]) findings

theorem words_lenient (findings : List Finding) :
    Piece.words (findings.flatMap lenient) = words lenient findings :=
  words_flatMap (fun _ ↦ rfl) (fun c ↦ by simp [lenient]) findings

theorem length_words (first second : Finding → List Piece) (findings : List Finding) :
    (words first findings).length = (words second findings).length := by
  rw [words, words, List.length_map, List.length_map]

end Finding

namespace Reading

variable {reading : Reading} {surroundings : Surroundings} {mode next : Mode} {c : Char}
  {refusal : Refusal} {line : List Char}

/-! ### What is refused -/

/-- A strict scan refuses shell syntax where a lenient one goes on. -/
def RefusesSyntax (reading : Reading) (refusal : Refusal) : Prop :=
  reading.strict = true ∧ refusal = .foundMeta

theorem refusesSyntax_of_valueOf {name : List Char} (h : reading.valueOf name = .error refusal) :
    reading.RefusesSyntax refusal := by
  unfold valueOf at h
  split at h
  · cases h
  · split at h
    · cases h
    · split at h <;> cases h
      exact ⟨‹_›, rfl⟩

theorem refusesSyntax_of_expansion {quoted : Bool} {name : List Char}
    (h : reading.expansion quoted name = .error refusal) : reading.RefusesSyntax refusal := by
  cases hvalue : reading.valueOf name with
  | error other =>
    rw [expansion, hvalue] at h
    cases h
    exact refusesSyntax_of_valueOf hvalue
  | ok value =>
    rw [expansion, hvalue] at h
    cases h

theorem refusesSyntax_of_bareStep (h : reading.bareStep c = .error refusal) :
    reading.RefusesSyntax refusal := by
  unfold bareStep at h
  repeat' split at h
  all_goals cases h
  rename_i hmeta
  exact ⟨hmeta.1, rfl⟩

theorem refusesSyntax_of_doubleStep (h : reading.doubleStep c = .error refusal) :
    reading.RefusesSyntax refusal := by
  unfold doubleStep at h
  repeat' split at h
  all_goals cases h
  rename_i hmeta
  exact ⟨hmeta.1, rfl⟩

theorem eq_error_of_prepend {pieces : List Piece} {result : Step}
    (h : prepend pieces result = .error refusal) : result = .error refusal := by
  cases result with
  | error other =>
    cases h
    rfl
  | ok found => cases h

/-- The refusal of a character: shell syntax for a strict scan, and for a lenient one a name that is
not closed. -/
def refusalOf (strict : Bool) : Refusal := if strict then .foundMeta else .badQuoting

theorem RefusesSyntax.eq (h : reading.RefusesSyntax refusal) :
    refusal = refusalOf reading.strict := by
  rw [h.1, h.2]
  rfl

theorem eq_of_nameEnd {quoted braced : Bool} {name : List Char}
    (h : reading.nameEnd quoted braced name c = .error refusal) :
    refusal = refusalOf reading.strict := by
  cases hexpansion : reading.expansion quoted name with
  | error other =>
    rw [nameEnd, hexpansion] at h
    cases h
    exact (refusesSyntax_of_expansion hexpansion).eq
  | ok pieces =>
    simp only [nameEnd, hexpansion, bind, Except.bind] at h
    cases braced with
    | true =>
      simp only [if_true] at h
      split at h
      · cases h
      · unfold refusalOf
        split at h <;> cases h <;> simp [*]
    | false =>
      have hnext := eq_error_of_prepend h
      cases quoted with
      | true => exact (refusesSyntax_of_doubleStep hnext).eq
      | false => exact (refusesSyntax_of_bareStep hnext).eq

theorem eq_of_nameStep {quoted braced : Bool} {reversed : List Char}
    (h : reading.nameStep quoted braced reversed c = .error refusal) :
    refusal = refusalOf reading.strict := by
  unfold nameStep at h
  split at h
  · cases h
  · exact eq_of_nameEnd h

/-- Every character that is refused is refused alike. -/
theorem eq_of_step (h : reading.step mode c = .error refusal) :
    refusal = refusalOf reading.strict := by
  cases mode with
  | gap =>
    simp only [step] at h
    split at h
    · cases h
    · exact (refusesSyntax_of_bareStep h).eq
  | tilde =>
    simp only [step] at h
    split at h
    · exact (refusesSyntax_of_bareStep (eq_error_of_prepend h)).eq
    · split at h
      · rename_i hstrict
        cases h
        rw [hstrict]
        rfl
      · exact (refusesSyntax_of_bareStep (eq_error_of_prepend h)).eq
  | bare => exact (refusesSyntax_of_bareStep h).eq
  | escape => cases h
  | single =>
    simp only [step] at h
    split at h <;> cases h
  | double => exact (refusesSyntax_of_doubleStep h).eq
  | doubleEscape => cases h
  | dollar quoted =>
    simp only [step] at h
    split at h
    · cases h
    · exact eq_of_nameStep h
  | name quoted braced reversed => exact eq_of_nameStep h

/-- At the end of a line bad quoting is refused, or a name whose value a strict scan asks for. -/
theorem eq_of_finish (h : reading.finish mode = .error refusal) :
    reading.RefusesSyntax refusal ∨
      refusal = .badQuoting ∧ ∀ other : Reading, other.finish mode = .error .badQuoting := by
  cases mode with
  | gap | tilde | bare => cases h
  | escape | single | double | doubleEscape | dollar =>
    cases h
    exact .inr ⟨rfl, fun _ ↦ rfl⟩
  | name quoted braced reversed =>
    cases quoted with
    | true =>
      cases h
      exact .inr ⟨rfl, fun _ ↦ rfl⟩
    | false =>
      cases braced with
      | true =>
        cases h
        exact .inr ⟨rfl, fun _ ↦ rfl⟩
      | false => exact .inl (refusesSyntax_of_expansion h)

/-- A line is refused at its first character, or behind it. -/
theorem error_of_pieces_cons (h : reading.pieces mode (c :: line) = .error refusal) :
    reading.step mode c = .error refusal ∨ ∃ found next,
      reading.step mode c = .ok (found, next) ∧ reading.pieces next line = .error refusal := by
  cases hstep : reading.step mode c with
  | error other =>
    rw [pieces, hstep] at h
    cases h
    exact .inl rfl
  | ok result =>
    obtain ⟨found, next⟩ := result
    rw [pieces_cons _ hstep] at h
    cases hrest : reading.pieces next line with
    | error other =>
      rw [hrest] at h
      cases h
      exact .inr ⟨found, next, rfl, hrest⟩
    | ok more =>
      rw [hrest] at h
      cases h

/-- A lenient scan refuses nothing but bad quoting. -/
theorem eq_badQuoting_of_pieces (h : (Reading.mk false surroundings).pieces mode line =
    .error refusal) : refusal = .badQuoting := by
  induction line generalizing mode with
  | nil =>
    rcases eq_of_finish h with hsyntax | ⟨hrefusal, -⟩
    · exact absurd hsyntax.1 Bool.false_ne_true
    · exact hrefusal
  | cons c rest ih =>
    rcases error_of_pieces_cons h with hstep | ⟨_, _, -, hrest⟩
    · exact eq_of_step hstep
    · exact ih hrest

/-- Bad quoting for a strict scan is bad quoting for a lenient one: both end alike. -/
theorem lenient_pieces_badQuoting (h : (Reading.mk true surroundings).pieces mode line =
    .error .badQuoting) :
    (Reading.mk false surroundings).pieces mode line = .error .badQuoting := by
  induction line generalizing mode with
  | nil =>
    rcases eq_of_finish h with hsyntax | ⟨-, hfinish⟩
    · cases hsyntax.2
    · exact hfinish _
  | cons c rest ih =>
    rcases error_of_pieces_cons h with hstep | ⟨found, next, hstep, hrest⟩
    · -- a character is not refused for bad quoting by a strict scan
      cases eq_of_step hstep
    · obtain ⟨other, hlenient⟩ := exists_lenient_step hstep
      rw [pieces_cons _ hlenient, ih hrest]
      rfl

/-! ### What is found -/

/-- A dollar sign or a backquote behind a backslash inside double quotes. -/
def isEscaped (mode : Mode) (c : Char) : Bool :=
  mode == .doubleEscape && (c == '$' || c == '`')

/-- What a strict scan finds in a line. -/
def findings (surroundings : Surroundings) (mode : Mode) :
    List Char → Except Refusal (List Finding)
  | [] => ((Reading.mk true surroundings).finish mode).map (List.map .common)
  | c :: rest => do
    let (found, next) ← (Reading.mk true surroundings).step mode c
    let behind ← findings surroundings next rest
    return (if isEscaped mode c then [.escaped c] else found.map .common) ++ behind

theorem flatMap_common {spelled : Finding → List Piece}
    (hcommon : ∀ piece, spelled (.common piece) = [piece]) (found : List Piece) :
    (found.map Finding.common).flatMap spelled = found := by
  simp [List.flatMap_map, hcommon]

/-- A character that is escaped inside double quotes is a finding for both scans; the lenient one
has its backslash, too. -/
theorem step_of_isEscaped (h : isEscaped mode c = true) (surroundings : Surroundings) :
    (Reading.mk true surroundings).step mode c = .ok ((Finding.escaped c).strict, .double) ∧
      (Reading.mk false surroundings).step mode c = .ok ((Finding.escaped c).lenient, .double) := by
  simp only [isEscaped, Bool.and_eq_true, Bool.or_eq_true, beq_iff_eq] at h
  obtain ⟨rfl, rfl | rfl⟩ := h <;> exact ⟨rfl, rfl⟩

/-- Any other character that a strict scan reads a lenient one reads alike. -/
theorem lenient_step_of_not_isEscaped (h : isEscaped mode c = false) {found : List Piece}
    (hstep : (Reading.mk true surroundings).step mode c = .ok (found, next)) :
    (Reading.mk false surroundings).step mode c = .ok (found, next) := by
  by_cases hmode : mode = .doubleEscape
  · subst hmode
    rw [← hstep]
    simp_all [isEscaped, step, dropsBackslash]
  · exact lenient_step hmode hstep

/-- Both scans find the findings of a line that the strict one takes, each in its spelling. -/
theorem exists_findings {all : List Piece}
    (h : (Reading.mk true surroundings).pieces mode line = .ok all) :
    ∃ found, findings surroundings mode line = .ok found ∧ all = found.flatMap Finding.strict ∧
      (Reading.mk false surroundings).pieces mode line = .ok (found.flatMap Finding.lenient) ∧
      ∀ c, .escaped c ∈ found → c = '$' ∨ c = '`' := by
  induction line generalizing mode all with
  | nil =>
    have hfinish : (Reading.mk true surroundings).finish mode = .ok all := h
    refine ⟨all.map .common, ?_, (flatMap_common (fun _ ↦ rfl) all).symm, ?_, by simp⟩
    · rw [findings, hfinish]
      rfl
    · rw [flatMap_common (fun _ ↦ rfl) all]
      exact lenient_finish hfinish
  | cons c rest ih =>
    obtain ⟨here, next, more, hstep, hmore, rfl⟩ := exists_of_pieces_cons _ h
    obtain ⟨found, hfound, rfl, hlenient, hmem⟩ := ih hmore
    by_cases hescaped : isEscaped mode c = true
    · obtain ⟨hstrict, hother⟩ := step_of_isEscaped hescaped surroundings
      rw [hstep] at hstrict
      cases hstrict
      refine ⟨.escaped c :: found, ?_, by rw [List.flatMap_cons], ?_, ?_⟩
      · simp [findings, hstep, hfound, hescaped, bind, Except.bind, pure, Except.pure]
      · rw [pieces_cons _ hother, hlenient, List.flatMap_cons]
        rfl
      · intro d hd
        rcases List.mem_cons.mp hd with heq | hd
        · cases heq
          simp only [isEscaped, Bool.and_eq_true, Bool.or_eq_true, beq_iff_eq] at hescaped
          exact hescaped.2
        · exact hmem d hd
    · have hother := lenient_step_of_not_isEscaped (by simpa using hescaped) hstep
      refine ⟨here.map .common ++ found, ?_, ?_, ?_, ?_⟩
      · simp [findings, hstep, hfound, hescaped, bind, Except.bind, pure, Except.pure]
      · rw [List.flatMap_append, flatMap_common fun _ ↦ rfl]
      · rw [pieces_cons _ hother, hlenient, List.flatMap_append, flatMap_common fun _ ↦ rfl]
        rfl
      · intro d hd
        exact hmem d (by simpa using hd)

end Reading

/-- A lenient split never refuses a line for shell syntax, and refuses it for bad quoting where a
strict one does. Where a strict split succeeds, a lenient one finds the same number of words, and in
place of every dollar sign and backquote that is escaped inside double quotes, and nowhere else, a
backslash and that character. -/
theorem split_strict_and_lenient (surroundings : Surroundings) (line : List Char) :
    split false surroundings line ≠ .error .foundMeta ∧
      (split true surroundings line = .error .badQuoting →
        split false surroundings line = .error .badQuoting) ∧
      ∀ words, split true surroundings line = .ok words →
        ∃ others, split false surroundings line = .ok others ∧ others.length = words.length ∧
          ∃ found, Reading.findings surroundings .gap line = .ok found ∧
            (∀ c, .escaped c ∈ found → c = '$' ∨ c = '`') ∧
            words = Finding.words Finding.strict found ∧
              others = Finding.words Finding.lenient found := by
  refine ⟨?_, ?_, ?_⟩
  · intro h
    unfold split at h
    cases hpieces : (Reading.mk false surroundings).pieces .gap line with
    | error refusal =>
      rw [hpieces, Reading.eq_badQuoting_of_pieces hpieces] at h
      cases h
    | ok found =>
      rw [hpieces] at h
      cases h
  · intro h
    unfold split at h ⊢
    cases hpieces : (Reading.mk true surroundings).pieces .gap line with
    | error refusal =>
      rw [hpieces] at h
      cases h
      rw [Reading.lenient_pieces_badQuoting hpieces]
      rfl
    | ok found =>
      rw [hpieces] at h
      cases h
  · intro words h
    obtain ⟨all, hpieces, rfl⟩ := exists_of_map_eq_ok h
    obtain ⟨found, hfound, rfl, hlenient, hmem⟩ := Reading.exists_findings hpieces
    have hothers : split false surroundings line =
        .ok (Finding.words Finding.lenient found) := by
      rw [split, hlenient, Except.map, Finding.words_lenient]
    rw [Finding.words_strict]
    exact ⟨_, hothers, Finding.length_words _ _ found, found, hfound, hmem, rfl, rfl⟩

/-- Only the backslashes in front of the dollar sign and the backquote between the double quotes are
kept by a lenient split alone; those in front of a double quote and of a letter, and the one between
single quotes, are the same for both. -/
theorem split_strict_and_lenient_of_escapes :
    let surroundings : Surroundings := .bare "/home".toList
    let line : List Char := "~ \"\\$b\\`\\\"\\x\" '\\$'\"\"".toList
    split true surroundings line = .ok ["/home".toList, "$b`\"\\x".toList, "\\$".toList] ∧
      ∃ found, Reading.findings surroundings .gap line = .ok found ∧
        (∀ c, .escaped c ∈ found → c = '$' ∨ c = '`') ∧
        Finding.words Finding.strict found = ["/home".toList, "$b`\"\\x".toList, "\\$".toList] ∧
        Finding.words Finding.lenient found =
          ["/home".toList, "\\$b\\`\"\\x".toList, "\\$".toList] := by
  intro surroundings line
  have hstrict : split true surroundings line =
      .ok ["/home".toList, "$b`\"\\x".toList, "\\$".toList] := rfl
  have hlenient : split false surroundings line =
      .ok ["/home".toList, "\\$b\\`\"\\x".toList, "\\$".toList] := rfl
  obtain ⟨others, hothers, -, found, hfound, hmem, hwords, rfl⟩ :=
    (split_strict_and_lenient surroundings line).2.2 _ hstrict
  refine ⟨hstrict, found, hfound, hmem, hwords.symm, ?_⟩
  rw [hlenient] at hothers
  exact (Except.ok.inj hothers).symm

end CommandLine.Unix
