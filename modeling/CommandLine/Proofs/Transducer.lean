/-!
Reading a text one character at a time, where each character yields something and changes the
state, or is refused. The parts of a text are read one after the other.
-/

set_option autoImplicit false

namespace CommandLine.Transducer

variable {σ α β ε : Type} {step : σ → Char → Except ε (List α × σ)}

/-- What becomes of a result was made of one. -/
theorem exists_of_map_eq_ok {result : Except ε α} {f : α → β} {value : β}
    (h : result.map f = .ok value) : ∃ found, result = .ok found ∧ f found = value := by
  cases result with
  | error refusal => cases h
  | ok found => exact ⟨found, rfl, Except.ok.inj h⟩

/-- What a text yields, and the state behind it. -/
def advance (step : σ → Char → Except ε (List α × σ)) (state : σ) :
    List Char → Except ε (List α × σ)
  | [] => .ok ([], state)
  | c :: rest => do
    let (here, next) ← step state c
    let (behind, last) ← advance step next rest
    return (here ++ behind, last)

@[simp] theorem advance_nil (state : σ) : advance step state [] = .ok ([], state) := rfl

theorem advance_cons {state next : σ} {c : Char} {here : List α}
    (h : step state c = .ok (here, next)) (rest : List Char) :
    advance step state (c :: rest) =
      (advance step next rest).map fun result ↦ (here ++ result.1, result.2) := by
  simp only [advance, h, bind, Except.bind]
  cases advance step next rest <;> rfl

theorem advance_singleton {state next : σ} {c : Char} {here : List α}
    (h : step state c = .ok (here, next)) : advance step state [c] = .ok (here, next) := by
  rw [advance_cons h]
  simp [Except.map]

theorem advance_cons_of_ok {state next last : σ} {c : Char} {rest : List Char}
    {here behind : List α} (hstep : step state c = .ok (here, next))
    (hrest : advance step next rest = .ok (behind, last)) :
    advance step state (c :: rest) = .ok (here ++ behind, last) := by
  rw [advance_cons hstep, hrest]
  rfl

/-- A text that can be read begins with a character that can be read. -/
theorem exists_of_advance_cons {state last : σ} {c : Char} {rest : List Char} {all : List α}
    (h : advance step state (c :: rest) = .ok (all, last)) :
    ∃ here next behind, step state c = .ok (here, next) ∧
      advance step next rest = .ok (behind, last) ∧ all = here ++ behind := by
  cases hstep : step state c with
  | error refusal => simp [advance, hstep, bind, Except.bind] at h
  | ok result =>
    obtain ⟨here, next⟩ := result
    rw [advance_cons hstep] at h
    obtain ⟨⟨behind, final⟩, hrest, heq⟩ := exists_of_map_eq_ok h
    cases heq
    exact ⟨here, next, behind, rfl, hrest, rfl⟩

theorem advance_append {state next : σ} {first : List Char} {here : List α}
    (h : advance step state first = .ok (here, next)) (second : List Char) :
    advance step state (first ++ second) =
      (advance step next second).map fun result ↦ (here ++ result.1, result.2) := by
  induction first generalizing state here with
  | nil =>
    cases h
    cases hsecond : advance step next second <;> simp [hsecond, Except.map]
  | cons c rest ih =>
    obtain ⟨first, middle, behind, hstep, hrest, rfl⟩ := exists_of_advance_cons h
    rw [List.cons_append, advance_cons hstep, ih hrest]
    cases advance step next second <;> simp [Except.map]

theorem advance_append_of_ok {state next last : σ} {first second : List Char}
    {here behind : List α} (hfirst : advance step state first = .ok (here, next))
    (hsecond : advance step next second = .ok (behind, last)) :
    advance step state (first ++ second) = .ok (here ++ behind, last) := by
  rw [advance_append hfirst, hsecond]
  rfl

end CommandLine.Transducer
