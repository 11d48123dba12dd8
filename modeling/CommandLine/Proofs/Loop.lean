/-!
Loops, turn by turn. A turn leads from one state to the next, or ends the loop with a result. A loop
whose turns all make some number smaller comes to its end.
-/

set_option autoImplicit false

namespace CommandLine.Loop

variable {σ ρ : Type} {turn : σ → σ ⊕ ρ}

/-- The loop goes on for `count` turns, and the next one ends it with the result. -/
inductive Ends (turn : σ → σ ⊕ ρ) : Nat → σ → ρ → Prop
  | last {state : σ} {result : ρ} (hturn : turn state = .inr result) : Ends turn 0 state result
  | more {count : Nat} {state next : σ} {result : ρ} (hturn : turn state = .inl next)
    (hnext : Ends turn count next result) : Ends turn (count + 1) state result

/-- A loop takes no more turns than the number that they make smaller, and ends with what they do
not change. -/
theorem exists_ends (measure : σ → Nat) (value : σ → ρ)
    (hless : ∀ state next, turn state = .inl next → measure next < measure state)
    (hvalue : ∀ state, value state = (turn state).elim value id) (state : σ) :
    ∃ count ≤ measure state, Ends turn count state (value state) := by
  induction hmeasure : measure state using Nat.strongRecOn generalizing state with
  | ind bound ih =>
    rw [hvalue state]
    cases hturn : turn state with
    | inl next =>
      have hnext := hless state next hturn
      obtain ⟨count, hcount, hends⟩ := ih _ (hmeasure ▸ hnext) next rfl
      exact ⟨count + 1, by omega, .more hturn hends⟩
    | inr result => exact ⟨0, Nat.zero_le _, .last hturn⟩

end CommandLine.Loop
