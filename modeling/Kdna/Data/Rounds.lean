import Kdna.Data.Fallible

/-!
# Rounds until done

A loop that tries a step for a bounded number of rounds. A step either is done or asks for another
round with a new state. When something that is bounded grows with every round that asks for
another, the rounds do not run out.
-/

namespace Kdna

variable {σ β ε : Type}

/-- What a round leaves: a state for the next round, or the result. -/
inductive Round (σ β : Type)
  | again (s : σ)
  | done (b : β)

/-- At most `left` rounds from the round `count` on, with `none` when they run out. -/
def rounds (step : ℕ → σ → Except ε (Round σ β)) : ℕ → ℕ → σ → Except ε (Option β)
  | 0, _, _ => .ok none
  | left + 1, count, s => do
    match ← step count s with
    | .again s' => rounds step left (count + 1) s'
    | .done b => .ok (some b)

/-- The states with which the rounds begin. -/
inductive RoundState (step : ℕ → σ → Except ε (Round σ β)) (start : σ) : ℕ → σ → Prop
  | start : RoundState step start 0 start
  | again {count : ℕ} {s s' : σ} : RoundState step start count s → step count s = .ok (.again s') →
      RoundState step start (count + 1) s'

variable {step : ℕ → σ → Except ε (Round σ β)} {start : σ} {P : σ → Prop}

/-- What holds at the start and is kept by a round holds whenever a round begins. -/
theorem RoundState.induct (hstart : P start)
    (hstep : ∀ count s s', P s → step count s = .ok (.again s') → P s') {count : ℕ} {s : σ}
    (h : RoundState step start count s) : P s := by
  induction h with
  | start => exact hstart
  | again _ hagain ih => exact hstep _ _ _ ih hagain

/-- The rounds end with one that is done or with one that fails, when a size that `most` bounds
grows with each round that asks for another. -/
theorem rounds_cases {size : σ → ℕ} {most : ℕ}
    (hstep : ∀ count s s', P s → step count s = .ok (.again s') → P s' ∧ size s < size s')
    (hsize : ∀ s, P s → size s ≤ most) {left count : ℕ} {s : σ}
    (hstate : RoundState step start count s) (hs : P s) (hleft : most < size s + left) :
    ∃ last t, RoundState step start last t ∧
      ((∃ b, step last t = .ok (.done b) ∧ rounds step left count s = .ok (some b)) ∨
        ∃ e, step last t = .error e ∧ rounds step left count s = .error e) := by
  induction left generalizing count s with
  | zero =>
    have hle := hsize s hs
    omega
  | succ left ih =>
    cases hround : step count s with
    | error e =>
      refine ⟨count, s, hstate, Or.inr ⟨e, hround, ?_⟩⟩
      rw [rounds, hround, error_bind]
    | ok round =>
      cases round with
      | done b =>
        refine ⟨count, s, hstate, Or.inl ⟨b, hround, ?_⟩⟩
        rw [rounds, hround, ok_bind]
      | again s' =>
        obtain ⟨hs', hlt⟩ := hstep _ _ _ hs hround
        have hrest := ih (RoundState.again hstate hround) hs' (by omega)
        have hunfold : rounds step (left + 1) count s = rounds step left (count + 1) s' := by
          rw [rounds, hround, ok_bind]
        rwa [hunfold]

end Kdna
