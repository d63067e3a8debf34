import Mathlib

/-!
# Loops that may break, fail or diverge

A `loop` statement with `break` is a step function on the loop state.  The
loop is run with a budget of iterations and reports `diverged` when the budget
is spent, so it is a total, executable function.  `run_spec` is the rule used
for such loops: an invariant under which no step fails, a measure that every
further iteration lowers, and a relation between the state at the loop head
and the state at the break.
-/

namespace FuelLoop

universe u v

variable {σ : Type u} {ε : Type v}

/-- One iteration either goes round again or breaks. -/
inductive Step (σ : Type u) where
  | again (state : σ)
  | done (state : σ)

def run (step : σ → Except ε (Step σ)) (diverged : ε) :
    ℕ → σ → Except ε σ
  | 0, _ => .error diverged
  | fuel + 1, state =>
      match step state with
      | .error failure => .error failure
      | .ok (.done final) => .ok final
      | .ok (.again next) => run step diverged fuel next

/-- Partial correctness and termination together: with more fuel than the
measure the loop breaks, and its final state is related to the initial one. -/
theorem run_spec {step : σ → Except ε (Step σ)} {diverged : ε}
    (Inv : σ → Prop) {Spec : σ → σ → Prop} (measure : σ → ℕ)
    (hstep : ∀ state, Inv state →
      (∃ final, step state = .ok (.done final) ∧ Spec state final) ∨
        ∃ next, step state = .ok (.again next) ∧ Inv next ∧
          measure next < measure state ∧
          ∀ final, Spec next final → Spec state final)
    {fuel : ℕ} {state : σ} (hinv : Inv state) (hfuel : measure state < fuel) :
    ∃ final, run step diverged fuel state = .ok final ∧ Spec state final := by
  induction fuel generalizing state with
  | zero => exact absurd hfuel (Nat.not_lt_zero _)
  | succ fuel ih =>
      rcases hstep state hinv with ⟨final, heq, hspec⟩ |
        ⟨next, heq, hnext, hless, hback⟩
      · exact ⟨final, by simp [run, heq], hspec⟩
      · obtain ⟨final, hrun, hspec⟩ := ih hnext (by omega)
        exact ⟨final, by simp [run, heq, hrun], hback final hspec⟩

end FuelLoop
