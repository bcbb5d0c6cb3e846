import Mathlib.Computability.StateTransition

/-!
# Halting of a deterministic system

Mathlib's `StateTransition.eval` runs a step function `σ → Option σ` to the end.
Two rules decide whether it gets there: a measure that every step decreases
brings it to the end, and an invariant under which there is always a next step
keeps it from it.
-/

namespace Halting

open StateTransition

variable {σ : Type*} {step : σ → Option σ} {state : σ}

/-- What every step preserves holds of every state reached. -/
theorem reaches_invariant (P : σ → Prop)
    (preserved : ∀ state next, P state → step state = some next → P next) {final : σ}
    (hreaches : Reaches step state final) (hstate : P state) : P final := by
  induction hreaches with
  | refl => exact hstate
  | tail _ hstep ih => exact preserved _ _ ih hstep

/-- **Termination.** A measure that decreases along an invariant runs out. -/
theorem dom_eval_of_measure (P : σ → Prop) (measure : σ → ℕ)
    (decreases : ∀ state next, P state → step state = some next →
      P next ∧ measure next < measure state)
    (hstate : P state) : (eval step state).Dom := by
  induction hmeasure : measure state using Nat.strong_induction_on generalizing state with
  | _ n ih =>
    cases hstep : step state with
    | none =>
      have hmem : state ∈ eval step state := mem_eval.mpr ⟨.refl, hstep⟩
      exact Part.dom_iff_mem.mpr ⟨state, hmem⟩
    | some next =>
      obtain ⟨hnext, hless⟩ := decreases state next hstate hstep
      have hrest := ih (measure next) (hmeasure ▸ hless) hnext rfl
      rwa [reaches_eval (Relation.ReflTransGen.single hstep)]

/-- **Divergence.** A system that can always go on never comes to an end. -/
theorem not_dom_eval_of_invariant (P : σ → Prop)
    (preserved : ∀ state next, P state → step state = some next → P next)
    (continues : ∀ state, P state → step state ≠ none) (hstate : P state) :
    ¬ (eval step state).Dom := by
  intro hdom
  obtain ⟨final, hfinal⟩ := Part.dom_iff_mem.mp hdom
  obtain ⟨hreaches, hend⟩ := mem_eval.mp hfinal
  exact continues final (reaches_invariant P preserved hreaches hstate) hend

end Halting
