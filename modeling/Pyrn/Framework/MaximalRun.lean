import Mathlib.Logic.Relation

/-!
# Maximal runs

What holds where the runs of a nondeterministic step relation end, for every order of steps.
-/

namespace Transition

variable {σ : Type*}

/-- Every run from the state ends, and where it ends `post` holds. -/
inductive Ends (step : σ → σ → Prop) (post : σ → Prop) : σ → Prop
  | intro {s : σ} : (∀ t, step s t → Ends step post t) → ((∀ t, ¬step s t) → post s) →
      Ends step post s

variable {step : σ → σ → Prop} {post : σ → Prop} {s t : σ}

theorem Ends.of_stuck (hstuck : ∀ t, ¬step s t) (hpost : post s) : Ends step post s :=
  .intro (fun t h => absurd h (hstuck t)) fun _ => hpost

/-- A state with a step ends as the states after it do. -/
theorem Ends.of_step (hstep : step s t) (hnext : ∀ t, step s t → Ends step post t) :
    Ends step post s :=
  .intro hnext fun hstuck => absurd hstep (hstuck t)

theorem Ends.next (h : Ends step post s) (hstep : step s t) : Ends step post t := by
  cases h with
  | intro hnext _ => exact hnext t hstep

/-- A state that a run reaches and that has no step satisfies `post`. -/
theorem Ends.post_of_stuck (h : Ends step post s) (hreach : Relation.ReflTransGen step s t)
    (hstuck : ∀ u, ¬step t u) : post t := by
  induction hreach using Relation.ReflTransGen.head_induction_on with
  | refl =>
    cases h with
    | intro _ hpost => exact hpost hstuck
  | head hstep _ ih => exact ih (h.next hstep)

/-- No run goes on for ever. -/
theorem Ends.not_infinite (h : Ends step post s) (run : Nat → σ) (hstart : run 0 = s) :
    ¬∀ i, step (run i) (run (i + 1)) := by
  induction h generalizing run with
  | intro _ _ ih =>
    intro hrun
    subst hstart
    exact ih (run 1) (hrun 0) (fun i => run (i + 1)) rfl fun i => hrun (i + 1)

end Transition
