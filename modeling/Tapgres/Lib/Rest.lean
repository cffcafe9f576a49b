import Mathlib.Tactic.Common

/-!
# Machines that come to rest

A machine given by its step relation, with perhaps several steps to choose from in a state.  It settles in
`Q` when every run is finite, whatever steps are chosen, and stops only where `Q` holds.

* `settles_of_measure` — an invariant under which a measure falls in every step, and `Q` holds wherever no
  step is left, settles the machine.

Nothing here names a concrete machine.
-/

namespace Tapgres.Lib.Rest

variable {C : Type*} {step : C → C → Prop} {Q : C → Prop}

/-- Every run from the state ends, and ends in `Q`. -/
inductive Settles (step : C → C → Prop) (Q : C → Prop) : C → Prop where
  | intro {c : C} (hrest : (∀ c', ¬ step c c') → Q c) (hnext : ∀ c', step c c' → Settles step Q c') :
      Settles step Q c

/-- **A measure that falls in every step settles the machine.** -/
theorem settles_of_measure (Inv : C → Prop) (m : C → ℕ) (hkeeps : ∀ c c', Inv c → step c c' → Inv c')
    (hfalls : ∀ c c', Inv c → step c c' → m c' < m c) (hrest : ∀ c, Inv c → (∀ c', ¬ step c c') → Q c)
    {c : C} (h : Inv c) : Settles step Q c := by
  induction hm : m c using Nat.strongRecOn generalizing c with
  | ind n ih =>
    subst hm
    exact .intro (hrest c h) fun c' hstep => ih _ (hfalls c c' h hstep) (hkeeps c c' h hstep) rfl

end Tapgres.Lib.Rest
