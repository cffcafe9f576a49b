import Mathlib.Logic.Relation
import Mathlib.Tactic.Common

/-!
# Forward simulation

Two machines given by their step relations, a concrete and an abstract one, and a relation between their
states.  The concrete machine is simulated when each of its steps, from related states, is answered by some
steps of the abstract one, perhaps none, that lead to related states again:

* `Simulates.reach` — so whatever the concrete machine reaches is related to something that the abstract one
  reaches;
* `Simulates.carries` — and what holds of all that the abstract one reaches carries over.

Nothing here names a concrete machine.
-/

namespace Tapgres.Lib.Simulation

open Relation (ReflTransGen)

variable {C A : Type*}

/-- The abstract machine answers each step of the concrete one. -/
def Simulates (step : C → C → Prop) (answer : A → A → Prop) (Related : C → A → Prop) : Prop :=
  ∀ c c' a, Related c a → step c c' → ∃ a', ReflTransGen answer a a' ∧ Related c' a'

variable {step : C → C → Prop} {answer : A → A → Prop} {Related : C → A → Prop}

/-- **Runs are answered by runs.** -/
theorem Simulates.reach (h : Simulates step answer Related) {c₀ c : C} {a₀ : A} (hstart : Related c₀ a₀)
    (hreach : ReflTransGen step c₀ c) : ∃ a, ReflTransGen answer a₀ a ∧ Related c a := by
  induction hreach with
  | refl => exact ⟨a₀, .refl, hstart⟩
  | tail _ hstep ih =>
    obtain ⟨a, hreach, hrelated⟩ := ih
    obtain ⟨a', hanswer, hrelated'⟩ := h _ _ a hrelated hstep
    exact ⟨a', hreach.trans hanswer, hrelated'⟩

/-- **What the abstract machine keeps, the concrete one keeps**, as far as related states show it. -/
theorem Simulates.carries (h : Simulates step answer Related) {c₀ : C} {a₀ : A} (hstart : Related c₀ a₀)
    {P : A → Prop} {Q : C → Prop} (hP : ∀ a, ReflTransGen answer a₀ a → P a)
    (hQ : ∀ c a, Related c a → P a → Q c) {c : C} (hreach : ReflTransGen step c₀ c) : Q c := by
  obtain ⟨a, hreach', hrelated⟩ := h.reach hstart hreach
  exact hQ c a hrelated (hP a hreach')

end Tapgres.Lib.Simulation
