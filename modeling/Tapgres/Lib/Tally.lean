import Mathlib.Algebra.BigOperators.Group.Finset.Basic
import Mathlib.Algebra.GroupWithZero.Nat
import Mathlib.Algebra.Order.BigOperators.Group.Finset
import Mathlib.Data.Finset.Card
import Mathlib.Tactic.Common

/-!
# How many are at which stage

Many objects go through stages, one object and one stage at a time.  `tally ids p stage` is how many of
the objects in `ids` are at a stage that meets `p`:

* `tally_update` — one object has moved on;
* `tally_range_succ` — one more object is looked at;
* `tally_mono` — a weaker condition is met by as many at least;
* `sum_update` — the same account for amounts instead of conditions.

Nothing here names a concrete object.
-/

namespace Tapgres.Lib.Tally

variable {ι α : Type*}

def tally (ids : Finset ι) (p : α → Bool) (stage : ι → α) : ℕ := (ids.filter fun i => p (stage i)).card

/-- Whether it is one. -/
def one (b : Bool) : ℕ := if b then 1 else 0

theorem tally_mono {ids : Finset ι} {p q : α → Bool} {stage : ι → α}
    (h : ∀ i ∈ ids, p (stage i) = true → q (stage i) = true) : tally ids p stage ≤ tally ids q stage := by
  refine Finset.card_le_card fun i hi => ?_
  rw [Finset.mem_filter] at hi ⊢
  exact ⟨hi.1, h i hi.1 hi.2⟩

theorem tally_congr {ids : Finset ι} {p : α → Bool} {q : α → Bool} {stage stage' : ι → α}
    (h : ∀ i ∈ ids, p (stage i) = q (stage' i)) : tally ids p stage = tally ids q stage' := by
  rw [tally, tally, Finset.filter_congr fun i hi => by rw [h i hi]]

variable [DecidableEq ι]

theorem tally_insert {ids : Finset ι} {i : ι} (hi : i ∉ ids) (p : α → Bool) (stage : ι → α) :
    tally (insert i ids) p stage = tally ids p stage + one (p (stage i)) := by
  rw [tally, Finset.filter_insert, one]
  split
  · rw [Finset.card_insert_of_notMem fun hmem => hi (Finset.mem_of_mem_filter i hmem)]
    rfl
  · rfl

/-- **One object moves on**: out of what it met, into what it meets. -/
theorem tally_update {ids : Finset ι} {i : ι} (hi : i ∈ ids) (p : α → Bool) (stage : ι → α) (a : α) :
    tally ids p (Function.update stage i a) + one (p (stage i)) = tally ids p stage + one (p a) := by
  have hrest : tally (ids.erase i) p (Function.update stage i a) = tally (ids.erase i) p stage :=
    tally_congr fun j hj => by rw [Function.update_of_ne (Finset.ne_of_mem_erase hj)]
  have hafter := tally_insert (Finset.notMem_erase i ids) p (Function.update stage i a)
  have hbefore := tally_insert (Finset.notMem_erase i ids) p stage
  rw [Finset.insert_erase hi] at hafter hbefore
  rw [Function.update_self] at hafter
  omega

/-- An object that is not looked at. -/
theorem tally_update_of_notMem {ids : Finset ι} {i : ι} (hi : i ∉ ids) (p : α → Bool) (stage : ι → α)
    (a : α) : tally ids p (Function.update stage i a) = tally ids p stage :=
  tally_congr fun j hj => by rw [Function.update_of_ne (ne_of_mem_of_not_mem hj hi)]

theorem tally_range_succ (n : ℕ) (p : α → Bool) (stage : ℕ → α) :
    tally (Finset.range (n + 1)) p stage = tally (Finset.range n) p stage + one (p (stage n)) := by
  rw [Finset.range_add_one, tally_insert Finset.notMem_range_self]

/-- **The same for amounts.** -/
theorem sum_update {ids : Finset ι} {i : ι} (hi : i ∈ ids) (weight : α → ℕ) (stage : ι → α) (a : α) :
    (∑ j ∈ ids, weight (Function.update stage i a j)) + weight (stage i)
      = (∑ j ∈ ids, weight (stage j)) + weight a := by
  have hrest : ∑ j ∈ ids.erase i, weight (Function.update stage i a j)
      = ∑ j ∈ ids.erase i, weight (stage j) :=
    Finset.sum_congr rfl fun j hj => by rw [Function.update_of_ne (Finset.ne_of_mem_erase hj)]
  have hafter := Finset.sum_erase_add ids (fun j => weight (Function.update stage i a j)) hi
  have hbefore := Finset.sum_erase_add ids (fun j => weight (stage j)) hi
  simp only [Function.update_self] at hafter
  omega

theorem sum_update_of_notMem {ids : Finset ι} {i : ι} (hi : i ∉ ids) (weight : α → ℕ) (stage : ι → α)
    (a : α) : ∑ j ∈ ids, weight (Function.update stage i a j) = ∑ j ∈ ids, weight (stage j) :=
  Finset.sum_congr rfl fun j hj => by rw [Function.update_of_ne (ne_of_mem_of_not_mem hj hi)]

end Tapgres.Lib.Tally
