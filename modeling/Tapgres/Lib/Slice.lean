import Mathlib.Data.List.Infix
import Mathlib.Data.Nat.Notation
import Mathlib.Tactic.Common

/-!
# Checked slices

`slice` and `sliceFrom` take a part of a list between two positions, and fail where a position is out
of range or the two are the wrong way round.  In range they are `take` and `drop` (`slice_eq`,
`sliceFrom_eq`), and a longer list has a longer slice (`slice_extend`).
-/

namespace Tapgres.Lib.Slice

variable {α : Type*}

/-- `&xs[i..j]`, or `none` where that is out of range. -/
def slice (xs : List α) (i j : ℕ) : Option (List α) :=
  if i ≤ j ∧ j ≤ xs.length then some ((xs.take j).drop i) else none

/-- `&xs[i..]`, or `none` where that is out of range. -/
def sliceFrom (xs : List α) (i : ℕ) : Option (List α) :=
  if i ≤ xs.length then some (xs.drop i) else none

theorem slice_eq {xs : List α} {i j : ℕ} (hij : i ≤ j) (hj : j ≤ xs.length) :
    slice xs i j = some ((xs.take j).drop i) := by
  rw [slice, if_pos ⟨hij, hj⟩]

theorem sliceFrom_eq {xs : List α} {i : ℕ} (h : i ≤ xs.length) : sliceFrom xs i = some (xs.drop i) := by
  rw [sliceFrom, if_pos h]

/-- The slice of a longer list, up to a later end, extends that of the list. -/
theorem slice_extend {xs ys : List α} (h : xs <+: ys) (i : ℕ) {j k : ℕ} (hjk : j ≤ k) :
    (xs.take j).drop i <+: (ys.take k).drop i := by
  obtain ⟨more, rfl⟩ := h
  have htake : xs.take j <+: (xs ++ more).take k := by
    have hmin : xs.take j = (xs ++ more).take (min j xs.length) := by
      rw [List.take_append_of_le_length (Nat.min_le_right _ _), ← List.take_take,
        List.take_length]
    rw [hmin]
    exact List.take_prefix_take_left (by omega)
  exact List.IsPrefix.drop htake i

end Tapgres.Lib.Slice
