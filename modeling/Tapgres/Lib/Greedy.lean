import Mathlib.Algebra.GroupWithZero.Nat
import Mathlib.Data.List.Basic
import Mathlib.Tactic.Common

/-!
# Filling a bounded space from the front of a list

A greedy loop takes items of given weights from the front of a list: the first one whatever it weighs,
each further one while the total stays within the capacity.  It stops once the capacity is reached.

* `fit` — how many items it takes;
* `fit_pos` — at least one, if there is one;
* `fit_sum_le` — they stay within the capacity, unless a single item is too heavy for it;
* `fit_maximal` — one item more would not;
* `fills_forward`, `full_forward`, `fills_backward`, `full_backward` — the same of a window that is filled
  from a position on, or from the end backwards.

Nothing here names a concrete item.
-/

namespace Tapgres.Lib.Greedy

/-- How many items are taken from the front, when those taken before weigh `total`. -/
def fit (cap : ℕ) : ℕ → List ℕ → ℕ
  | _, [] => 0
  | total, w :: ws =>
    if total ≠ 0 ∧ total + w > cap then 0
    else if total + w ≥ cap then 1
    else fit cap (total + w) ws + 1

variable {cap total w : ℕ} {ws : List ℕ}

theorem fit_skip (htotal : total ≠ 0) (hover : total + w > cap) : fit cap total (w :: ws) = 0 :=
  if_pos ⟨htotal, hover⟩

theorem fit_last (hfits : total = 0 ∨ total + w ≤ cap) (hfull : total + w ≥ cap) :
    fit cap total (w :: ws) = 1 := by
  rw [fit, if_neg (by omega), if_pos hfull]

theorem fit_more (hroom : total + w < cap) :
    fit cap total (w :: ws) = fit cap (total + w) ws + 1 := by
  rw [fit, if_neg (by omega), if_neg (by omega)]

/-- What the loop does with an item. -/
theorem fit_cases (cap total w : ℕ) :
    (total ≠ 0 ∧ total + w > cap) ∨ ((total = 0 ∨ total + w ≤ cap) ∧ total + w ≥ cap)
      ∨ total + w < cap := by
  omega

theorem fit_le_length (cap total : ℕ) (ws : List ℕ) : fit cap total ws ≤ ws.length := by
  induction ws generalizing total with
  | nil => exact Nat.le_refl 0
  | cons w ws ih =>
    obtain ⟨htotal, hover⟩ | ⟨hfits, hfull⟩ | hroom := fit_cases cap total w
    · rw [fit_skip htotal hover]
      exact Nat.zero_le _
    · rw [fit_last hfits hfull, List.length_cons]
      omega
    · rw [fit_more hroom, List.length_cons]
      exact Nat.succ_le_succ (ih _)

theorem fit_pos (cap : ℕ) (h : ws ≠ []) : 0 < fit cap 0 ws := by
  obtain ⟨w, ws, rfl⟩ := List.exists_cons_of_ne_nil h
  obtain ⟨htotal, _⟩ | ⟨hfits, hfull⟩ | hroom := fit_cases cap 0 w
  · exact absurd rfl htotal
  · rw [fit_last hfits hfull]
    exact Nat.one_pos
  · rw [fit_more hroom]
    exact Nat.succ_pos _

section Positive

variable (hpos : ∀ w ∈ ws, 0 < w)

include hpos

/-- **The items taken stay within the capacity**, unless the first one alone is too heavy. -/
theorem fit_sum_le (htotal : total ≤ cap) :
    total + (ws.take (fit cap total ws)).sum ≤ cap ∨ (total = 0 ∧ fit cap total ws = 1) := by
  induction ws generalizing total with
  | nil => exact .inl htotal
  | cons w ws ih =>
    obtain ⟨hne, hover⟩ | ⟨hfits, hfull⟩ | hroom := fit_cases cap total w
    · rw [fit_skip hne hover]
      exact .inl htotal
    · rw [fit_last hfits hfull]
      rcases hfits with hzero | hfits
      · exact .inr ⟨hzero, rfl⟩
      · exact .inl (by simpa using hfits)
    · have hw : 0 < w := hpos w (List.mem_cons_self ..)
      have hrest := ih (fun v hv => hpos v (List.mem_cons_of_mem w hv)) (Nat.le_of_lt hroom)
      rw [fit_more hroom, List.take_succ_cons, List.sum_cons]
      omega

/-- **One item more would not fit.** -/
theorem fit_maximal {next : ℕ} (hnext : ws[fit cap total ws]? = some next) :
    cap < total + (ws.take (fit cap total ws)).sum + next := by
  induction ws generalizing total with
  | nil => cases hnext
  | cons w ws ih =>
    have hrest : ∀ v ∈ ws, 0 < v := fun v hv => hpos v (List.mem_cons_of_mem w hv)
    obtain ⟨hne, hover⟩ | ⟨hfits, hfull⟩ | hroom := fit_cases cap total w
    · rw [fit_skip hne hover] at hnext ⊢
      obtain rfl := Option.some.inj hnext
      simpa using hover
    · rw [fit_last hfits hfull] at hnext ⊢
      have hpos' : 0 < next := hrest next (List.mem_of_getElem? hnext)
      rw [List.take_succ_cons, List.take_zero, List.sum_singleton]
      omega
    · rw [fit_more hroom] at hnext ⊢
      have hnext' := ih hrest hnext
      rw [List.take_succ_cons, List.sum_cons]
      omega

end Positive

/-! ### Windows -/

/-- What a window holds, from `start` to before `stop`. -/
def held (ws : List ℕ) (start stop : ℕ) : ℕ := ((ws.take stop).drop start).sum

/-- A window with an item, within the list, and within the capacity unless there is but one. -/
structure Fills (cap : ℕ) (ws : List ℕ) (start stop : ℕ) : Prop where
  nonempty : start < stop
  within : stop ≤ ws.length
  fits : held ws start stop ≤ cap ∨ stop = start + 1

theorem held_forward (cap start : ℕ) (ws : List ℕ) :
    held ws start (start + fit cap 0 (ws.drop start))
      = ((ws.drop start).take (fit cap 0 (ws.drop start))).sum := by
  rw [held, List.drop_take, Nat.add_sub_cancel_left]

theorem held_backward (cap : ℕ) (ws : List ℕ) :
    held ws (ws.length - fit cap 0 ws.reverse) ws.length
      = (ws.reverse.take (fit cap 0 ws.reverse)).sum := by
  rw [held, List.take_length, List.take_reverse, List.sum_reverse]

section Windows

variable (hpos : ∀ w ∈ ws, 0 < w)

include hpos

/-- **Filled from a position on.** -/
theorem fills_forward (cap : ℕ) {start : ℕ} (hstart : start < ws.length) :
    Fills cap ws start (start + fit cap 0 (ws.drop start)) := by
  have hne : ws.drop start ≠ [] := mt List.drop_eq_nil_iff.mp (Nat.not_le.mpr hstart)
  have hone := fit_pos cap hne
  have hle := fit_le_length cap 0 (ws.drop start)
  rw [List.length_drop] at hle
  refine ⟨by omega, by omega, ?_⟩
  rw [held_forward]
  have hpos' : ∀ w ∈ ws.drop start, 0 < w := fun w hw => hpos w (List.mem_of_mem_drop hw)
  have hsum := fit_sum_le hpos' (Nat.zero_le cap)
  omega

/-- The item behind such a window would not fit. -/
theorem full_forward {cap start next : ℕ}
    (hnext : ws[start + fit cap 0 (ws.drop start)]? = some next) :
    cap < held ws start (start + fit cap 0 (ws.drop start)) + next := by
  rw [← List.getElem?_drop] at hnext
  have hfull := fit_maximal (fun w hw => hpos w (List.mem_of_mem_drop hw)) hnext
  rw [held_forward]
  omega

/-- **Filled from the end backwards.** -/
theorem fills_backward (cap : ℕ) (hne : ws ≠ []) :
    Fills cap ws (ws.length - fit cap 0 ws.reverse) ws.length := by
  have hone := fit_pos cap (mt List.reverse_eq_nil_iff.mp hne)
  have hle := fit_le_length cap 0 ws.reverse
  rw [List.length_reverse] at hle
  refine ⟨by omega, Nat.le_refl _, ?_⟩
  rw [held_backward]
  have hpos' : ∀ w ∈ ws.reverse, 0 < w := fun w hw => hpos w (List.mem_reverse.mp hw)
  have hsum := fit_sum_le hpos' (Nat.zero_le cap)
  omega

/-- The item before such a window would not fit. -/
theorem full_backward {cap i next : ℕ} (hi : i + 1 = ws.length - fit cap 0 ws.reverse)
    (hnext : ws[i]? = some next) :
    cap < held ws (ws.length - fit cap 0 ws.reverse) ws.length + next := by
  have hlast : fit cap 0 ws.reverse < ws.length := by omega
  have hindex : ws.length - 1 - fit cap 0 ws.reverse = i := by omega
  have hnext' : ws.reverse[fit cap 0 ws.reverse]? = some next := by
    rw [List.getElem?_reverse hlast, hindex, hnext]
  have hfull := fit_maximal (fun w hw => hpos w (List.mem_reverse.mp hw)) hnext'
  rw [held_backward]
  omega

end Windows

end Tapgres.Lib.Greedy
