import Mathlib.Algebra.BigOperators.Group.List.Basic
import Mathlib.Algebra.GroupWithZero.Nat
import Mathlib.Tactic.Common

/-!
# Counters that many threads add to

Atomic counters of `w` bits, each under a name.  A call issues some adds, which are then made one at a
time, in any order and with those of other calls between them.  What a counter holds is what has been
issued to it but for what is still to be made, as a number of `w` bits:

* `Accounts` — the amount issued is split in two, what the counter holds and what is pending;
* `Accounts.issue`, `Accounts.perform` — so it is after each step;
* `Accounts.toNat` — in plain numbers, where what has been issued fits in the counter;
* `Accounts.le_perform` — there no add takes a counter back;
* `Accounts.settled` — with nothing pending the order of the adds does not matter.

Nothing here names a concrete counter.
-/

namespace Tapgres.Lib.FetchAdd

/-- An atomic add to one of the counters. -/
structure Add (ι : Type*) (w : ℕ) where
  counter : ι
  amount : BitVec w

structure Memory (ι : Type*) (w : ℕ) where
  value : ι → BitVec w
  /-- Adds that are issued and not yet made. -/
  pending : List (Add ι w)

variable {ι : Type*} {w : ℕ}

/-- A call issues its adds. -/
def Memory.issue (m : Memory ι w) (adds : List (Add ι w)) : Memory ι w :=
  { m with pending := m.pending ++ adds }

variable [DecidableEq ι]

/-- One of the pending adds is made; a counter that overflows wraps around. -/
def Memory.perform (m : Memory ι w) (i : ℕ) : Memory ι w :=
  match m.pending[i]? with
  | some add =>
    { value := fun k => if add.counter = k then m.value k + add.amount else m.value k
      pending := m.pending.eraseIdx i }
  | none => m

/-- What an add adds to a counter. -/
def Add.to (add : Add ι w) (k : ι) : ℕ := if add.counter = k then add.amount.toNat else 0

/-- What a list of them does. -/
def amountTo (k : ι) (adds : List (Add ι w)) : ℕ := (adds.map fun add => add.to k).sum

theorem amountTo_append (k : ι) (adds adds' : List (Add ι w)) :
    amountTo k (adds ++ adds') = amountTo k adds + amountTo k adds' := by
  rw [amountTo, List.map_append, List.sum_append]
  rfl

theorem amountTo_eraseIdx {adds : List (Add ι w)} {i : ℕ} {add : Add ι w} (h : adds[i]? = some add)
    (k : ι) : add.to k + amountTo k (adds.eraseIdx i) = amountTo k adds := by
  obtain ⟨hi, rfl⟩ := List.getElem?_eq_some_iff.mp h
  have hsum := List.CommMonoid.add_sum_eraseIdx (l := adds.map fun add => add.to k) (i := i)
    (by rwa [List.length_map])
  rw [List.getElem_map, List.eraseIdx_map] at hsum
  exact hsum

/-- Of the amount that has been issued to a counter it holds what is not pending. -/
def Accounts (m : Memory ι w) (k : ι) (issued : ℕ) : Prop :=
  ∃ made, m.value k = BitVec.ofNat w made ∧ made + amountTo k m.pending = issued

namespace Accounts

variable {m : Memory ι w} {k : ι} {issued : ℕ}

theorem start {value : ι → BitVec w} {n : ℕ} (h : value k = BitVec.ofNat w n) :
    Accounts ⟨value, []⟩ k n :=
  ⟨n, h, rfl⟩

theorem issue (h : Accounts m k issued) (adds : List (Add ι w)) :
    Accounts (m.issue adds) k (issued + amountTo k adds) := by
  obtain ⟨made, hvalue, hissued⟩ := h
  refine ⟨made, hvalue, ?_⟩
  show made + amountTo k (m.pending ++ adds) = issued + amountTo k adds
  rw [amountTo_append, ← Nat.add_assoc, hissued]

theorem perform (h : Accounts m k issued) (i : ℕ) : Accounts (m.perform i) k issued := by
  unfold Memory.perform
  cases hadd : m.pending[i]? with
  | none => exact h
  | some add =>
    obtain ⟨made, hvalue, hissued⟩ := h
    have herase := amountTo_eraseIdx hadd k
    refine ⟨made + add.to k, ?_, ?_⟩
    · show (if add.counter = k then m.value k + add.amount else m.value k) = BitVec.ofNat w (made + add.to k)
      rw [Add.to, hvalue]
      split
      · rw [BitVec.ofNat_add, BitVec.ofNat_toNat, BitVec.setWidth_eq]
      · rfl
    · show made + add.to k + amountTo k (m.pending.eraseIdx i) = issued
      omega

/-- **What has been issued fits**: then the counter has not wrapped around. -/
theorem toNat (h : Accounts m k issued) (hfits : issued < 2 ^ w) :
    (m.value k).toNat + amountTo k m.pending = issued := by
  obtain ⟨made, hvalue, hissued⟩ := h
  have hmade : made < 2 ^ w := by omega
  rw [hvalue, BitVec.toNat_ofNat, Nat.mod_eq_of_lt hmade]
  exact hissued

/-- **And no add takes it back.** -/
theorem le_perform (h : Accounts m k issued) (hfits : issued < 2 ^ w) (i : ℕ) :
    (m.value k).toNat ≤ ((m.perform i).value k).toNat := by
  have hbefore := h.toNat hfits
  have hafter := (h.perform i).toNat hfits
  have hpending : amountTo k (m.perform i).pending ≤ amountTo k m.pending := by
    unfold Memory.perform
    cases hadd : m.pending[i]? with
    | none => exact Nat.le_refl _
    | some add =>
      have herase := amountTo_eraseIdx hadd k
      show amountTo k (m.pending.eraseIdx i) ≤ amountTo k m.pending
      omega
  omega

/-- **Nothing is pending**: then the counter holds all of it, in whatever order the adds were made. -/
theorem settled (h : Accounts m k issued) (hpending : m.pending = []) :
    m.value k = BitVec.ofNat w issued := by
  obtain ⟨made, hvalue, hissued⟩ := h
  rw [hpending] at hissued
  rw [hvalue, ← hissued]
  rfl

end Accounts

end Tapgres.Lib.FetchAdd
