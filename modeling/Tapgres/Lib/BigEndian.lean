import Mathlib.Algebra.GroupWithZero.Nat
import Mathlib.Tactic.Common

/-!
# Numbers in network order

A number of fixed width as a list of bytes, the most significant first.  Reading back gives the number
modulo the width (`ofBe_toBe`).
-/

namespace Tapgres.Lib.BigEndian

/-- The number whose base-256 digits are the bytes. -/
def ofBe (bs : List UInt8) : ℕ := bs.foldl (fun n b => n * 256 + b.toNat) 0

/-- The last `w` base-256 digits of `n`. -/
def toBe : ℕ → ℕ → List UInt8
  | 0, _ => []
  | w + 1, n => toBe w (n / 256) ++ [UInt8.ofNat n]

@[simp] theorem length_toBe (w n : ℕ) : (toBe w n).length = w := by
  induction w generalizing n with
  | zero => rfl
  | succ w ih => rw [toBe, List.length_append, ih, List.length_singleton]

theorem ofBe_append_singleton (bs : List UInt8) (b : UInt8) : ofBe (bs ++ [b]) = ofBe bs * 256 + b.toNat := by
  rw [ofBe, List.foldl_append]
  rfl

theorem ofBe_toBe (w n : ℕ) : ofBe (toBe w n) = n % 256 ^ w := by
  induction w generalizing n with
  | zero =>
    rw [Nat.pow_zero, Nat.mod_one]
    rfl
  | succ w ih =>
    have hdigit : (UInt8.ofNat n).toNat = n % 256 := UInt8.toNat_ofNat'
    calc ofBe (toBe (w + 1) n)
        = ofBe (toBe w (n / 256)) * 256 + (UInt8.ofNat n).toNat := ofBe_append_singleton _ _
      _ = n % 256 + 256 * (n / 256 % 256 ^ w) := by rw [ih, hdigit]; omega
      _ = n % 256 ^ (w + 1) := by rw [Nat.pow_succ', Nat.mod_mul]

/-- A number that fits is read back as it was. -/
theorem ofBe_toBe_of_lt {w n : ℕ} (h : n < 256 ^ w) : ofBe (toBe w n) = n := by
  rw [ofBe_toBe, Nat.mod_eq_of_lt h]

end Tapgres.Lib.BigEndian
