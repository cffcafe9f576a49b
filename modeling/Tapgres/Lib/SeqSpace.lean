import Mathlib.Data.BitVec
import Mathlib.Tactic.Common

/-!
# Wrapping 32-bit sequence space

A stream of bytes is numbered from `base` on in 32-bit arithmetic that wraps.  `seqAt base p` is the
number of position `p`; `signedDistance a b` is how far `a` lies ahead of `b` as a signed 32-bit value.
For positions below `2^31` the signed distance is the difference of the positions, however often the
numbers have wrapped on the way (`signedDistance_seqAt`), and below `2^32` a number names one position
(`seqAt_inj`).
-/

namespace Tapgres.Lib.SeqSpace

/-- The sequence number of position `p` of a stream whose position `0` is numbered `base`. -/
def seqAt (base : BitVec 32) (p : ℕ) : BitVec 32 := base + BitVec.ofNat 32 p

/-- How far `a` is ahead of `b`, as a signed 32-bit value. -/
def signedDistance (a b : BitVec 32) : ℤ := (a - b).toInt

@[simp] theorem seqAt_zero (base : BitVec 32) : seqAt base 0 = base := by
  simp [seqAt]

theorem seqAt_add (base : BitVec 32) (p k : ℕ) :
    seqAt base p + BitVec.ofNat 32 k = seqAt base (p + k) := by
  simp [seqAt, BitVec.ofNat_add, BitVec.add_assoc]

theorem toNat_seqAt_sub (base : BitVec 32) {p : ℕ} (hp : p < 2 ^ 32) :
    (seqAt base p - base).toNat = p := by
  have h : seqAt base p - base = BitVec.ofNat 32 p := by
    rw [seqAt, BitVec.add_comm, BitVec.add_sub_cancel]
  rw [h, BitVec.toNat_ofNat, Nat.mod_eq_of_lt hp]

theorem seqAt_inj (base : BitVec 32) {p q : ℕ} (hp : p < 2 ^ 32) (hq : q < 2 ^ 32) :
    seqAt base p = seqAt base q ↔ p = q := by
  constructor
  · intro h
    rw [← toNat_seqAt_sub base hp, ← toNat_seqAt_sub base hq, h]
  · rintro rfl
    rfl

/-- **The signed distance of two positions is their difference**, wherever the numbering started, as
long as they are less than half the space apart. -/
theorem signedDistance_near (base : BitVec 32) {p q : ℕ} (hp : p < q + 2 ^ 31) (hq : q ≤ p + 2 ^ 31) :
    signedDistance (seqAt base p) (seqAt base q) = (p : ℤ) - q := by
  have h : seqAt base p - seqAt base q = BitVec.ofNat 32 p - BitVec.ofNat 32 q := by
    simp only [seqAt]
    bv_omega
  rw [signedDistance, h, BitVec.toInt_sub, BitVec.toInt_ofNat', BitVec.toInt_ofNat']
  simp only [Int.bmod_def]
  omega

/-- The same for two positions of a stream of less than `2^31` bytes. -/
theorem signedDistance_seqAt (base : BitVec 32) {p q : ℕ} (hp : p < 2 ^ 31) (hq : q < 2 ^ 31) :
    signedDistance (seqAt base p) (seqAt base q) = (p : ℤ) - q :=
  signedDistance_near base (by omega) (by omega)

/-- A number that is not behind `base` is the number of a position. -/
theorem exists_seqAt {base k : BitVec 32} (h : 0 ≤ signedDistance k base) :
    ∃ q : ℕ, k = seqAt base q ∧ signedDistance k base = q ∧ q < 2 ^ 31 := by
  have hlt : signedDistance k base < 2 ^ 31 := BitVec.toInt_lt
  refine ⟨(signedDistance k base).toNat, ?_, by omega, by omega⟩
  have hdiff : BitVec.ofNat 32 (signedDistance k base).toNat = k - base := by
    apply BitVec.eq_of_toInt_eq
    rw [BitVec.toInt_ofNat', Int.toNat_of_nonneg h, signedDistance, BitVec.toInt_bmod_cancel]
  rw [seqAt, hdiff]
  bv_omega

end Tapgres.Lib.SeqSpace
