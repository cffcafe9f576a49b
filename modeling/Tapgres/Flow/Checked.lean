import Tapgres.Flow.Direction
import Tapgres.Lib.Slice

/-!
# The arithmetic of a feed, checked

`feed` subtracts sequence numbers, negates the signed distance and slices the data by it.
`feedChecked` is the same function as a checked build runs it, with `none` where it panics:

* `checkedNeg` — the negation, which overflows for one value;
* `FeedSound` — a feed that does not panic, and skips as many bytes as the segment is behind;
* `feed_sound_iff` — the one distance that is not sound, half the sequence space.
-/

namespace Tapgres.Flow

open Tapgres.Net Tapgres.Lib.SeqSpace Tapgres.Lib.Slice

/-- `-diff` for an `i32`, which has no negation of its least value. -/
def checkedNeg (diff : BitVec 32) : Option (BitVec 32) :=
  if diff = BitVec.intMin 32 then none else some (-diff)

/-- `Direction::feed` in a checked build. -/
def Direction.feedChecked (d : Direction) (seq : BitVec 32) (syn : Bool) (data : Bytes) :
    Option Direction :=
  let d := if syn then { d with nextSeq := some (seq + 1) } else d
  if data.isEmpty then some d
  else
    let next := d.nextSeq.getD seq
    let d := { d with nextSeq := some next }
    let diff := seq - next
    if 0 < diff.toInt then some { d with ooo := d.ooo.insert seq data }
    else if diff.toInt < 0 then
      match checkedNeg diff with
      | none => none
      | some neg =>
        let skip := (neg.signExtend 64).toNat
        if skip ≥ data.length then some d
        else (sliceFrom data skip).map fun chunk => d.deliver (seq + BitVec.ofNat 32 skip) chunk
    else some (d.deliver seq data)

/-- The number a segment's data is compared with: `next_seq`, which a SYN sets and the first data
anchors. -/
def Direction.expected (d : Direction) (seq : BitVec 32) (syn : Bool) : BitVec 32 :=
  if syn then seq + 1 else d.nextSeq.getD seq

/-- The arithmetic of one feed is sound: the negation and the slice do not panic, and for a segment behind
`next_seq` the negated distance fits an `i32` and the bytes to skip are as many as it is behind by. -/
structure FeedSound (d : Direction) (seq : BitVec 32) (syn : Bool) (data : Bytes) : Prop where
  runs : (d.feedChecked seq syn data).isSome = true
  representable : signedDistance seq (d.expected seq syn) < 0 →
    -signedDistance seq (d.expected seq syn) < 2 ^ 31
  skip : signedDistance seq (d.expected seq syn) < 0 →
    negAsUsize (seq - d.expected seq syn) = (d.expected seq syn - seq).toNat

/-! ### The signed distance and its negation -/

theorem checkedNeg_eq {diff : BitVec 32} (h : diff ≠ BitVec.intMin 32) : checkedNeg diff = some (-diff) := by
  rw [checkedNeg, if_neg h]

/-- The least `i32` is the distance of half the sequence space. -/
theorem sub_eq_intMin_iff (seq next : BitVec 32) : seq - next = BitVec.intMin 32 ↔ next = seq + 2 ^ 31 := by
  have hmin : BitVec.intMin 32 = 0x80000000#32 := by decide
  have hhalf : (2 : BitVec 32) ^ 31 = 0x80000000#32 := by decide
  rw [hmin, hhalf]
  constructor
  · intro h
    bv_omega
  · intro h
    bv_omega

/-- Any other distance can be negated, and behind `next` its negation is how far behind. -/
theorem negation_fits {seq next : BitVec 32} (hne : seq - next ≠ BitVec.intMin 32)
    (hbehind : signedDistance seq next < 0) :
    -signedDistance seq next < 2 ^ 31 ∧ negAsUsize (seq - next) = (next - seq).toNat := by
  have hmin : (seq - next).toNat ≠ 2 ^ 31 := by
    intro h
    apply hne
    apply BitVec.eq_of_toNat_eq
    rw [h]
    decide
  rw [signedDistance, BitVec.toInt_eq_toNat_cond] at hbehind
  have hlarge : 2 ^ 31 < (seq - next).toNat := by
    split at hbehind <;> omega
  have hneg : (-(seq - next)).toNat = (next - seq).toNat := by
    apply congrArg BitVec.toNat
    bv_omega
  have hback : (next - seq).toNat = 2 ^ 32 - (seq - next).toNat := by
    rw [← hneg, BitVec.toNat_neg]
    have := (seq - next).isLt
    omega
  constructor
  · rw [signedDistance, BitVec.toInt_eq_toNat_cond]
    split <;> omega
  · have hmsb : (-(seq - next)).msb = false := by
      rw [BitVec.msb_eq_false_iff_two_mul_lt, hneg, hback]
      omega
    rw [negAsUsize, BitVec.signExtend_eq_setWidth_of_msb_false hmsb, BitVec.toNat_setWidth, hneg]
    omega

/-! ### One feed -/

/-- Where the run does not panic it does what `feed` does. -/
theorem feedChecked_eq (d : Direction) (seq : BitVec 32) (syn : Bool) (data : Bytes)
    (hne : seq - d.expected seq syn ≠ BitVec.intMin 32) :
    d.feedChecked seq syn data = some (d.feed seq syn data) := by
  rw [Direction.feedChecked, Direction.feed]
  have hnext : ((if syn then { d with nextSeq := some (seq + 1) } else d).nextSeq).getD seq
      = d.expected seq syn := by
    cases syn <;> rfl
  simp only [hnext]
  split
  · rfl
  · split
    · rfl
    · split
      · have hskip : ((-(seq - d.expected seq syn)).signExtend 64).toNat
            = negAsUsize (seq - d.expected seq syn) := rfl
        simp only [checkedNeg_eq hne, hskip]
        split
        · rfl
        · rename_i hlt
          rw [sliceFrom_eq (by omega), Option.map_some]
      · rfl

/-- Half the sequence space behind, the negation overflows. -/
theorem feedChecked_panics {d : Direction} {seq : BitVec 32} {syn : Bool} {data : Bytes} (hdata : data ≠ [])
    (hmin : seq - d.expected seq syn = BitVec.intMin 32) : d.feedChecked seq syn data = none := by
  have hempty : data.isEmpty = false := by simpa using hdata
  have hnext : ((if syn then { d with nextSeq := some (seq + 1) } else d).nextSeq).getD seq
      = d.expected seq syn := by
    cases syn <;> rfl
  have hneg : (BitVec.intMin 32).toInt < 0 := by decide
  have hoverflow : checkedNeg (BitVec.intMin 32) = none := if_pos rfl
  rw [Direction.feedChecked]
  simp only [hempty, hnext, hmin, hoverflow, Bool.false_eq_true, if_false]
  rw [if_neg (by omega), if_pos hneg]

/-- **The arithmetic of a feed is sound**, unless the segment is half the sequence space from
`next_seq`. -/
theorem feed_sound_iff (d : Direction) (seq : BitVec 32) (syn : Bool) {data : Bytes} (hdata : data ≠ []) :
    FeedSound d seq syn data ↔ ¬(syn = false ∧ d.nextSeq = some (seq + 2 ^ 31)) := by
  have hhalf : (syn = false ∧ d.nextSeq = some (seq + 2 ^ 31)) ↔ d.expected seq syn = seq + 2 ^ 31 := by
    have hone : seq + 1 ≠ seq + 2 ^ 31 := by
      have : (2 : BitVec 32) ^ 31 = 0x80000000#32 := by decide
      rw [this]
      bv_omega
    have hzero : seq ≠ seq + 2 ^ 31 := by
      have : (2 : BitVec 32) ^ 31 = 0x80000000#32 := by decide
      rw [this]
      bv_omega
    rw [Direction.expected]
    cases syn
    · cases hnext : d.nextSeq with
      | none => simpa using hzero
      | some next => simp
    · simpa using hone
  rw [hhalf, ← sub_eq_intMin_iff]
  constructor
  · intro h hmin
    have hruns := h.runs
    rw [feedChecked_panics hdata hmin] at hruns
    exact absurd hruns (by decide)
  · intro hne
    refine ⟨?_, ?_, ?_⟩
    · rw [feedChecked_eq d seq syn data hne]
      rfl
    · intro hbehind
      exact (negation_fits hne hbehind).1
    · intro hbehind
      exact (negation_fits hne hbehind).2

/-- A segment right behind a SYN, and one a hundred numbers back. -/
theorem feed_sound_behind :
    FeedSound ((Direction.new .client ⟨.v4 0, 40001⟩).feed 100 true []) 1 false [5] :=
  (feed_sound_iff _ 1 false (by decide)).mpr (by decide)

/-- **Half the sequence space.**  After a SYN numbered `2^31 - 1` a segment numbered `0` panics in a
checked build; unchecked, the number of bytes to skip is not the distance `2^31`. -/
theorem feed_overflows :
    ¬FeedSound ((Direction.new .client ⟨.v4 0, 40001⟩).feed 0x7fffffff true []) 0 false [5] ∧
      ((Direction.new .client ⟨.v4 0, 40001⟩).feed 0x7fffffff true []).feedChecked 0 false [5] = none ∧
      negAsUsize (0 - 0x80000000) = 2 ^ 64 - 2 ^ 31 := by
  refine ⟨?_, feedChecked_panics (by decide) (by decide), by decide⟩
  intro h
  have hruns := h.runs
  rw [feedChecked_panics (by decide) (by decide)] at hruns
  exact absurd hruns (by decide)

end Tapgres.Flow
