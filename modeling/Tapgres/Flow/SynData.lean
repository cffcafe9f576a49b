import Tapgres.Flow.Reassembly

/-!
# Data on a SYN

A SYN takes one sequence number, and data it carries is numbered from the next one on.  `feed` puts
`next_seq` there, and then reads the segment's own number as that of its data:

* `feedFromSyn` — a stream cut into segments in order, the first part on the SYN itself;
* `feedParts_inOrder` — parts that start at `next_seq` are appended whole;
* `feedParts_ahead` — parts that start one byte late are never delivered;
* `syn_data_whole_iff` — so the stream arrives whole exactly when the SYN carries none of it.
-/

namespace Tapgres.Flow

open Tapgres.Net Tapgres.Lib.SeqSpace

/-- Consecutive parts of a stream, fed in order; the first byte of the first one is numbered `seq`. -/
def feedParts (d : Direction) (seq : BitVec 32) : List Bytes → Direction
  | [] => d
  | part :: parts => feedParts (d.feed seq false part) (seq + BitVec.ofNat 32 part.length) parts

/-- A fresh direction fed a SYN numbered `isn` with `first` on it, and then the other parts. -/
def feedFromSyn (role : Role) (client : SocketAddr) (isn : BitVec 32) (first : Bytes)
    (parts : List Bytes) : Direction :=
  feedParts ((Direction.new role client).feed isn true first) (isn + 1 + BitVec.ofNat 32 first.length) parts

/-- The stream `S` behind a SYN numbered `isn` has been appended, and `next_seq` stands right behind it. -/
def DeliveredWhole (d : Direction) (isn : BitVec 32) (S : Bytes) : Prop :=
  d.rxbuf = S ∧ d.nextSeq = some (isn + 1 + BitVec.ofNat 32 S.length)

/-! ### Parts in order -/

/-- A part that starts at `next_seq` is appended whole. -/
theorem feed_at_next {d : Direction} {seq : BitVec 32} (hnext : d.nextSeq = some seq) (hooo : d.ooo = ∅)
    (part : Bytes) :
    d.feed seq false part = { d with nextSeq := some (seq + BitVec.ofNat 32 part.length)
                                     rxbuf := d.rxbuf ++ part } := by
  rcases eq_or_ne part [] with rfl | hne
  · have hseq : seq + BitVec.ofNat 32 ([] : Bytes).length = seq := BitVec.add_zero seq
    rw [hseq, ← hnext, List.append_nil]
    rfl
  · have hempty : part.isEmpty = false := by simpa using hne
    have hsize : d.ooo.size = 0 := by rw [hooo]; rfl
    simp [Direction.feed, hempty, hnext, Direction.deliver, hsize, flushOoo]

theorem feedParts_inOrder {d : Direction} {seq : BitVec 32} (hnext : d.nextSeq = some seq)
    (hooo : d.ooo = ∅) (parts : List Bytes) :
    (feedParts d seq parts).rxbuf = d.rxbuf ++ parts.flatten ∧
      (feedParts d seq parts).nextSeq = some (seq + BitVec.ofNat 32 parts.flatten.length) := by
  induction parts generalizing d seq with
  | nil =>
    have hseq : seq + BitVec.ofNat 32 ([] : List Bytes).flatten.length = seq := BitVec.add_zero seq
    exact ⟨(List.append_nil _).symm, by rw [hseq]; exact hnext⟩
  | cons part parts ih =>
    rw [feedParts, feed_at_next hnext hooo part]
    obtain ⟨hrx, hseq⟩ := ih (d := { d with nextSeq := some (seq + BitVec.ofNat 32 part.length)
                                            rxbuf := d.rxbuf ++ part }) rfl hooo
    rw [hrx, hseq, List.flatten_cons, List.length_append, BitVec.ofNat_add, List.append_assoc,
      BitVec.add_assoc]
    exact ⟨rfl, rfl⟩

/-! ### Parts ahead of the expected number -/

/-- Parts that start ahead of `next_seq` are buffered, and nothing is delivered. -/
theorem feedParts_ahead {d : Direction} {next : BitVec 32} (hnext : d.nextSeq = some next) {k : ℕ}
    (hk : 0 < k) (parts : List Bytes) (hlen : k + parts.flatten.length ≤ 2 ^ 31) :
    (feedParts d (seqAt next k) parts).rxbuf = d.rxbuf ∧
      (feedParts d (seqAt next k) parts).nextSeq = some next := by
  induction parts generalizing d k with
  | nil => exact ⟨rfl, hnext⟩
  | cons part parts ih =>
    rw [List.flatten_cons, List.length_append] at hlen
    have hfed : (d.feed (seqAt next k) false part).rxbuf = d.rxbuf ∧
        (d.feed (seqAt next k) false part).nextSeq = some next := by
      rcases eq_or_ne part [] with rfl | hne
      · exact ⟨rfl, hnext⟩
      · have hpos : 0 < part.length := List.length_pos_iff.mpr hne
        have hahead : 0 < signedDistance (seqAt next k) next := by
          have hdist := signedDistance_seqAt next (p := k) (q := 0) (by omega) (by omega)
          rw [seqAt_zero] at hdist
          omega
        rcases feed_data_cases hnext hne (seqAt next k) with ⟨_, hfeed⟩ | ⟨hbehind, _⟩ | ⟨hbehind, _⟩
        · rw [hfeed]
          exact ⟨rfl, hnext⟩
        · omega
        · omega
    obtain ⟨hrx, hseq⟩ := ih (d := d.feed (seqAt next k) false part) hfed.2 (k := k + part.length)
      (by omega) (by omega)
    rw [feedParts, seqAt_add, hrx, hseq]
    exact ⟨hfed.1, rfl⟩

/-! ### The SYN -/

theorem feed_syn_empty (role : Role) (client : SocketAddr) (isn : BitVec 32) :
    (Direction.new role client).feed isn true []
      = { Direction.new role client with nextSeq := some (isn + 1) } := rfl

/-- **Data on a SYN loses its first byte**: it is read as starting one number early. -/
theorem feed_syn_data (role : Role) (client : SocketAddr) (isn : BitVec 32) {first : Bytes}
    (hne : first ≠ []) :
    ((Direction.new role client).feed isn true first).rxbuf = first.drop 1 ∧
      ((Direction.new role client).feed isn true first).nextSeq
        = some (isn + BitVec.ofNat 32 first.length) := by
  have hfeed : (Direction.new role client).feed isn true first
      = { Direction.new role client with nextSeq := some (isn + 1) }.feed isn false first := rfl
  have hdiff : isn - (isn + 1) = -1 := by bv_omega
  have hdist : signedDistance isn (isn + 1) = -1 := by rw [signedDistance, hdiff]; rfl
  have hskip : negAsUsize (isn - (isn + 1)) = 1 := by rw [hdiff]; rfl
  have hpos : 0 < first.length := List.length_pos_iff.mpr hne
  rw [hfeed]
  rcases feed_data_cases (d := { Direction.new role client with nextSeq := some (isn + 1) }) rfl hne isn with
    ⟨hahead, _⟩ | ⟨_, hold, hfed⟩ | ⟨_, hnew, hfed⟩
  · omega
  · -- the one byte is taken for one seen before
    rw [hskip] at hold
    have hone : first.length = 1 := by omega
    rw [hfed, hone, List.drop_eq_nil_of_le (by omega)]
    exact ⟨rfl, rfl⟩
  · rw [hskip] at hnew hfed
    have hsize : (Direction.new role client).ooo.size = 0 := rfl
    have hlen : isn + 1 + BitVec.ofNat 32 (first.length - 1) = isn + BitVec.ofNat 32 first.length := by
      obtain ⟨k, hk⟩ : ∃ k, first.length = 1 + k := ⟨first.length - 1, by omega⟩
      rw [hk, Nat.add_sub_cancel_left, BitVec.ofNat_add, ← BitVec.add_assoc]
      rfl
    rw [hfed, ← hlen]
    simp [Direction.deliver, hsize, flushOoo]
    rfl

/-- **A stream behind a SYN is delivered whole exactly when none of it rides on the SYN.** -/
theorem syn_data_whole_iff (role : Role) (client : SocketAddr) (isn : BitVec 32) (first : Bytes)
    (parts : List Bytes) (hlen : (first ++ parts.flatten).length < 2 ^ 31) :
    DeliveredWhole (feedFromSyn role client isn first parts) isn (first ++ parts.flatten) ↔ first = [] := by
  rw [List.length_append] at hlen
  constructor
  · rintro ⟨hrx, _⟩
    by_contra hne
    have hpos : 0 < first.length := List.length_pos_iff.mpr hne
    obtain ⟨hbuf, hnext⟩ := feed_syn_data role client isn hne
    -- what follows stands one number ahead of what is expected
    have hstart : isn + 1 + BitVec.ofNat 32 first.length
        = seqAt (isn + BitVec.ofNat 32 first.length) 1 := by
      rw [seqAt, BitVec.add_assoc, BitVec.add_assoc, BitVec.add_comm (1 : BitVec 32)]
      rfl
    have hstuck := (feedParts_ahead hnext Nat.one_pos parts (by omega)).1
    rw [feedFromSyn, hstart, hstuck, hbuf] at hrx
    have hcount := congrArg List.length hrx
    rw [List.length_drop, List.length_append] at hcount
    omega
  · rintro rfl
    have hstart : isn + 1 + BitVec.ofNat 32 ([] : Bytes).length = isn + 1 := BitVec.add_zero _
    rw [feedFromSyn, hstart, feed_syn_empty]
    exact feedParts_inOrder rfl rfl parts

theorem syn_data_whole_three_parts :
    DeliveredWhole (feedFromSyn .client ⟨.v4 0, 40001⟩ (-2) [] [[1, 2], [], [3]]) (-2) [1, 2, 3] :=
  (syn_data_whole_iff .client ⟨.v4 0, 40001⟩ (-2) [] [[1, 2], [], [3]] (by decide)).mpr rfl

/-- **A stream cut behind its second byte**, with that part on the SYN: one byte arrives. -/
theorem syn_data_lost :
    (feedFromSyn .client ⟨.v4 0, 40001⟩ 7 [1, 2] [[3, 4]]).rxbuf = [2] ∧
      ¬DeliveredWhole (feedFromSyn .client ⟨.v4 0, 40001⟩ 7 [1, 2] [[3, 4]]) 7 [1, 2, 3, 4] := by
  have hrx : (feedFromSyn .client ⟨.v4 0, 40001⟩ 7 [1, 2] [[3, 4]]).rxbuf = [2] := by decide
  refine ⟨hrx, ?_⟩
  intro h
  rw [DeliveredWhole, hrx] at h
  exact absurd h.1 (by decide)

end Tapgres.Flow
