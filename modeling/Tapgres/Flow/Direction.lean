import Std.Data.ExtTreeMap
import Tapgres.Decode.Format
import Tapgres.Lib.SeqSpace

/-!
# One direction of a connection

`Direction` and its reassembly step `feed`, as in `flow.rs`.  `rxbuf` is the in-order byte buffer the
decoder reads from; `ooo` is the `BTreeMap` of segments received ahead of `next_seq`.
-/

namespace Tapgres.Flow

open Std (ExtTreeMap)
open Tapgres.Net Tapgres.Pgwire Tapgres.Decode Tapgres.Lib.SeqSpace

/-- (ip, port) -/
abbrev Endpoint := IpAddr × UInt16

/-- Which side of the connection a direction belongs to. -/
inductive Role where
  | client
  | server
  deriving DecidableEq, Repr

abbrev OooMap := ExtTreeMap (BitVec 32) Bytes

/-- The keys of the map are ordered as numbers. -/
instance instTransCmpKey : Std.TransCmp (compare : BitVec 32 → BitVec 32 → Ordering) := inferInstance

/-- One direction: its TCP reassembly state plus the pgwire decode buffer and context. -/
structure Direction where
  role : Role
  client : SocketAddr
  nextSeq : Option (BitVec 32)
  ooo : OooMap
  rxbuf : Bytes
  ctx : DecodeContext
  rowDesc : Option (List FieldSummary)

/-- `Direction::new`. -/
def Direction.new (role : Role) (client : SocketAddr) : Direction :=
  { role, client, nextSeq := none, ooo := ∅, rxbuf := [], ctx := {}, rowDesc := none }

/-- Decode-only constructor: the SSL-awaiting flag is cleared. -/
def Direction.forDecoding (role : Role) (client : SocketAddr) : Direction :=
  let d := Direction.new role client
  { d with ctx := { d.ctx with awaitingFrontendSsl := false } }

/-- `(-diff) as usize` for an `i32`: the negation wraps, then the value is sign-extended. -/
def negAsUsize (diff : BitVec 32) : ℕ := ((-diff).signExtend 64).toNat

/-- The loop `while let Some(b) = self.ooo.remove(&adv)`, on fuel: the map loses an entry each turn. -/
def flushOoo : ℕ → OooMap → BitVec 32 → Bytes → OooMap × BitVec 32 × Bytes
  | 0, ooo, adv, rxbuf => (ooo, adv, rxbuf)
  | n + 1, ooo, adv, rxbuf =>
    match ooo[adv]? with
    | some b => flushOoo n (ooo.erase adv) (adv + BitVec.ofNat 32 b.length) (rxbuf ++ b)
    | none => (ooo, adv, rxbuf)

/-- The tail of `feed`: append `chunk`, which starts at `cur`, and drain what now fits behind it. -/
def Direction.deliver (d : Direction) (cur : BitVec 32) (chunk : Bytes) : Direction :=
  let adv := cur + BitVec.ofNat 32 chunk.length
  let (ooo, adv, rxbuf) := flushOoo d.ooo.size d.ooo adv (d.rxbuf ++ chunk)
  { d with ooo := ooo, rxbuf := rxbuf, nextSeq := some adv }

/-- Feed a TCP segment's payload into this direction's reassembly buffer. -/
def Direction.feed (d : Direction) (seq : BitVec 32) (syn : Bool) (data : Bytes) : Direction :=
  -- SYN occupies a sequence number; first data byte is seq+1
  let d := if syn then { d with nextSeq := some (seq + 1) } else d
  if data.isEmpty then d
  else
    -- SYN missed (capture started mid-connection): anchor here
    let next := d.nextSeq.getD seq
    let d := { d with nextSeq := some next }
    let diff := seq - next
    if 0 < diff.toInt then { d with ooo := d.ooo.insert seq data }
    else if diff.toInt < 0 then
      let skip := negAsUsize diff
      if skip ≥ data.length then d
      else d.deliver (seq + BitVec.ofNat 32 skip) (data.drop skip)
    else d.deliver seq data

/-! ### The three kinds of feed -/

/-- Skipping the bytes already seen leads to `next_seq`. -/
theorem seq_add_negAsUsize (seq next : BitVec 32) :
    seq + BitVec.ofNat 32 (negAsUsize (seq - next)) = next := by
  have h : BitVec.ofNat 32 (negAsUsize (seq - next)) = next - seq := by
    rw [negAsUsize]
    apply BitVec.eq_of_toNat_eq
    simp only [BitVec.neg_sub, BitVec.toNat_ofNat, BitVec.toNat_signExtend]
    split <;> bv_omega
  rw [h]
  bv_omega

/-- **One feed of data.**  Ahead of `next_seq` it is buffered, wholly behind it is dropped, otherwise
the bytes from `next_seq` on are delivered. -/
theorem feed_data_cases {d : Direction} {next : BitVec 32} {data : Bytes} (hd : d.nextSeq = some next)
    (hne : data ≠ []) (seq : BitVec 32) :
    (0 < signedDistance seq next ∧
      d.feed seq false data = { d with ooo := d.ooo.insert seq data }) ∨
    (signedDistance seq next ≤ 0 ∧ data.length ≤ negAsUsize (seq - next) ∧
      d.feed seq false data = d) ∨
    (signedDistance seq next ≤ 0 ∧ negAsUsize (seq - next) < data.length ∧
      d.feed seq false data = d.deliver next (data.drop (negAsUsize (seq - next)))) := by
  have hself : { d with nextSeq := some next } = d := by rw [← hd]
  have hempty : data.isEmpty = false := by simpa using hne
  have hfeed : d.feed seq false data
      = if 0 < signedDistance seq next then { d with ooo := d.ooo.insert seq data }
        else if signedDistance seq next < 0 then
          if negAsUsize (seq - next) ≥ data.length then d
          else d.deliver next (data.drop (negAsUsize (seq - next)))
        else d.deliver seq data := by
    simp only [Direction.feed, hempty, hd, Option.getD_some, hself, Bool.false_eq_true, if_false,
      seq_add_negAsUsize, signedDistance]
    rfl
  rw [hfeed]
  rcases Int.lt_trichotomy (signedDistance seq next) 0 with hlt | heq | hgt
  · right
    rw [if_neg (by omega), if_pos hlt]
    by_cases hold : data.length ≤ negAsUsize (seq - next)
    · left
      exact ⟨hlt.le, hold, by rw [if_pos hold]⟩
    · right
      exact ⟨hlt.le, by omega, by rw [if_neg (by omega)]⟩
  · right; right
    have hsame : seq - next = 0 := by
      apply BitVec.eq_of_toInt_eq
      rw [← signedDistance, heq]
      rfl
    have hseq : seq = next := by bv_omega
    have hskip : negAsUsize (seq - next) = 0 := by
      rw [hsame]
      rfl
    refine ⟨heq.le, by rw [hskip]; exact List.length_pos_iff.mpr hne, ?_⟩
    rw [if_neg (by omega), if_neg (by omega), hskip, List.drop_zero, hseq]
  · left
    exact ⟨hgt, by rw [if_pos hgt]⟩

/-! ### The out-of-order map on fuel -/

theorem ooo_eq_empty {ooo : OooMap} (h : ooo.size ≤ 0) : ooo = ∅ := by
  rw [ExtTreeMap.eq_empty_iff_size_eq_zero]
  omega

/-- Taking an entry out leaves fuel for the rest. -/
theorem ooo_size_erase {ooo : OooMap} {adv : BitVec 32} {b : Bytes} {n : ℕ} (hget : ooo[adv]? = some b)
    (h : ooo.size ≤ n + 1) : (ooo.erase adv).size ≤ n := by
  have hmem : ooo.contains adv = true := by
    rw [ExtTreeMap.contains_eq_isSome_getElem?, hget]
    rfl
  rw [ExtTreeMap.size_erase, if_pos hmem]
  omega

/-! ### What feeding leaves alone -/

theorem flushOoo_append (n : ℕ) (ooo : OooMap) (adv : BitVec 32) (rxbuf : Bytes) :
    ∃ added, (flushOoo n ooo adv rxbuf).2.2 = rxbuf ++ added := by
  induction n generalizing ooo adv rxbuf with
  | zero => exact ⟨[], (List.append_nil _).symm⟩
  | succ n ih =>
    rw [flushOoo]
    split
    · rename_i b _
      obtain ⟨added, hadded⟩ := ih (ooo.erase adv) (adv + BitVec.ofNat 32 b.length) (rxbuf ++ b)
      exact ⟨b ++ added, by rw [hadded, List.append_assoc]⟩
    · exact ⟨[], (List.append_nil _).symm⟩

theorem deliver_frame (d : Direction) (cur : BitVec 32) (chunk : Bytes) :
    ∃ nextSeq ooo added,
      d.deliver cur chunk = { d with nextSeq := nextSeq, ooo := ooo, rxbuf := d.rxbuf ++ added } := by
  obtain ⟨added, hadded⟩ :=
    flushOoo_append d.ooo.size d.ooo (cur + BitVec.ofNat 32 chunk.length) (d.rxbuf ++ chunk)
  rw [List.append_assoc] at hadded
  exact ⟨_, _, chunk ++ added, by rw [← hadded]; rfl⟩

/-- **The frame of `feed`.**  It moves `next_seq` and the out-of-order map, and appends to `rxbuf`. -/
theorem feed_frame (d : Direction) (seq : BitVec 32) (syn : Bool) (data : Bytes) :
    ∃ nextSeq ooo added,
      d.feed seq syn data = { d with nextSeq := nextSeq, ooo := ooo, rxbuf := d.rxbuf ++ added } := by
  have hsame : ∀ nextSeq ooo, ∃ nextSeq' ooo' added,
      { d with nextSeq := nextSeq, ooo := ooo }
        = { d with nextSeq := nextSeq', ooo := ooo', rxbuf := d.rxbuf ++ added } :=
    fun nextSeq ooo => ⟨nextSeq, ooo, [], by rw [List.append_nil]⟩
  have hsyn : ∃ nextSeq, (if syn then { d with nextSeq := some (seq + 1) } else d)
      = { d with nextSeq := nextSeq } := by
    cases syn
    · exact ⟨d.nextSeq, rfl⟩
    · exact ⟨some (seq + 1), rfl⟩
  obtain ⟨first, hfirst⟩ := hsyn
  rw [Direction.feed]
  simp only [hfirst]
  split
  · exact hsame first d.ooo
  · split
    · exact hsame _ _
    · split
      · split
        · exact hsame _ d.ooo
        · obtain ⟨nextSeq, ooo, added, h⟩ := deliver_frame { d with nextSeq := some (first.getD seq) }
            (seq + BitVec.ofNat 32 (negAsUsize (seq - first.getD seq)))
            (data.drop (negAsUsize (seq - first.getD seq)))
          exact ⟨nextSeq, ooo, added, h⟩
      · obtain ⟨nextSeq, ooo, added, h⟩ := deliver_frame { d with nextSeq := some (first.getD seq) } seq data
        exact ⟨nextSeq, ooo, added, h⟩

end Tapgres.Flow
