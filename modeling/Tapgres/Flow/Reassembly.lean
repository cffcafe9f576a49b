import Tapgres.Flow.Direction
import Tapgres.Lib.Run
import Mathlib.Logic.Relation
import Mathlib.Data.List.Infix

/-!
# Reassembly of one direction

A stream `S` is numbered from `base = ISN + 1`; every segment fed is a slice of `S` at its own sequence
number, in any order.  The bytes `feed` appends to `rxbuf` are followed over a whole run, in which the
decoder may take the buffer over between any two segments:

* `feed_cases` — what one `feed` of a slice can do: buffer it, drop it, or deliver its new bytes;
* `flushOoo_spec` — the drain of the out-of-order map walks along segments that start exactly where the
  previous one ends;
* `appended_is_stream_start` — nothing wrong is ever delivered;
* `complete_of_keepsBuffered` — everything received is delivered, in the runs that never lose a
  buffered tail; `overlap_loses_tail` is a run that does.
-/

namespace Tapgres.Flow

open Std (ExtTreeMap LawfulEqCmp)
open Tapgres.Net Tapgres.Pgwire Tapgres.Decode Tapgres.Lib.SeqSpace Tapgres.Lib.Run

/-! ### Runs of one direction -/

/-- What happens to a direction: a segment is fed, or the decoder works on it and leaves any `rxbuf`,
context and row description behind. -/
inductive FlowEvent where
  | feed (seq : BitVec 32) (syn : Bool) (data : Bytes)
  | decoded (rxbuf : Bytes) (ctx : DecodeContext) (rowDesc : Option (List FieldSummary))

/-- One event, with the bytes it appended to `rxbuf`. -/
def flowStep (d : Direction) : FlowEvent → Direction × Bytes
  | .feed seq syn data => (d.feed seq syn data, (d.feed seq syn data).rxbuf.drop d.rxbuf.length)
  | .decoded rxbuf ctx rowDesc => ({ d with rxbuf := rxbuf, ctx := ctx, rowDesc := rowDesc }, [])

/-- The run of a fresh direction that starts with the payload-less SYN: its last state and all bytes
ever appended. -/
def synRun (role : Role) (client : SocketAddr) (isn : BitVec 32) (es : List FlowEvent) :
    Direction × Bytes :=
  run flowStep (Direction.new role client) (.feed isn true [] :: es)

/-- How far `next_seq` has advanced from the first data byte, mod `2^32`. -/
def Direction.advanced (d : Direction) (isn : BitVec 32) : ℕ :=
  (d.nextSeq.getD (isn + 1) - (isn + 1)).toNat

/-- `data` is the slice of `S` that starts at position `p`. -/
def SliceAt (S : Bytes) (p : ℕ) (data : Bytes) : Prop := p ≤ S.length ∧ data <+: S.drop p

/-- A non-SYN segment that carries a slice of `S` at its true sequence number (decoding is free). -/
def IsSegment (S : Bytes) (base : BitVec 32) : FlowEvent → Prop
  | .feed seq syn data => syn = false ∧ ∃ p, seq = seqAt base p ∧ SliceAt S p data
  | .decoded _ _ _ => True

/-- The slices fed so far cover the first `n` bytes of `S`. -/
def Covers (S : Bytes) (base : BitVec 32) (es : List FlowEvent) (n : ℕ) : Prop :=
  ∀ i < n, ∃ p data, .feed (seqAt base p) false data ∈ es ∧ SliceAt S p data ∧
    p ≤ i ∧ i < p + data.length

/-! ### Slices -/

theorem SliceAt.end_le {S data : Bytes} {p : ℕ} (h : SliceAt S p data) :
    p + data.length ≤ S.length := by
  have h1 := h.2.length_le
  have h2 := h.1
  rw [List.length_drop] at h1
  omega

theorem SliceAt.position_lt {S : Bytes} {p : ℕ} {b : Bytes} (hp : SliceAt S p b) (hb : b ≠ []) :
    p < S.length := by
  have h1 := hp.end_le
  have h2 := List.length_pos_iff.mpr hb
  omega

theorem SliceAt.drop {S data : Bytes} {p k : ℕ} (h : SliceAt S p data) (hk : k ≤ data.length) :
    SliceAt S (p + k) (data.drop k) := by
  refine ⟨by have := h.end_le; omega, ?_⟩
  rw [← List.drop_drop]
  exact h.2.drop k

/-! ### The drain of the out-of-order map -/

/-- Every buffered segment is a non-empty slice of `S` under its own sequence number. -/
def Buffered (S : Bytes) (base : BitVec 32) (ooo : OooMap) : Prop :=
  ∀ k b, ooo[k]? = some b → b ≠ [] ∧ ∃ p, k = seqAt base p ∧ SliceAt S p b

/-- A buffered segment leads from its start `x` to its end `y`. -/
def Follows (ooo : OooMap) (x y : BitVec 32) : Prop :=
  ∃ b, ooo[x]? = some b ∧ y = x + BitVec.ofNat 32 b.length

/-- A buffered segment found under the number of position `p < 2^32` starts at `p`. -/
theorem Buffered.slice {S : Bytes} {base : BitVec 32} {ooo : OooMap} (h : Buffered S base ooo)
    (hS : S.length < 2 ^ 31) {p : ℕ} (hp : p < 2 ^ 32) {b : Bytes}
    (hb : ooo[seqAt base p]? = some b) : b ≠ [] ∧ SliceAt S p b := by
  obtain ⟨hne, q, hq, hslice⟩ := h _ _ hb
  have hlt := hslice.position_lt hne
  have hpq : p = q := (seqAt_inj base hp (by omega)).mp hq
  exact ⟨hne, hpq ▸ hslice⟩

theorem erase_some {ooo : OooMap} {k x : BitVec 32} {b : Bytes} :
    (ooo.erase k)[x]? = some b ↔ x ≠ k ∧ ooo[x]? = some b := by
  rw [ExtTreeMap.getElem?_erase]
  split
  · rename_i hk
    obtain rfl := LawfulEqCmp.compare_eq_iff_eq.mp hk
    simp
  · rename_i hk
    rw [LawfulEqCmp.compare_eq_iff_eq] at hk
    exact ⟨fun h => ⟨fun heq => hk heq.symm, h⟩, fun h => h.2⟩

/-- What is left of the map has no walks of its own. -/
theorem walk_of_erase {ooo : OooMap} {k x y : BitVec 32}
    (h : Relation.ReflTransGen (Follows (ooo.erase k)) x y) : Relation.ReflTransGen (Follows ooo) x y := by
  refine Relation.ReflTransGen.mono (fun x' y' hstep => ?_) _ _ h
  obtain ⟨b, hb, hy⟩ := hstep
  exact ⟨b, (erase_some.mp hb).2, hy⟩

theorem Buffered.erase {S : Bytes} {base : BitVec 32} {ooo : OooMap} (h : Buffered S base ooo)
    (k : BitVec 32) : Buffered S base (ooo.erase k) := by
  intro k' b hb
  exact h k' b (erase_some.mp hb).2

theorem Buffered.insert {S : Bytes} {base : BitVec 32} {ooo : OooMap} (h : Buffered S base ooo)
    {p : ℕ} {data : Bytes} (hne : data ≠ []) (hp : SliceAt S p data) :
    Buffered S base (ooo.insert (seqAt base p) data) := by
  intro k b hb
  rw [ExtTreeMap.getElem?_insert] at hb
  split at hb
  · rename_i hk
    obtain rfl := Option.some.inj hb
    exact ⟨hne, p, (LawfulEqCmp.compare_eq_iff_eq.mp hk).symm, hp⟩
  · exact h k b hb

/-- **The drain.**  Started at position `m`, it walks along segments that start exactly where the
previous one ends, up to a position `m'` where none starts; it appends exactly the bytes between, and
what leaves the map ends at or before `m'`. -/
theorem flushOoo_spec {S : Bytes} {base : BitVec 32} (hS : S.length < 2 ^ 31) (n : ℕ) (ooo : OooMap)
    (m : ℕ) (rxbuf : Bytes) (hbuf : Buffered S base ooo) (hm : m ≤ S.length) (hn : ooo.size ≤ n) :
    ∃ (m' : ℕ) (ooo' : OooMap), flushOoo n ooo (seqAt base m) rxbuf
        = (ooo', seqAt base m', rxbuf ++ (S.take m').drop m) ∧
      m ≤ m' ∧ m' ≤ S.length ∧ ooo'[seqAt base m']? = none ∧
      Relation.ReflTransGen (Follows ooo) (seqAt base m) (seqAt base m') ∧
      (∀ (k : BitVec 32) b, ooo'[k]? = some b → ooo[k]? = some b) ∧
      (∀ p b, ooo[seqAt base p]? = some b → p < 2 ^ 32 →
        ooo'[seqAt base p]? = some b ∨ p + b.length ≤ m') := by
  induction n generalizing ooo m rxbuf with
  | zero =>
    have hempty : ooo = ∅ := ooo_eq_empty hn
    subst hempty
    refine ⟨m, ∅, ?_, le_refl m, hm, by simp, .refl, by simp, by simp⟩
    simp [flushOoo]
  | succ n ih =>
    cases hget : ooo[seqAt base m]? with
    | none =>
      refine ⟨m, ooo, ?_, le_refl m, hm, hget, .refl, fun _ _ h => h, fun _ _ h _ => .inl h⟩
      simp [flushOoo, hget]
    | some b =>
      -- the segment that starts at `m`
      obtain ⟨hne, hslice⟩ := hbuf.slice hS (by omega) hget
      have hend := hslice.end_le
      have hsize : (ooo.erase (seqAt base m)).size ≤ n := ooo_size_erase hget hn
      obtain ⟨m', ooo', hrun, hle, hle', hnone, hwalk, hsub, hgone⟩ :=
        ih (ooo.erase (seqAt base m)) (m + b.length) (rxbuf ++ b) (hbuf.erase _) hend hsize
      refine ⟨m', ooo', ?_, by omega, hle', hnone, ?_, fun k c hc => (erase_some.mp (hsub k c hc)).2, ?_⟩
      · rw [flushOoo, hget]
        simp only [seqAt_add]
        rw [hrun]
        have hsplit : (S.take m').drop m = b ++ (S.take m').drop (m + b.length) := by
          obtain ⟨rest, hrest⟩ := hslice.2
          rw [← List.drop_drop, List.drop_take, ← hrest, List.take_append]
          have hb : b.take (m' - m) = b := List.take_of_length_le (by omega)
          rw [hb, List.drop_left]
        rw [hsplit, List.append_assoc]
      · refine .head ⟨b, hget, rfl⟩ ?_
        rw [seqAt_add]
        exact walk_of_erase hwalk
      · intro p c hc hp
        by_cases hpm : p = m
        · subst hpm
          obtain rfl : b = c := Option.some.inj (hget.symm.trans hc)
          exact .inr hle
        · refine hgone p c ?_ hp
          have hk : seqAt base p ≠ seqAt base m := fun h => hpm ((seqAt_inj base hp (by omega)).mp h)
          exact erase_some.mpr ⟨hk, hc⟩

/-! ### One feed of a slice -/

theorem negAsUsize_of_toInt {diff : BitVec 32} {k : ℕ} (h : diff.toInt = -(k : ℤ)) (hk : k < 2 ^ 31) :
    negAsUsize diff = k := by
  have hdiff : -diff = BitVec.ofNat 32 k := by
    apply BitVec.eq_of_toInt_eq
    rw [BitVec.toInt_neg, h, BitVec.toInt_ofNat']
    simp
  rw [negAsUsize, hdiff]
  have hnat : (BitVec.ofNat 32 k).toNat = k := by simp; omega
  have hmsb : (BitVec.ofNat 32 k).msb = false := by
    rw [BitVec.msb_eq_false_iff_two_mul_lt, hnat]
    omega
  rw [BitVec.signExtend_eq_setWidth_of_msb_false hmsb, BitVec.toNat_setWidth, hnat]
  omega

/-- **One feed of a slice at position `p`, with `n` bytes delivered so far.**  Ahead of `n` it is
buffered, wholly behind it is dropped, otherwise the part from `n` on is delivered. -/
theorem feed_cases {base : BitVec 32} {d : Direction} {n p : ℕ} {data : Bytes}
    (hd : d.nextSeq = some (seqAt base n)) (hn : n < 2 ^ 31) (hp : p < 2 ^ 31) (hne : data ≠ []) :
    (n < p ∧ d.feed (seqAt base p) false data = { d with ooo := d.ooo.insert (seqAt base p) data }) ∨
    (p + data.length ≤ n ∧ d.feed (seqAt base p) false data = d) ∨
    (p ≤ n ∧ n < p + data.length ∧
      d.feed (seqAt base p) false data = d.deliver (seqAt base n) (data.drop (n - p))) := by
  have hdist : signedDistance (seqAt base p) (seqAt base n) = (p : ℤ) - n := signedDistance_seqAt base hp hn
  have hskip : p ≤ n → negAsUsize (seqAt base p - seqAt base n) = n - p := fun hpn =>
    negAsUsize_of_toInt (by rw [← signedDistance, hdist]; omega) (by omega)
  rcases feed_data_cases hd hne (seqAt base p) with ⟨hahead, hfeed⟩ | ⟨hbehind, hold, hfeed⟩ |
    ⟨hbehind, hnew, hfeed⟩
  · left
    exact ⟨by omega, hfeed⟩
  · right; left
    rw [hskip (by omega)] at hold
    exact ⟨by omega, hfeed⟩
  · right; right
    rw [hskip (by omega)] at hnew hfeed
    exact ⟨by omega, by omega, hfeed⟩

/-! ### The invariant -/

/-- The first `n` bytes are delivered: `next_seq` points at position `n`, and what is buffered are
slices of the stream. -/
structure StandsAt (S : Bytes) (base : BitVec 32) (n : ℕ) (d : Direction) : Prop where
  next : d.nextSeq = some (seqAt base n)
  le : n ≤ S.length
  buffered : Buffered S base d.ooo

/-- **One delivery** from position `n` on: where it stops, what it appends and what it takes from the
map. -/
theorem deliver_spec {S : Bytes} {base : BitVec 32} {n : ℕ} {d : Direction} {chunk : Bytes}
    (hS : S.length < 2 ^ 31) (h : StandsAt S base n d) (hslice : SliceAt S n chunk) :
    ∃ n', StandsAt S base n' (d.deliver (seqAt base n) chunk) ∧
      (d.deliver (seqAt base n) chunk).rxbuf = d.rxbuf ++ (S.take n').drop n ∧
      n + chunk.length ≤ n' ∧ (d.deliver (seqAt base n) chunk).ooo[seqAt base n']? = none ∧
      Relation.ReflTransGen (Follows d.ooo) (seqAt base (n + chunk.length)) (seqAt base n') ∧
      (∀ p b, d.ooo[seqAt base p]? = some b → p < 2 ^ 32 →
        (d.deliver (seqAt base n) chunk).ooo[seqAt base p]? = some b ∨ p + b.length ≤ n') := by
  obtain ⟨n', ooo', hflush, hle, hle', hnone, hwalk, hsub, hgone⟩ :=
    flushOoo_spec hS d.ooo.size d.ooo (n + chunk.length) (d.rxbuf ++ chunk) h.buffered
      hslice.end_le (le_refl _)
  have hdel : d.deliver (seqAt base n) chunk
      = { d with ooo := ooo', nextSeq := some (seqAt base n'),
                 rxbuf := d.rxbuf ++ chunk ++ (S.take n').drop (n + chunk.length) } := by
    simp only [Direction.deliver, seqAt_add, hflush]
  have happend : chunk ++ (S.take n').drop (n + chunk.length) = (S.take n').drop n := by
    obtain ⟨rest, hrest⟩ := hslice.2
    rw [← List.drop_drop, List.drop_take, ← hrest, List.take_append,
      List.take_of_length_le (by omega : chunk.length ≤ n' - n), List.drop_left]
  rw [hdel]
  refine ⟨n', ⟨rfl, hle', fun k b hk => h.buffered k b (hsub k b hk)⟩, ?_, hle, hnone, hwalk, hgone⟩
  rw [List.append_assoc, happend]

/-- **One event keeps the invariant** and appends exactly the bytes `next_seq` advanced over. -/
theorem flowStep_stands {S : Bytes} {base : BitVec 32} {n : ℕ} {d : Direction} {e : FlowEvent}
    (hS : S.length < 2 ^ 31) (h : StandsAt S base n d) (he : IsSegment S base e) :
    ∃ n', n ≤ n' ∧ StandsAt S base n' (flowStep d e).1 ∧
      S.take n ++ (flowStep d e).2 = S.take n' := by
  have hle := h.le
  cases e with
  | decoded rxbuf ctx rowDesc =>
    exact ⟨n, le_refl n, ⟨h.next, h.le, h.buffered⟩, by simp [flowStep]⟩
  | feed seq syn data =>
    obtain ⟨rfl, p, rfl, hslice⟩ := he
    have hp := hslice.1
    rcases eq_or_ne data [] with rfl | hne
    · have hfeed : d.feed (seqAt base p) false [] = d := rfl
      exact ⟨n, le_refl n, by rw [flowStep, hfeed]; exact h, by simp [flowStep, hfeed]⟩
    · rcases feed_cases (p := p) h.next (by omega) (by omega) hne with
        ⟨_, hfeed⟩ | ⟨_, hfeed⟩ | ⟨hpn, hnp, hfeed⟩
      · exact ⟨n, le_refl n, by rw [flowStep, hfeed]; exact ⟨h.next, h.le, h.buffered.insert hne hslice⟩,
          by simp [flowStep, hfeed]⟩
      · exact ⟨n, le_refl n, by rw [flowStep, hfeed]; exact h, by simp [flowStep, hfeed]⟩
      · have hchunk : SliceAt S n (data.drop (n - p)) := by
          have hdrop := hslice.drop (k := n - p) (by omega)
          rwa [show p + (n - p) = n by omega] at hdrop
        obtain ⟨n', hstand, hrx, hle', _⟩ := deliver_spec hS h hchunk
        refine ⟨n', by omega, by rw [flowStep, hfeed]; exact hstand, ?_⟩
        rw [flowStep, hfeed, hrx, List.drop_left]
        have hsplit := List.take_append_drop n (S.take n')
        rwa [List.take_take, Nat.min_eq_left (by omega)] at hsplit

theorem stands_after_syn (S : Bytes) (role : Role) (client : SocketAddr) (isn : BitVec 32) :
    StandsAt S (isn + 1) 0 ((Direction.new role client).feed isn true []) :=
  ⟨by simp [Direction.feed], Nat.zero_le _, fun k b hk => by simp [Direction.feed, Direction.new] at hk⟩

theorem synRun_eq (role : Role) (client : SocketAddr) (isn : BitVec 32) (es : List FlowEvent) :
    synRun role client isn es = run flowStep ((Direction.new role client).feed isn true []) es := by
  rw [synRun, run_cons]
  rfl

/-- After any run of slices of `S` the direction stands at some position, with the bytes before it
appended. -/
theorem stands_synRun {S : Bytes} (hS : S.length < 2 ^ 31) (role : Role) (client : SocketAddr)
    (isn : BitVec 32) {es : List FlowEvent} (hes : ∀ e ∈ es, IsSegment S (isn + 1) e) :
    ∃ n, StandsAt S (isn + 1) n (synRun role client isn es).1 ∧
      (synRun role client isn es).2 = S.take n := by
  rw [synRun_eq]
  refine run_invariant_of_meets flowStep
    (fun _ d out => ∃ n, StandsAt S (isn + 1) n d ∧ out = S.take n)
    ⟨0, stands_after_syn S role client isn, rfl⟩ ?_ (meets_of_forall flowStep (fun _ _ h => h) _ hes)
  rintro past d out e ⟨n, hstand, rfl⟩ he
  obtain ⟨n', _, hstand', hout⟩ := flowStep_stands hS hstand he
  exact ⟨n', hstand', hout⟩

/-- **No wrong byte is ever delivered.**  After any run of slices of `S`, in any order and with any
overlaps, the bytes ever appended to `rxbuf` are the prefix of `S` of length `next_seq - (ISN + 1)`. -/
theorem appended_is_stream_start (S : Bytes) (hS : S.length < 2 ^ 31) (role : Role)
    (client : SocketAddr) (isn : BitVec 32) (es : List FlowEvent)
    (hes : ∀ e ∈ es, IsSegment S (isn + 1) e) :
    (synRun role client isn es).2 = S.take ((synRun role client isn es).1.advanced isn) ∧
      (synRun role client isn es).1.advanced isn ≤ S.length := by
  obtain ⟨n, hstand, hout⟩ := stands_synRun hS role client isn hes
  have hle := hstand.le
  have hadv : (synRun role client isn es).1.advanced isn = n := by
    rw [Direction.advanced, hstand.next, Option.getD_some, toNat_seqAt_sub _ (by omega)]
  rw [hadv]
  exact ⟨hout, hle⟩

/-- Slices of a stream whose second byte is numbered `0`: the later one first, then the first byte,
then a retransmission with another boundary. -/
def wrappingFeeds : List FlowEvent :=
  [.feed 0 false [2, 3], .feed (-1) false [1], .feed (-1) false [1, 2]]

theorem appended_is_stream_start_across_wrap :
    (synRun .client ⟨.v4 0, 40001⟩ (-2) wrappingFeeds).2
        = [1, 2, 3].take ((synRun .client ⟨.v4 0, 40001⟩ (-2) wrappingFeeds).1.advanced (-2)) ∧
      (synRun .client ⟨.v4 0, 40001⟩ (-2) wrappingFeeds).1.advanced (-2) ≤ 3 ∧
      (synRun .client ⟨.v4 0, 40001⟩ (-2) wrappingFeeds).1.advanced (-2) = 3 := by
  have hes : ∀ e ∈ wrappingFeeds, IsSegment [1, 2, 3] (-2 + 1) e := by
    simp only [wrappingFeeds, List.forall_mem_cons]
    exact ⟨⟨rfl, 1, by decide, by decide, by decide⟩, ⟨rfl, 0, by decide, by decide, by decide⟩,
      ⟨rfl, 0, by decide, by decide, by decide⟩, by simp⟩
  have h := appended_is_stream_start [1, 2, 3] (by decide) .client ⟨.v4 0, 40001⟩ (-2) wrappingFeeds hes
  exact ⟨h.1, h.2, by decide⟩

/-! ### Completeness -/

/-- Reassembly is complete for a run: whatever prefix of `S` the slices fed so far cover, it has been
appended, and `next_seq` has advanced over it. -/
def Complete (S : Bytes) (role : Role) (client : SocketAddr) (isn : BitVec 32) (es : List FlowEvent) :
    Prop :=
  ∀ n, Covers S (isn + 1) es n →
    S.take n <+: (synRun role client isn es).2 ∧ n ≤ (synRun role client isn es).1.advanced isn

/-- A feed that loses no buffered tail, as a condition on the state before it.  A segment with data ahead of
`next_seq` does not replace a longer one that starts at the same number; one without is not buffered.  A
segment that is delivered, followed through the buffered segments that start exactly where the previous one
ends, does not run out (at `y`, where none starts) strictly inside a buffered segment. -/
def KeepsBuffered (d : Direction) : FlowEvent → Prop
  | .feed seq _ data => ∀ next, d.nextSeq = some next →
      (data ≠ [] → 0 < signedDistance seq next → ∀ b, d.ooo[seq]? = some b → b.length ≤ data.length) ∧
      (signedDistance seq next ≤ 0 →
        0 < signedDistance (seq + BitVec.ofNat 32 data.length) next →
        ∀ y, Relation.ReflTransGen (Follows d.ooo) (seq + BitVec.ofNat 32 data.length) y →
          d.ooo[y]? = none →
          ∀ k b, d.ooo[k]? = some b → 0 < signedDistance k next →
            ¬(0 < signedDistance y k ∧ 0 < signedDistance (k + BitVec.ofNat 32 b.length) y))
  | .decoded _ _ _ => True

/-- Every slice fed so far is delivered up to its end, or still buffered from its start. -/
def Held (S : Bytes) (base : BitVec 32) (n : ℕ) (past : List FlowEvent) (ooo : OooMap) : Prop :=
  ∀ p data, .feed (seqAt base p) false data ∈ past → SliceAt S p data → data ≠ [] →
    p + data.length ≤ n ∨ (n < p ∧ ∃ b, ooo[seqAt base p]? = some b ∧ data.length ≤ b.length)

/-- What is held covers no byte at the delivery point, so it covers at most the first `n` bytes. -/
theorem Held.covers_le {S : Bytes} {base : BitVec 32} {n m : ℕ} {past : List FlowEvent} {ooo : OooMap}
    (h : Held S base n past ooo) (hm : Covers S base past m) : m ≤ n := by
  by_contra hlt
  obtain ⟨p, data, hmem, hslice, hp, hend⟩ := hm n (by omega)
  have hne : data ≠ [] := by
    rintro rfl
    simp at hend
    omega
  rcases h p data hmem hslice hne with hdone | ⟨hahead, _⟩
  · omega
  · omega

theorem StandsAt.unique {S : Bytes} {base : BitVec 32} {n m : ℕ} {d : Direction}
    (hS : S.length < 2 ^ 31) (h : StandsAt S base n d) (h' : StandsAt S base m d) : n = m := by
  have hn := h.le
  have hm := h'.le
  have heq := h.next.symm.trans h'.next
  exact (seqAt_inj base (by omega) (by omega)).mp (Option.some.inj heq)

/-- A slice of the extended history is an old one, or the one just fed. -/
theorem slice_of_snoc {S : Bytes} {base : BitVec 32} {past : List FlowEvent} {p q : ℕ}
    {data data' : Bytes} {syn : Bool} (hS : S.length < 2 ^ 31) (hp : p ≤ S.length) (hq : q ≤ S.length)
    (h : .feed (seqAt base q) false data' ∈ past ++ [.feed (seqAt base p) syn data]) :
    .feed (seqAt base q) false data' ∈ past ∨ (q = p ∧ data' = data) := by
  rw [List.mem_append, List.mem_singleton] at h
  rcases h with h | h
  · exact .inl h
  · injection h with hseq _ hdata
    exact .inr ⟨(seqAt_inj base (by omega) (by omega)).mp hseq, hdata⟩

/-- An entry that is not longer than the segment buffered under its number is held by it. -/
theorem held_insert {base : BitVec 32} {p q : ℕ} {data data' : Bytes} {ooo : OooMap}
    (hkeep : ∀ b, ooo[seqAt base p]? = some b → b.length ≤ data.length)
    (hheld : ∃ b, ooo[seqAt base q]? = some b ∧ data'.length ≤ b.length) :
    ∃ b, (ooo.insert (seqAt base p) data)[seqAt base q]? = some b ∧ data'.length ≤ b.length := by
  obtain ⟨b, hb, hlen⟩ := hheld
  by_cases hpq : seqAt base p = seqAt base q
  · refine ⟨data, by simp [hpq], ?_⟩
    exact hlen.trans (hkeep b (hpq ▸ hb))
  · refine ⟨b, ?_, hlen⟩
    simpa [ExtTreeMap.getElem?_insert, LawfulEqCmp.compare_eq_iff_eq, hpq] using hb

/-- The place where a delivery stops lies in no buffered segment that it has passed the start of. -/
theorem stop_outside_entry {S : Bytes} {base : BitVec 32} {n n' p q : ℕ} {d : Direction} {data b : Bytes}
    (hS : S.length < 2 ^ 31) (h : StandsAt S base n d)
    (hk : KeepsBuffered d (.feed (seqAt base p) false data)) (hpn : p ≤ n) (hnp : n < p + data.length)
    (hend : p + data.length ≤ S.length) (hn' : n' ≤ S.length)
    (hwalk : Relation.ReflTransGen (Follows d.ooo) (seqAt base (p + data.length)) (seqAt base n'))
    (hnone : d.ooo[seqAt base n']? = none) (hb : d.ooo[seqAt base q]? = some b) (hlt : n < q)
    (hqn : q < n') : q + b.length ≤ n' := by
  have hle := h.le
  have hbslice := (h.buffered.slice hS (by omega) hb).2.end_le
  have hkeep := (hk _ h.next).2
    (by rw [signedDistance_seqAt base (by omega) (by omega)]; omega)
    (by rw [seqAt_add, signedDistance_seqAt base (by omega) (by omega)]; omega)
    (seqAt base n') (by rw [seqAt_add]; exact hwalk) hnone (seqAt base q) b hb
    (by rw [signedDistance_seqAt base (by omega) (by omega)]; omega)
  rw [seqAt_add, signedDistance_seqAt base (by omega) (by omega),
    signedDistance_seqAt base (by omega) (by omega)] at hkeep
  omega

section Feed

variable {S : Bytes} {base : BitVec 32} {n n' p : ℕ} {d : Direction} {data : Bytes} {past : List FlowEvent}
  (hS : S.length < 2 ^ 31) (hslice : SliceAt S p data)
include hS hslice

/-- A segment that is empty or wholly behind is dropped. -/
theorem held_dropped (hheld : Held S base n past d.ooo) (hold : data ≠ [] → p + data.length ≤ n) :
    Held S base n (past ++ [.feed (seqAt base p) false data]) d.ooo := by
  intro q data' hmem hslice' hne
  rcases slice_of_snoc hS hslice.1 hslice'.1 hmem with hmem' | ⟨rfl, rfl⟩
  · exact hheld q data' hmem' hslice' hne
  · exact .inl (hold hne)

/-- One that is buffered takes the place of an entry that is at most as long. -/
theorem held_buffered (hheld : Held S base n past d.ooo) (hahead : n < p)
    (hkeep : ∀ b, d.ooo[seqAt base p]? = some b → b.length ≤ data.length) :
    Held S base n (past ++ [.feed (seqAt base p) false data]) (d.ooo.insert (seqAt base p) data) := by
  intro q data' hmem hslice' hne
  rcases slice_of_snoc hS hslice.1 hslice'.1 hmem with hmem' | ⟨rfl, rfl⟩
  · rcases hheld q data' hmem' hslice' hne with hdone | ⟨hlt, hentry⟩
    · exact .inl hdone
    · exact .inr ⟨hlt, held_insert hkeep hentry⟩
  · exact .inr ⟨hahead, data', by simp, le_refl _⟩

/-- One that is delivered leaves nothing buffered that straddles the place where the delivery stops. -/
theorem held_delivered (h : StandsAt S base n d)
    (hk : KeepsBuffered d (.feed (seqAt base p) false data)) (hheld : Held S base n past d.ooo)
    (hpn : p ≤ n) (hnp : n < p + data.length)
    (h' : StandsAt S base n' (d.deliver (seqAt base n) (data.drop (n - p)))) :
    Held S base n' (past ++ [.feed (seqAt base p) false data])
      (d.deliver (seqAt base n) (data.drop (n - p))).ooo := by
  have hend := hslice.end_le
  have hchunk : SliceAt S n (data.drop (n - p)) := by
    have hdrop := hslice.drop (k := n - p) (by omega)
    rwa [show p + (n - p) = n by omega] at hdrop
  obtain ⟨m, hstand, _, hlem, hnone, hwalk, hgone⟩ := deliver_spec hS h hchunk
  obtain rfl : n' = m := StandsAt.unique hS h' hstand
  have hn' := h'.le
  have hstop : n + (data.drop (n - p)).length = p + data.length := by
    rw [List.length_drop]
    omega
  rw [hstop] at hlem hwalk
  -- nothing was buffered there before either
  have hnone' : d.ooo[seqAt base n']? = none := by
    rw [Option.eq_none_iff_forall_ne_some]
    intro c hc
    have hcne := List.length_pos_iff.mpr (h.buffered.slice hS (by omega) hc).1
    rcases hgone n' c hc (by omega) with hc' | hc'
    · rw [hnone] at hc'
      cases hc'
    · omega
  intro q data' hmem hslice' hne
  have hqlt := hslice'.position_lt hne
  rcases slice_of_snoc hS hslice.1 hslice'.1 hmem with hmem' | ⟨rfl, rfl⟩
  · rcases hheld q data' hmem' hslice' hne with hdone | ⟨hlt, b, hb, hlen⟩
    · exact .inl (by omega)
    rcases hgone q b hb (by omega) with hstay | hdone
    · rcases Nat.lt_trichotomy q n' with hqn | rfl | hqn
      · -- the drain has passed its start
        have hpassed := stop_outside_entry hS h hk hpn hnp hend hn' hwalk hnone' hb hlt hqn
        exact .inl (by omega)
      · rw [hnone] at hstay
        cases hstay
      · exact .inr ⟨hqn, b, hstay, hlen⟩
    · exact .inl (by omega)
  · exact .inl hlem

end Feed

/-- **The step lemma of completeness.**  A feed that loses no buffered tail keeps every slice held. -/
theorem flowStep_held {S : Bytes} {base : BitVec 32} {n n' : ℕ} {d : Direction} {e : FlowEvent}
    {past : List FlowEvent} (hS : S.length < 2 ^ 31) (h : StandsAt S base n d)
    (h' : StandsAt S base n' (flowStep d e).1) (he : IsSegment S base e) (hk : KeepsBuffered d e)
    (hheld : Held S base n past d.ooo) : Held S base n' (past ++ [e]) (flowStep d e).1.ooo := by
  have hle := h.le
  cases e with
  | decoded rxbuf ctx rowDesc =>
    have hn : n' = n := StandsAt.unique hS h' ⟨h.next, h.le, h.buffered⟩
    subst hn
    intro p data hmem hslice hne
    exact hheld p data (by simpa using hmem) hslice hne
  | feed seq syn data =>
    obtain ⟨rfl, p, rfl, hslice⟩ := he
    have hp := hslice.1
    rcases eq_or_ne data [] with rfl | hne
    · -- an empty segment changes nothing
      have hfeed : d.feed (seqAt base p) false [] = d := rfl
      rw [flowStep, hfeed] at h' ⊢
      rw [StandsAt.unique hS h' h]
      exact held_dropped hS hslice hheld fun hne => absurd rfl hne
    · rcases feed_cases (p := p) h.next (by omega) (by omega) hne with
        ⟨hahead, hfeed⟩ | ⟨hold, hfeed⟩ | ⟨hpn, hnp, hfeed⟩
      · rw [flowStep, hfeed] at h' ⊢
        have hn : n' = n := StandsAt.unique hS h' ⟨h.next, h.le, h.buffered.insert hne hslice⟩
        subst hn
        have hkeep := (hk _ h.next).1 hne (by rw [signedDistance_seqAt base (by omega) (by omega)]; omega)
        exact held_buffered hS hslice hheld hahead hkeep
      · rw [flowStep, hfeed] at h' ⊢
        rw [StandsAt.unique hS h' h]
        exact held_dropped hS hslice hheld fun _ => hold
      · rw [flowStep, hfeed] at h' ⊢
        exact held_delivered hS hslice h hk hheld hpn hnp h'

/-- **Every slice fed stays held in every run that never loses a buffered tail.** -/
theorem held_of_keepsBuffered {S : Bytes} (hS : S.length < 2 ^ 31) (role : Role) (client : SocketAddr)
    (isn : BitVec 32) {es : List FlowEvent} (hes : ∀ e ∈ es, IsSegment S (isn + 1) e)
    (hkeep : Meets flowStep KeepsBuffered ((Direction.new role client).feed isn true []) es) :
    ∃ n, StandsAt S (isn + 1) n (synRun role client isn es).1 ∧
      (synRun role client isn es).2 = S.take n ∧
      Held S (isn + 1) n es (synRun role client isn es).1.ooo := by
  rw [synRun_eq]
  have hmeets := (meets_and flowStep _ es).mpr ⟨meets_of_forall flowStep (fun _ _ h => h) _ hes, hkeep⟩
  refine run_invariant_of_meets flowStep
    (fun past d out => ∃ n, StandsAt S (isn + 1) n d ∧ out = S.take n ∧
      Held S (isn + 1) n past d.ooo)
    ⟨0, stands_after_syn S role client isn, rfl, by intro _ _ hmem; simp at hmem⟩ ?_ hmeets
  rintro past d out e ⟨n, hstand, rfl, hheld⟩ ⟨he, hk⟩
  obtain ⟨n', _, hstand', hout⟩ := flowStep_stands hS hstand he
  exact ⟨n', hstand', hout, flowStep_held hS hstand hstand' he hk hheld⟩

/-- **Reassembly is complete in every run that never loses a buffered tail.** -/
theorem complete_of_keepsBuffered (S : Bytes) (hS : S.length < 2 ^ 31) (role : Role)
    (client : SocketAddr) (isn : BitVec 32) (es : List FlowEvent)
    (hes : ∀ e ∈ es, IsSegment S (isn + 1) e)
    (hkeep : Meets flowStep KeepsBuffered ((Direction.new role client).feed isn true []) es) :
    Complete S role client isn es := by
  intro m hm
  obtain ⟨n, hstand, hout, hheld⟩ := held_of_keepsBuffered hS role client isn hes hkeep
  have hle := hstand.le
  have hmn := hheld.covers_le hm
  rw [hout, Direction.advanced, hstand.next, Option.getD_some, toNat_seqAt_sub _ (by omega)]
  exact ⟨List.take_isPrefix_take.mpr (.inl hmn), hmn⟩

/-- A later slice first, an empty segment at its number, then the byte before it. -/
def reorderedWithEmpty : List FlowEvent :=
  [.feed 0 false [2, 3], .feed 0 false [], .feed (-1) false [1]]

theorem complete_reordered : Complete [1, 2, 3] .client ⟨.v4 0, 40001⟩ (-2) reorderedWithEmpty := by
  have hes : ∀ e ∈ reorderedWithEmpty, IsSegment [1, 2, 3] (-2 + 1) e := by
    simp only [reorderedWithEmpty, List.forall_mem_cons]
    exact ⟨⟨rfl, 1, by decide, by decide, by decide⟩, ⟨rfl, 1, by decide, by decide, by decide⟩,
      ⟨rfl, 0, by decide, by decide, by decide⟩, by simp⟩
  refine complete_of_keepsBuffered [1, 2, 3] (by decide) .client ⟨.v4 0, 40001⟩ (-2) reorderedWithEmpty hes ?_
  refine ⟨?_, ?_, ?_, trivial⟩
  · intro next hnext
    obtain rfl : next = -1 := (Option.some.inj hnext).symm
    exact ⟨fun _ _ b hb => by simp [Direction.feed, Direction.new] at hb, fun h => absurd h (by decide)⟩
  · intro next hnext
    obtain rfl : next = -1 := (Option.some.inj hnext).symm
    exact ⟨fun hne => absurd rfl hne, fun h => absurd h (by decide)⟩
  · intro next hnext
    obtain rfl : next = -1 := (Option.some.inj hnext).symm
    refine ⟨fun _ h => absurd h (by decide), ?_⟩
    intro _ _ y hwalk hy k b hb _ hlost
    -- the only buffered segment is the one at number 0, which the walk takes whole
    have hooo : (flowStep (flowStep ((Direction.new .client ⟨.v4 0, 40001⟩).feed (-2) true [])
        (.feed 0 false [2, 3])).1 (.feed 0 false [])).1.ooo = (∅ : OooMap).insert 0 [2, 3] := rfl
    have hentry : ∀ (x : BitVec 32) c, ((∅ : OooMap).insert 0 [2, 3])[x]? = some c →
        x = 0 ∧ c = [2, 3] := by
      intro x c hc
      rw [ExtTreeMap.getElem?_insert] at hc
      split at hc
      · rename_i hx
        exact ⟨(LawfulEqCmp.compare_eq_iff_eq.mp hx).symm, (Option.some.inj hc).symm⟩
      · simp at hc
    rw [hooo] at hwalk hy hb
    obtain ⟨rfl, rfl⟩ := hentry k b hb
    have hreach : y = 0 ∨ y = 2 := by
      induction hwalk with
      | refl => exact .inl rfl
      | tail _ hstep ih =>
        obtain ⟨c, hc, rfl⟩ := hstep
        obtain ⟨rfl, rfl⟩ := hentry _ c hc
        exact .inr rfl
    rcases hreach with rfl | rfl
    · simp at hy
    · exact absurd hlost.2 (by decide)

/-- A buffered segment whose first byte an earlier segment also carries. -/
def overlappingFeeds : List FlowEvent := [.feed 2 false [2, 3, 4], .feed 1 false [1, 2]]

/-- **A lost tail.**  Both segments are slices of the stream and cover all four bytes, but the second
ends inside the buffered one, whose key `next_seq` then never equals: two bytes are never delivered. -/
theorem overlap_loses_tail :
    (∀ e ∈ overlappingFeeds, IsSegment [1, 2, 3, 4] (0 + 1) e) ∧
      ¬Complete [1, 2, 3, 4] .client ⟨.v4 0, 40001⟩ 0 overlappingFeeds := by
  constructor
  · simp only [overlappingFeeds, List.forall_mem_cons]
    exact ⟨⟨rfl, 1, by decide, by decide, by decide⟩, ⟨rfl, 0, by decide, by decide, by decide⟩, by simp⟩
  · intro h
    have hcovers : Covers [1, 2, 3, 4] (0 + 1) overlappingFeeds 4 := by
      intro i hi
      by_cases hi0 : i = 0
      · exact ⟨0, [1, 2], by simp [overlappingFeeds], ⟨by decide, by decide⟩, by omega, by simp; omega⟩
      · exact ⟨1, [2, 3, 4], by simp [overlappingFeeds, seqAt], ⟨by decide, by decide⟩, by omega,
          by simp; omega⟩
    have hle := (h 4 hcovers).2
    exact absurd hle (by decide)

end Tapgres.Flow
