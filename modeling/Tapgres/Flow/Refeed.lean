import Tapgres.Flow.Reassembly

/-!
# Feeding a segment again

A capture may hold a segment twice.  Feeding it again should move neither `next_seq` nor what has been
delivered:

* `Unchanged` — the two stay as they are;
* `SafeAgain` — the condition for it on the state and the segment: a SYN that still stands just before
  `next_seq`, and data that does not reach over it;
* `refeed_unchanged_iff` — the two agree in every state of every run, and what the condition means for
  the SYN and for data that was fed before;
* `duplicated_syn_redelivers` — a duplicated SYN after data.
-/

namespace Tapgres.Flow

open Tapgres.Net Tapgres.Pgwire Tapgres.Decode Tapgres.Lib.SeqSpace Tapgres.Lib.Run

/-- Feeding the segment leaves `next_seq` and everything delivered as they are. -/
def Unchanged (d : Direction) (seq : BitVec 32) (syn : Bool) (data : Bytes) : Prop :=
  (d.feed seq syn data).nextSeq = d.nextSeq ∧ (d.feed seq syn data).rxbuf = d.rxbuf

/-- The segment starts at or before `next` and ends behind it. -/
def ReachesOver (next seq : BitVec 32) (data : Bytes) : Prop :=
  signedDistance seq next ≤ 0 ∧ negAsUsize (seq - next) < data.length

/-- The segment can come again: a SYN stands just before `next_seq`, and no data reaches over it. -/
def SafeAgain (d : Direction) (seq : BitVec 32) (syn : Bool) (data : Bytes) : Prop :=
  ∀ next, d.nextSeq = some next → (syn = true → next = seq + 1) ∧ ¬ReachesOver next seq data

/-! ### One feed -/

/-- A delivery appends at least its own bytes. -/
theorem deliver_rxbuf_ne (d : Direction) (cur : BitVec 32) {chunk : Bytes} (hne : chunk ≠ []) :
    (d.deliver cur chunk).rxbuf ≠ d.rxbuf := by
  obtain ⟨added, hadded⟩ :=
    flushOoo_append d.ooo.size d.ooo (cur + BitVec.ofNat 32 chunk.length) (d.rxbuf ++ chunk)
  have hrx : (d.deliver cur chunk).rxbuf = d.rxbuf ++ (chunk ++ added) := by
    rw [← List.append_assoc]
    exact hadded
  rw [hrx]
  intro heq
  have hnil := List.append_right_eq_self.mp heq
  exact hne (List.append_eq_nil_iff.mp hnil).1

/-- Data leaves `next_seq` where it was, unless it reaches over it and is delivered. -/
theorem feed_data_rxbuf {d : Direction} {next : BitVec 32} (hd : d.nextSeq = some next)
    (seq : BitVec 32) (data : Bytes) :
    (¬ReachesOver next seq data → (d.feed seq false data).nextSeq = some next ∧
        (d.feed seq false data).rxbuf = d.rxbuf) ∧
      (ReachesOver next seq data → (d.feed seq false data).rxbuf ≠ d.rxbuf) := by
  rcases eq_or_ne data [] with rfl | hne
  · refine ⟨fun _ => ⟨hd, rfl⟩, ?_⟩
    rintro ⟨_, hlt⟩
    simp at hlt
  · rcases feed_data_cases hd hne seq with ⟨hahead, hfeed⟩ | ⟨_, hold, hfeed⟩ | ⟨hbehind, hnew, hfeed⟩
    · rw [hfeed]
      exact ⟨fun _ => ⟨hd, rfl⟩, fun hover => absurd hover.1 (by omega)⟩
    · rw [hfeed]
      exact ⟨fun _ => ⟨hd, rfl⟩, fun hover => absurd hover.2 (by omega)⟩
    · rw [hfeed]
      refine ⟨fun hnot => absurd ⟨hbehind, hnew⟩ hnot, fun _ => deliver_rxbuf_ne d next ?_⟩
      rw [ne_eq, List.drop_eq_nil_iff]
      omega

/-- **The exact condition**, in any state that has a `next_seq`. -/
theorem unchanged_iff {d : Direction} {next : BitVec 32} (hd : d.nextSeq = some next)
    (seq : BitVec 32) (syn : Bool) (data : Bytes) :
    Unchanged d seq syn data ↔ SafeAgain d seq syn data := by
  have hsafe : SafeAgain d seq syn data ↔
      (syn = true → next = seq + 1) ∧ ¬ReachesOver next seq data := by
    constructor
    · intro h
      exact h next hd
    · intro h x hx
      obtain rfl : next = x := Option.some.inj (hd.symm.trans hx)
      exact h
  rw [hsafe]
  cases syn with
  | false =>
    have hdata := feed_data_rxbuf hd seq data
    constructor
    · intro h
      exact ⟨fun hf => absurd hf (by decide), fun hover => hdata.2 hover h.2⟩
    · rintro ⟨_, hnot⟩
      rw [Unchanged, hd]
      exact hdata.1 hnot
  | true =>
    -- the SYN puts `next_seq` right behind itself, and its data is fed from there
    have hfeed : d.feed seq true data = { d with nextSeq := some (seq + 1) }.feed seq false data := rfl
    have hdata := feed_data_rxbuf (d := { d with nextSeq := some (seq + 1) }) rfl seq data
    rw [← hfeed] at hdata
    constructor
    · rintro ⟨hnext, hrx⟩
      have hnot : ¬ReachesOver (seq + 1) seq data := fun hover => hdata.2 hover hrx
      rw [(hdata.1 hnot).1, hd] at hnext
      obtain rfl := Option.some.inj hnext
      exact ⟨fun _ => rfl, hnot⟩
    · rintro ⟨hsyn, hnot⟩
      obtain rfl := hsyn rfl
      rw [Unchanged, hd]
      exact hdata.1 hnot

/-! ### Every run -/

/-- Nothing takes `next_seq` away. -/
theorem flowStep_started {d : Direction} (h : d.nextSeq.isSome) (e : FlowEvent) :
    (flowStep d e).1.nextSeq.isSome := by
  obtain ⟨next, hnext⟩ := Option.isSome_iff_exists.mp h
  cases e with
  | decoded rxbuf ctx rowDesc => exact h
  | feed seq syn data =>
    have hdata : ∀ (d : Direction) next, d.nextSeq = some next →
        (d.feed seq false data).nextSeq.isSome := by
      intro d next hnext
      rcases eq_or_ne data [] with rfl | hne
      · exact Option.isSome_iff_exists.mpr ⟨next, hnext⟩
      · rcases feed_data_cases hnext hne seq with ⟨_, hfeed⟩ | ⟨_, _, hfeed⟩ | ⟨_, _, hfeed⟩
        · rw [hfeed]
          exact Option.isSome_iff_exists.mpr ⟨next, hnext⟩
        · rw [hfeed]
          exact Option.isSome_iff_exists.mpr ⟨next, hnext⟩
        · rw [hfeed]
          rfl
    cases syn with
    | false => exact hdata d next hnext
    | true => exact hdata { d with nextSeq := some (seq + 1) } (seq + 1) rfl

/-- The run of a fresh direction that starts with a SYN, which may carry data. -/
def startedRun (role : Role) (client : SocketAddr) (isn : BitVec 32) (first : Bytes)
    (es : List FlowEvent) : Direction :=
  (run flowStep (Direction.new role client) (.feed isn true first :: es)).1

theorem startedRun_isSome (role : Role) (client : SocketAddr) (isn : BitVec 32) (first : Bytes)
    (es : List FlowEvent) : (startedRun role client isn first es).nextSeq.isSome := by
  have hfirst : (flowStep (Direction.new role client) (.feed isn true first)).1.nextSeq.isSome :=
    flowStep_started (d := { Direction.new role client with nextSeq := some (isn + 1) }) rfl
      (.feed isn false first)
  exact run_invariant flowStep (fun _ d _ => d.nextSeq.isSome) hfirst
    (fun _ _ _ e h => flowStep_started h e) es

/-- The SYN can come again as long as nothing has been delivered. -/
theorem safeAgain_syn_iff {S : Bytes} {isn : BitVec 32} {n : ℕ} {d : Direction} (hS : S.length < 2 ^ 31)
    (h : StandsAt S (isn + 1) n d) : SafeAgain d isn true [] ↔ S.take n = [] := by
  have hle := h.le
  have htake : S.take n = [] ↔ n = 0 := by
    rw [List.take_eq_nil_iff]
    constructor
    · rintro (rfl | rfl)
      · rfl
      · simpa using hle
    · exact .inl
  rw [htake]
  constructor
  · intro hsafe
    have hnext := (hsafe _ h.next).1 rfl
    rw [← seqAt_zero (isn + 1), seqAt_zero] at hnext
    exact (seqAt_inj (isn + 1) (by omega) (by omega)).mp (hnext.trans (seqAt_zero _).symm)
  · rintro rfl next hnext
    rw [h.next, seqAt_zero] at hnext
    exact ⟨fun _ => (Option.some.inj hnext).symm, fun hover => absurd hover.2 (by simp)⟩

/-- A slice that is held, delivered up to its end or waiting from its start, can come again. -/
theorem Held.safeAgain {S : Bytes} {base : BitVec 32} {n p : ℕ} {past : List FlowEvent} {d : Direction}
    {data : Bytes} (hS : S.length < 2 ^ 31) (h : StandsAt S base n d) (hheld : Held S base n past d.ooo)
    (hfed : .feed (seqAt base p) false data ∈ past) (hslice : SliceAt S p data) :
    SafeAgain d (seqAt base p) false data := by
  intro next hnext
  obtain rfl : seqAt base n = next := Option.some.inj (h.next.symm.trans hnext)
  have hle := h.le
  have hp := hslice.1
  refine ⟨fun hf => absurd hf (by decide), ?_⟩
  rintro ⟨hbehind, hnew⟩
  have hdist := signedDistance_seqAt base (p := p) (q := n) (by omega) (by omega)
  have hskip : negAsUsize (seqAt base p - seqAt base n) = n - p :=
    negAsUsize_of_toInt (by rw [← signedDistance, hdist]; omega) (by omega)
  rw [hskip] at hnew
  have hne : data ≠ [] := by
    rintro rfl
    simp at hnew
  rcases hheld p data hfed hslice hne with hdone | ⟨hwait, _⟩
  · omega
  · omega

/-- **Feeding a segment again changes nothing exactly when it is safe**: a SYN while `next_seq` still
stands right behind it, data that does not reach over `next_seq`.  In the runs over the slices of a
stream, the SYN is safe exactly while nothing has been delivered, and as long as no buffered tail is
lost every data segment fed before is safe. -/
theorem refeed_unchanged_iff (role : Role) (client : SocketAddr) (isn : BitVec 32) (first : Bytes)
    (es : List FlowEvent) :
    (∀ seq syn data, .feed seq syn data ∈ FlowEvent.feed isn true first :: es →
      (Unchanged (startedRun role client isn first es) seq syn data ↔
        SafeAgain (startedRun role client isn first es) seq syn data)) ∧
    ∀ S : Bytes, S.length < 2 ^ 31 → (∀ e ∈ es, IsSegment S (isn + 1) e) →
      (SafeAgain (synRun role client isn es).1 isn true [] ↔ (synRun role client isn es).2 = []) ∧
      (Meets flowStep KeepsBuffered ((Direction.new role client).feed isn true []) es →
        ∀ seq data, .feed seq false data ∈ es →
          SafeAgain (synRun role client isn es).1 seq false data) := by
  constructor
  · intro seq syn data _
    obtain ⟨next, hnext⟩ := Option.isSome_iff_exists.mp (startedRun_isSome role client isn first es)
    exact unchanged_iff hnext seq syn data
  · intro S hS hes
    constructor
    · obtain ⟨n, hstand, hout⟩ := stands_synRun hS role client isn hes
      rw [hout]
      exact safeAgain_syn_iff hS hstand
    · intro hkeep seq data hfed
      obtain ⟨n, hstand, _, hheld⟩ := held_of_keepsBuffered hS role client isn hes hkeep
      obtain ⟨_, p, rfl, hslice⟩ := hes _ hfed
      exact hheld.safeAgain hS hstand hfed hslice

/-- One data segment after the SYN: it can come again, and the SYN cannot. -/
theorem refeed_data_unchanged :
    Unchanged (startedRun .client ⟨.v4 0, 40001⟩ 0 [] [.feed 1 false [1, 2, 3]]) 1 false [1, 2, 3] ∧
      ¬Unchanged (startedRun .client ⟨.v4 0, 40001⟩ 0 [] [.feed 1 false [1, 2, 3]]) 0 true [] := by
  have h := refeed_unchanged_iff .client ⟨.v4 0, 40001⟩ 0 [] [.feed 1 false [1, 2, 3]]
  have hes : ∀ e ∈ [FlowEvent.feed 1 false [1, 2, 3]], IsSegment [1, 2, 3] (0 + 1) e := by
    simp only [List.forall_mem_cons]
    exact ⟨⟨rfl, 0, by decide, by decide, by decide⟩, by simp⟩
  obtain ⟨hsyn, hdata⟩ := h.2 [1, 2, 3] (by decide) hes
  constructor
  · refine (h.1 1 false [1, 2, 3] (by simp)).mpr (hdata ⟨?_, trivial⟩ 1 [1, 2, 3] (by simp))
    intro next _
    refine ⟨fun _ _ b hb => ?_, fun _ _ y _ _ k b hb _ => ?_⟩
    · simp [Direction.feed, Direction.new] at hb
    · simp [Direction.feed, Direction.new] at hb
  · rw [h.1 0 true [] (by simp)]
    exact fun hsafe => absurd (hsyn.mp hsafe) (by decide)

/-- **A duplicated SYN.**  After three bytes have been delivered the SYN comes again: `next_seq` goes
back, and the retransmission of the bytes is delivered a second time. -/
theorem duplicated_syn_redelivers :
    ¬Unchanged (startedRun .client ⟨.v4 0, 40001⟩ 0 [] [.feed 1 false [1, 2, 3]]) 0 true [] ∧
      (startedRun .client ⟨.v4 0, 40001⟩ 0 []
        [.feed 1 false [1, 2, 3], .feed 0 true [], .feed 1 false [1, 2, 3]]).rxbuf
        = [1, 2, 3, 1, 2, 3] := by
  constructor
  · intro h
    exact absurd h.1 (by decide)
  · rfl

end Tapgres.Flow
