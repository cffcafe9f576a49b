import Tapgres.Flow.Reassembly

/-!
# What the out-of-order map holds

The out-of-order map is cleaned only where the drain removes a segment under its exact number.  Whether it
holds only segments that still lie ahead of `next_seq` is followed here over whole runs, in which each
segment is fed at most `2^31` away:

* `AllAhead` — every buffered segment starts strictly ahead of `next_seq`;
* `NothingInside` — a delivery, and each buffered segment it is followed by, has no buffered segment
  starting strictly inside it;
* `flushOoo_passes` — what a drain leaves behind itself;
* `allAhead_iff_nothingInside` — the two say the same of a run; `overlap_passes_entry` is a run in which
  an entry is passed.
-/

namespace Tapgres.Flow

open Std (ExtTreeMap LawfulEqCmp)
open Tapgres.Net Tapgres.Pgwire Tapgres.Decode Tapgres.Lib.SeqSpace Tapgres.Lib.Run

/-- Every buffered segment starts strictly ahead of `next_seq`. -/
def AllAhead (d : Direction) : Prop :=
  ∀ next, d.nextSeq = some next → ∀ k b, d.ooo[k]? = some b → 0 < signedDistance k next

/-- A non-SYN segment no byte of which is `2^31` or more away from `next_seq`. -/
def Near (d : Direction) : FlowEvent → Prop
  | .feed seq syn data => syn = false ∧ ∀ next, d.nextSeq = some next →
      -2 ^ 31 < signedDistance seq next ∧ signedDistance seq next + data.length ≤ 2 ^ 31
  | .decoded _ _ _ => True

/-- A buffered segment starts strictly inside the `len` bytes numbered from `x`. -/
def StartsInside (ooo : OooMap) (x : BitVec 32) (len : ℤ) : Prop :=
  ∃ k b, ooo[k]? = some b ∧ 0 < signedDistance k x ∧ signedDistance k x < len

/-- The walk from `x`, along buffered segments that start exactly where the previous one ends, takes a
segment strictly inside which another one starts. -/
def WalksOver (ooo : OooMap) (x : BitVec 32) : Prop :=
  ∃ y b, Relation.ReflTransGen (Follows ooo) x y ∧ ooo[y]? = some b ∧ StartsInside ooo y b.length

/-- No buffered segment starts strictly inside the new bytes of a segment that reaches over `next_seq`,
or strictly inside a buffered segment of the walk that starts where it ends. -/
def NothingInside (d : Direction) : FlowEvent → Prop
  | .feed seq _ data => ∀ next, d.nextSeq = some next → signedDistance seq next ≤ 0 →
      0 < signedDistance seq next + data.length →
      ¬StartsInside d.ooo next (signedDistance seq next + data.length) ∧
        ¬WalksOver d.ooo (seq + BitVec.ofNat 32 data.length)
  | .decoded _ _ _ => True

/-- The direction before the first segment: fresh, or after its payload-less SYN. -/
def Direction.opened (role : Role) (client : SocketAddr) : Option (BitVec 32) → Direction
  | none => Direction.new role client
  | some isn => (Direction.new role client).feed isn true []

/-! ### Buffered segments as positions ahead -/

/-- The buffered segments are not empty and lie in the `2^31` bytes ahead of `base`. -/
def Within (base : BitVec 32) (ooo : OooMap) : Prop :=
  ∀ k b, ooo[k]? = some b →
    b ≠ [] ∧ 0 < signedDistance k base ∧ signedDistance k base + b.length ≤ 2 ^ 31

theorem Within.position {base k : BitVec 32} {ooo : OooMap} {b : Bytes} (h : Within base ooo)
    (hk : ooo[k]? = some b) : ∃ q : ℕ, k = seqAt base q ∧ 0 < q ∧ 0 < b.length ∧ q + b.length ≤ 2 ^ 31 := by
  obtain ⟨hne, hpos, hle⟩ := h k b hk
  obtain ⟨q, hq, hdist, _⟩ := exists_seqAt hpos.le
  have hlen := List.length_pos_iff.mpr hne
  exact ⟨q, hq, by omega, hlen, by omega⟩

/-- A segment found under the number of a position starts at that position. -/
theorem Within.at {base : BitVec 32} {ooo : OooMap} {m : ℕ} {b : Bytes} (h : Within base ooo)
    (hm : m ≤ 2 ^ 31) (hb : ooo[seqAt base m]? = some b) :
    0 < m ∧ 0 < b.length ∧ m + b.length ≤ 2 ^ 31 := by
  obtain ⟨q, hq, hpos, hlen, hle⟩ := h.position hb
  obtain rfl := (seqAt_inj base (by omega) (by omega)).mp hq
  exact ⟨hpos, hlen, hle⟩

theorem Within.erase {base : BitVec 32} {ooo : OooMap} (h : Within base ooo) (k : BitVec 32) :
    Within base (ooo.erase k) :=
  fun x b hb => h x b (erase_some.mp hb).2

/-- Strictly inside, in positions. -/
theorem startsInside_iff {base : BitVec 32} {ooo : OooMap} (h : Within base ooo) {m : ℕ}
    (hm : m ≤ 2 ^ 31) (len : ℤ) :
    StartsInside ooo (seqAt base m) len ↔
      ∃ (q : ℕ) (b : Bytes), ooo[seqAt base q]? = some b ∧ q ≤ 2 ^ 31 ∧ m < q ∧ q < m + len := by
  constructor
  · rintro ⟨k, b, hb, hlo, hhi⟩
    obtain ⟨q, rfl, hpos, hlen, hle⟩ := h.position hb
    rw [signedDistance_near base (by omega) (by omega)] at hlo hhi
    exact ⟨q, b, hb, by omega, by omega, by omega⟩
  · rintro ⟨q, b, hb, hq, hlo, hhi⟩
    obtain ⟨hpos, hlen, hle⟩ := h.at hq hb
    refine ⟨seqAt base q, b, hb, ?_, ?_⟩
    · rw [signedDistance_near base (by omega) (by omega)]
      omega
    · rw [signedDistance_near base (by omega) (by omega)]
      omega

/-- A walk along buffered segments goes forward, and a segment before its start plays no part in it. -/
theorem walk_erase {base : BitVec 32} {ooo : OooMap} (h : Within base ooo) {m j : ℕ} (hmj : m < j)
    (hj : j ≤ 2 ^ 31) {x : BitVec 32}
    (hwalk : Relation.ReflTransGen (Follows ooo) (seqAt base j) x) :
    Relation.ReflTransGen (Follows (ooo.erase (seqAt base m))) (seqAt base j) x ∧
      ∃ q, x = seqAt base q ∧ j ≤ q ∧ q ≤ 2 ^ 31 := by
  induction hwalk with
  | refl => exact ⟨.refl, j, rfl, le_refl j, hj⟩
  | tail _ hstep ih =>
    obtain ⟨hwalk, q, rfl, hjq, hq⟩ := ih
    obtain ⟨b, hb, rfl⟩ := hstep
    obtain ⟨_, hlen, hle⟩ := h.at hq hb
    refine ⟨hwalk.tail ⟨b, erase_some.mpr ⟨?_, hb⟩, rfl⟩, q + b.length, ?_, by omega, by omega⟩
    · intro heq
      have := (seqAt_inj base (by omega) (by omega)).mp heq
      omega
    · rw [seqAt_add]

/-- A segment that starts before `x` does not start inside what follows `x`. -/
theorem startsInside_erase {base : BitVec 32} {ooo : OooMap} (h : Within base ooo) {m q : ℕ}
    (hmq : m < q) (hq : q ≤ 2 ^ 31) {len : ℤ} :
    StartsInside (ooo.erase (seqAt base m)) (seqAt base q) len ↔ StartsInside ooo (seqAt base q) len := by
  rw [startsInside_iff (h.erase _) hq, startsInside_iff h hq]
  constructor
  · rintro ⟨p, b, hb, hrest⟩
    exact ⟨p, b, (erase_some.mp hb).2, hrest⟩
  · rintro ⟨p, b, hb, hp, hlo, hhi⟩
    refine ⟨p, b, erase_some.mpr ⟨?_, hb⟩, hp, hlo, hhi⟩
    intro heq
    have := (seqAt_inj base (by omega) (by omega)).mp heq
    omega

/-! ### What a drain leaves behind -/

/-- A segment is left between `m` and `m'`, the end of the drain. -/
def LeftBehind (base : BitVec 32) (ooo : OooMap) (m m' : ℕ) : Prop :=
  ∃ (q : ℕ) (b : Bytes), ooo[seqAt base q]? = some b ∧ m ≤ q ∧ q ≤ m'

/-- A drain that stops at once leaves nothing between its ends, and its walk has no segment. -/
theorem leftBehind_stop {base : BitVec 32} {ooo : OooMap} {m : ℕ} (hnone : ooo[seqAt base m]? = none) :
    LeftBehind base ooo m m ↔ WalksOver ooo (seqAt base m) := by
  constructor
  · rintro ⟨q, b, hb, hle, hle'⟩
    obtain rfl : q = m := by omega
    rw [hnone] at hb
    cases hb
  · rintro ⟨y, b, hwalk, hb, _⟩
    rcases hwalk.cases_head with rfl | ⟨z, ⟨c, hc, _⟩, _⟩
    · rw [hnone] at hb
      cases hb
    · rw [hnone] at hc
      cases hc

/-- The walk from a buffered segment goes over another one when this segment does, or the rest. -/
theorem walksOver_cons {base : BitVec 32} {ooo : OooMap} (hw : Within base ooo) {m : ℕ}
    (hm : m ≤ 2 ^ 31) {b : Bytes} (hget : ooo[seqAt base m]? = some b) :
    WalksOver ooo (seqAt base m) ↔ StartsInside ooo (seqAt base m) b.length ∨
      WalksOver (ooo.erase (seqAt base m)) (seqAt base (m + b.length)) := by
  obtain ⟨hm0, hlen, hend⟩ := hw.at hm hget
  constructor
  · rintro ⟨y, c, hwalk, hc, hinside⟩
    rcases hwalk.cases_head with rfl | ⟨z, ⟨b', hb', rfl⟩, hrest⟩
    · obtain rfl := Option.some.inj (hget.symm.trans hc)
      exact .inl hinside
    · obtain rfl := Option.some.inj (hget.symm.trans hb')
      rw [seqAt_add] at hrest
      obtain ⟨hrest', q, rfl, hq, hq'⟩ := walk_erase hw (by omega : m < m + b.length) hend hrest
      refine .inr ⟨seqAt base q, c, hrest', erase_some.mpr ⟨?_, hc⟩,
        (startsInside_erase hw (by omega) hq').mpr hinside⟩
      intro heq
      have := (seqAt_inj base (by omega) (by omega)).mp heq
      omega
  · rintro (hinside | ⟨y, c, hwalk, hc, hinside⟩)
    · exact ⟨_, b, .refl, hget, hinside⟩
    · have hwalk' := walk_of_erase hwalk
      obtain ⟨_, q, rfl, hq, hq'⟩ := walk_erase hw (by omega : m < m + b.length) hend hwalk'
      refine ⟨_, c, .head ⟨b, hget, (seqAt_add base m _).symm⟩ hwalk', (erase_some.mp hc).2, ?_⟩
      exact (startsInside_erase hw (by omega) hq').mp hinside

/-- **The drain.**  Started at position `m` it ends at a position `m'`, touches nothing before `m`, and
leaves a segment behind between the two exactly when one starts strictly inside a segment of its walk. -/
theorem flushOoo_passes {base : BitVec 32} (n : ℕ) (ooo : OooMap) (m : ℕ) (rxbuf : Bytes)
    (hw : Within base ooo) (hm : m ≤ 2 ^ 31) (hn : ooo.size ≤ n) :
    ∃ (m' : ℕ) (ooo' : OooMap) (rxbuf' : Bytes),
      flushOoo n ooo (seqAt base m) rxbuf = (ooo', seqAt base m', rxbuf') ∧ m ≤ m' ∧ m' ≤ 2 ^ 31 ∧
      (∀ (k : BitVec 32) b, ooo'[k]? = some b → ooo[k]? = some b) ∧
      (∀ q < m, ooo'[seqAt base q]? = ooo[seqAt base q]?) ∧
      (LeftBehind base ooo' m m' ↔ WalksOver ooo (seqAt base m)) := by
  induction n generalizing ooo m rxbuf with
  | zero =>
    have hempty : ooo = ∅ := ooo_eq_empty hn
    refine ⟨m, ooo, rxbuf, rfl, le_refl m, hm, fun _ _ h => h, fun _ _ => rfl, leftBehind_stop ?_⟩
    rw [hempty]
    simp
  | succ n ih =>
    rw [flushOoo]
    cases hget : ooo[seqAt base m]? with
    | none =>
      exact ⟨m, ooo, rxbuf, rfl, le_refl m, hm, fun _ _ h => h, fun _ _ => rfl, leftBehind_stop hget⟩
    | some b =>
      obtain ⟨hm0, hlen, hend⟩ := hw.at hm hget
      have hsize : (ooo.erase (seqAt base m)).size ≤ n := ooo_size_erase hget hn
      obtain ⟨m', ooo', rxbuf', hrun, hle, hle', hsub, hsame, hiff⟩ :=
        ih (ooo.erase (seqAt base m)) (m + b.length) (rxbuf ++ b) (hw.erase _) hend hsize
      -- up to the end of this segment, only this segment has been taken out
      have hkept : ∀ q < m + b.length, ∀ c,
          ooo'[seqAt base q]? = some c ↔ q ≠ m ∧ ooo[seqAt base q]? = some c := by
        intro q hq c
        rw [hsame q hq, erase_some, ne_eq, seqAt_inj base (by omega) (by omega)]
      refine ⟨m', ooo', rxbuf', ?_, by omega, hle', ?_, ?_, ?_⟩
      · rw [← hrun, ← seqAt_add]
      · intro k c hc
        exact (erase_some.mp (hsub k c hc)).2
      · intro q hq
        refine Option.ext fun c => ?_
        rw [hkept q (by omega)]
        exact ⟨fun h => h.2, fun h => ⟨by omega, h⟩⟩
      · rw [walksOver_cons hw hm hget, ← hiff, startsInside_iff hw hm]
        constructor
        · rintro ⟨q, c, hc, hlo, hhi⟩
          by_cases hq : q < m + b.length
          · obtain ⟨hne, hc'⟩ := (hkept q hq c).mp hc
            exact .inl ⟨q, c, hc', by omega, by omega, by omega⟩
          · exact .inr ⟨q, c, hc, by omega, hhi⟩
        · rintro (⟨q, c, hc, _, hlo, hhi⟩ | ⟨q, c, hc, hlo, hhi⟩)
          · exact ⟨q, c, (hkept q (by omega) c).mpr ⟨by omega, hc⟩, by omega, by omega⟩
          · exact ⟨q, c, hc, by omega, hhi⟩

/-! ### One feed -/

/-- The invariant of the runs that pass nothing: what is buffered lies in the `2^31` bytes ahead. -/
def BufferedAhead (d : Direction) : Prop :=
  (d.nextSeq = none → d.ooo = ∅) ∧ ∀ next, d.nextSeq = some next → Within next d.ooo

theorem BufferedAhead.allAhead {d : Direction} (h : BufferedAhead d) : AllAhead d :=
  fun next hnext k b hk => (h.2 next hnext k b hk).2.1

/-- **One delivery** of `chunk` at `next`: every entry left lies ahead exactly when nothing starts inside
what is delivered, and then the entries lie within `2^31` again. -/
theorem deliver_ahead {d : Direction} {next : BitVec 32} (hw : Within next d.ooo) (chunk : Bytes)
    (hlen : chunk.length ≤ 2 ^ 31) :
    (AllAhead (d.deliver next chunk) ↔
      ¬StartsInside d.ooo next chunk.length ∧ ¬WalksOver d.ooo (next + BitVec.ofNat 32 chunk.length)) ∧
    (AllAhead (d.deliver next chunk) → BufferedAhead (d.deliver next chunk)) := by
  obtain ⟨m', ooo', rxbuf', hrun, hle, hle', hsub, hsame, hiff⟩ :=
    flushOoo_passes d.ooo.size d.ooo chunk.length (d.rxbuf ++ chunk) hw hlen (le_refl _)
  have hdel : d.deliver next chunk
      = { d with ooo := ooo', nextSeq := some (seqAt next m'), rxbuf := rxbuf' } := by
    simp only [Direction.deliver, ← seqAt.eq_def, hrun]
  have hstart : StartsInside d.ooo next chunk.length ↔
      ∃ (q : ℕ) (b : Bytes), d.ooo[seqAt next q]? = some b ∧ q ≤ 2 ^ 31 ∧ q < chunk.length := by
    have h := startsInside_iff hw (Nat.zero_le _) chunk.length
    rw [seqAt_zero] at h
    rw [h]
    constructor
    · rintro ⟨q, b, hb, hq, _, hlt⟩
      exact ⟨q, b, hb, hq, by omega⟩
    · rintro ⟨q, b, hb, hq, hlt⟩
      have := hw.at hq hb
      exact ⟨q, b, hb, hq, by omega, by omega⟩
  -- all entries lie ahead when none is left up to the place where the delivery stops
  have hahead : AllAhead (d.deliver next chunk) ↔
      ∀ (q : ℕ) (b : Bytes), ooo'[seqAt next q]? = some b → q ≤ 2 ^ 31 → m' < q := by
    rw [hdel]
    constructor
    · intro h q b hb hq
      have hdist := h _ rfl (seqAt next q) b hb
      have := hw.at hq (hsub _ b hb)
      rw [signedDistance_near next (by omega) (by omega)] at hdist
      omega
    · intro h x hx k b hb
      obtain rfl : seqAt next m' = x := Option.some.inj hx
      obtain ⟨q, rfl, hpos, hlenb, hend⟩ := hw.position (hsub k b hb)
      rw [signedDistance_near next (by omega) (by omega)]
      have := h q b hb (by omega)
      omega
  refine ⟨?_, ?_⟩
  · show _ ↔ _ ∧ ¬WalksOver d.ooo (seqAt next chunk.length)
    rw [hahead, hstart, ← hiff]
    constructor
    · intro h
      constructor
      · rintro ⟨q, b, hb, hq, hlt⟩
        have := h q b (by rw [hsame q hlt]; exact hb) hq
        omega
      · rintro ⟨q, b, hb, _, hhi⟩
        have := h q b hb (by omega)
        omega
    · rintro ⟨hstart, hleft⟩ q b hb hq
      by_contra hnot
      by_cases hlt : q < chunk.length
      · exact hstart ⟨q, b, by rw [← hsame q hlt]; exact hb, hq, hlt⟩
      · exact hleft ⟨q, b, hb, by omega, by omega⟩
  · rw [hahead, hdel]
    intro h
    refine ⟨fun hnone => by simp at hnone, ?_⟩
    intro x hx k b hb
    obtain rfl : seqAt next m' = x := Option.some.inj hx
    obtain ⟨q, rfl, hpos, hlenb, hend⟩ := hw.position (hsub k b hb)
    have := h q b hb (by omega)
    refine ⟨(hw _ b (hsub _ b hb)).1, ?_, ?_⟩
    · rw [signedDistance_near next (by omega) (by omega)]
      omega
    · rw [signedDistance_near next (by omega) (by omega)]
      omega

/-- The bytes skipped are those between the segment's start and `next_seq`. -/
theorem skip_eq {seq next : BitVec 32} (hbehind : signedDistance seq next ≤ 0)
    (hlow : -2 ^ 31 < signedDistance seq next) :
    (negAsUsize (seq - next) : ℤ) = -signedDistance seq next := by
  have h : negAsUsize (seq - next) = (-signedDistance seq next).toNat :=
    negAsUsize_of_toInt (by rw [← signedDistance]; omega) (by omega)
  rw [h]
  omega

/-- Buffering a segment from ahead. -/
theorem BufferedAhead.insert {d : Direction} (h : BufferedAhead d) {next seq : BitVec 32} {data : Bytes}
    (hnext : d.nextSeq = some next) (hne : data ≠ []) (hahead : 0 < signedDistance seq next)
    (hhigh : signedDistance seq next + data.length ≤ 2 ^ 31) :
    BufferedAhead { d with ooo := d.ooo.insert seq data } := by
  refine ⟨fun hnone => absurd (hnext.symm.trans hnone) (by simp), ?_⟩
  intro x hx k b hb
  obtain rfl : next = x := Option.some.inj (hnext.symm.trans hx)
  rw [ExtTreeMap.getElem?_insert] at hb
  split at hb
  · rename_i hk
    obtain rfl := LawfulEqCmp.compare_eq_iff_eq.mp hk
    obtain rfl := Option.some.inj hb
    exact ⟨hne, hahead, hhigh⟩
  · exact h.2 next hnext k b hb

/-- The first segment of a direction without SYN anchors it; nothing is buffered yet. -/
theorem BufferedAhead.anchor {d : Direction} (h : BufferedAhead d) (hnext : d.nextSeq = none)
    {data : Bytes} (hne : data ≠ []) (seq : BitVec 32) : BufferedAhead (d.feed seq false data) := by
  have hooo := h.1 hnext
  have hempty : data.isEmpty = false := by simpa using hne
  have hfeed : d.feed seq false data = { d with nextSeq := some seq }.deliver seq data := by
    simp [Direction.feed, hempty, hnext]
  rw [hfeed]
  refine ⟨fun hnone => by simp [Direction.deliver] at hnone, ?_⟩
  intro x _ k b hb
  simp [Direction.deliver, hooo, flushOoo] at hb

/-- The end of what is delivered is the end of the segment. -/
theorem seq_add_drop {seq next : BitVec 32} {data : Bytes} (hnew : negAsUsize (seq - next) < data.length) :
    next + BitVec.ofNat 32 (data.drop (negAsUsize (seq - next))).length
      = seq + BitVec.ofNat 32 data.length := by
  have hsplit : BitVec.ofNat 32 data.length = BitVec.ofNat 32 (negAsUsize (seq - next))
      + BitVec.ofNat 32 (data.length - negAsUsize (seq - next)) := by
    rw [← BitVec.ofNat_add, Nat.add_sub_cancel' hnew.le]
  rw [hsplit, ← BitVec.add_assoc, seq_add_negAsUsize, List.length_drop]

/-- A segment that reaches over `next_seq` is delivered from there on. -/
theorem BufferedAhead.overlap {d : Direction} (h : BufferedAhead d) {next seq : BitVec 32} {data : Bytes}
    (hnext : d.nextSeq = some next) (hlow : -2 ^ 31 < signedDistance seq next)
    (hhigh : signedDistance seq next + data.length ≤ 2 ^ 31) (hbehind : signedDistance seq next ≤ 0)
    (hnew : negAsUsize (seq - next) < data.length) :
    (AllAhead (d.deliver next (data.drop (negAsUsize (seq - next)))) ↔
        NothingInside d (.feed seq false data)) ∧
      (AllAhead (d.deliver next (data.drop (negAsUsize (seq - next)))) →
        BufferedAhead (d.deliver next (data.drop (negAsUsize (seq - next))))) := by
  have hskip := skip_eq hbehind hlow
  have hchunk : ((data.drop (negAsUsize (seq - next))).length : ℤ)
      = signedDistance seq next + data.length := by
    rw [List.length_drop]
    omega
  have hdel := deliver_ahead (h.2 next hnext) (data.drop (negAsUsize (seq - next))) (by omega)
  refine ⟨?_, hdel.2⟩
  rw [hdel.1, hchunk, seq_add_drop hnew]
  constructor
  · intro hboth x hx _ _
    obtain rfl : next = x := Option.some.inj (hnext.symm.trans hx)
    exact hboth
  · intro hnothing
    exact hnothing next hnext hbehind (by omega)

/-- **The step lemma.**  A near segment leaves all entries ahead exactly when nothing starts inside what
it delivers, and then the invariant is kept. -/
theorem flowStep_ahead {d : Direction} {e : FlowEvent} (h : BufferedAhead d) (hnear : Near d e) :
    (AllAhead (flowStep d e).1 ↔ NothingInside d e) ∧
      (AllAhead (flowStep d e).1 → BufferedAhead (flowStep d e).1) := by
  -- a step that keeps the invariant and delivers nothing
  have hquiet : BufferedAhead (flowStep d e).1 → NothingInside d e →
      (AllAhead (flowStep d e).1 ↔ NothingInside d e) ∧
        (AllAhead (flowStep d e).1 → BufferedAhead (flowStep d e).1) :=
    fun hb hn => ⟨⟨fun _ => hn, fun _ => hb.allAhead⟩, fun _ => hb⟩
  cases e with
  | decoded rxbuf ctx rowDesc => exact hquiet h trivial
  | feed seq syn data =>
    obtain ⟨rfl, hnear⟩ := hnear
    rcases eq_or_ne data [] with rfl | hne
    · refine hquiet h ?_
      intro next _ hle hlt
      rw [List.length_nil] at hlt
      omega
    · cases hnext : d.nextSeq with
      | none =>
        refine hquiet (h.anchor hnext hne seq) ?_
        intro next hsome
        rw [hnext] at hsome
        cases hsome
      | some next =>
        obtain ⟨hlow, hhigh⟩ := hnear next hnext
        rcases feed_data_cases hnext hne seq with ⟨hahead, hfeed⟩ | ⟨hbehind, hold, hfeed⟩ |
          ⟨hbehind, hnew, hfeed⟩
        · -- buffered
          refine hquiet ?_ ?_
          · rw [flowStep, hfeed]
            exact h.insert hnext hne hahead hhigh
          · intro x hx hle _
            obtain rfl : next = x := Option.some.inj (hnext.symm.trans hx)
            omega
        · -- wholly behind
          refine hquiet (by rw [flowStep, hfeed]; exact h) ?_
          intro x hx _ hlt
          obtain rfl : next = x := Option.some.inj (hnext.symm.trans hx)
          have := skip_eq hbehind hlow
          omega
        · -- delivered
          rw [flowStep, hfeed]
          exact h.overlap hnext hlow hhigh hbehind hnew

/-! ### Whole runs -/

theorem bufferedAhead_opened (role : Role) (client : SocketAddr) (syn : Option (BitVec 32)) :
    BufferedAhead (Direction.opened role client syn) := by
  have hooo : (Direction.opened role client syn).ooo = ∅ := by
    cases syn
    · rfl
    · rfl
  refine ⟨fun _ => hooo, ?_⟩
  intro next _ k b hb
  rw [hooo] at hb
  simp at hb

/-- **What is buffered lies ahead, in every state of a run, exactly when the run passes nothing.**  The
run starts fresh or after the SYN; its segments may come in any order and overlap. -/
theorem allAhead_iff_nothingInside (role : Role) (client : SocketAddr) (syn : Option (BitVec 32))
    (es : List FlowEvent) (hes : Meets flowStep Near (Direction.opened role client syn) es) :
    (∀ past rest, es = past ++ rest →
        AllAhead (run flowStep (Direction.opened role client syn) past).1) ↔
      Meets flowStep NothingInside (Direction.opened role client syn) es :=
  always_iff_meets_of_meets flowStep BufferedAhead AllAhead (fun _ => BufferedAhead.allAhead)
    (fun _ _ h hnear => (flowStep_ahead h hnear).1)
    (fun _ _ h hnear hok => (flowStep_ahead h hnear).2 ((flowStep_ahead h hnear).1.mpr hok))
    (bufferedAhead_opened role client syn) hes

/-- A later slice first, then the byte before it. -/
def reorderedFeeds : List FlowEvent := [.feed 0 false [2, 3], .feed (-1) false [1]]

/-- The drain takes the later slice, and nothing is left. -/
theorem allAhead_reordered :
    AllAhead (run flowStep (Direction.opened .client ⟨.v4 0, 40001⟩ (some (-2))) reorderedFeeds).1 := by
  have hnear : Meets flowStep Near (Direction.opened .client ⟨.v4 0, 40001⟩ (some (-2)))
      reorderedFeeds := by
    refine ⟨⟨rfl, ?_⟩, ⟨rfl, ?_⟩, trivial⟩
    · intro next hnext
      obtain rfl : next = -1 := (Option.some.inj hnext).symm
      decide
    · intro next hnext
      obtain rfl : next = -1 := (Option.some.inj hnext).symm
      decide
  refine (allAhead_iff_nothingInside .client ⟨.v4 0, 40001⟩ (some (-2)) reorderedFeeds hnear).mpr
    ⟨?_, ?_, trivial⟩ reorderedFeeds [] (by simp)
  · intro next hnext hle _
    obtain rfl : next = -1 := (Option.some.inj hnext).symm
    exact absurd hle (by decide)
  · intro next hnext _ _
    obtain rfl : next = -1 := (Option.some.inj hnext).symm
    -- the only buffered segment is the one at number 0, which the drain takes whole
    have hooo : (flowStep (Direction.opened .client ⟨.v4 0, 40001⟩ (some (-2)))
        (.feed 0 false [2, 3])).1.ooo = (∅ : OooMap).insert 0 [2, 3] := rfl
    have hentry : ∀ (x : BitVec 32) c, ((∅ : OooMap).insert 0 [2, 3])[x]? = some c → x = 0 := by
      intro x c hc
      rw [ExtTreeMap.getElem?_insert] at hc
      split at hc
      · rename_i hx
        exact (LawfulEqCmp.compare_eq_iff_eq.mp hx).symm
      · simp at hc
    rw [hooo]
    constructor
    · rintro ⟨k, b, hb, _, hlt⟩
      obtain rfl := hentry k b hb
      exact absurd hlt (by decide)
    · rintro ⟨y, b, _, hb, k, c, hc, hlt, _⟩
      obtain rfl := hentry y b hb
      obtain rfl := hentry k c hc
      exact absurd hlt (by decide)

/-- **A passed entry.**  Both segments are slices of one stream and near; the second ends inside the
buffered one, whose start `next_seq` has then passed. -/
theorem overlap_passes_entry :
    (∀ e ∈ overlappingFeeds, IsSegment [1, 2, 3, 4] (0 + 1) e) ∧
      Meets flowStep Near (Direction.opened .client ⟨.v4 0, 40001⟩ (some 0)) overlappingFeeds ∧
      ¬AllAhead (run flowStep (Direction.opened .client ⟨.v4 0, 40001⟩ (some 0)) overlappingFeeds).1 := by
  refine ⟨?_, ⟨⟨rfl, ?_⟩, ⟨rfl, ?_⟩, trivial⟩, ?_⟩
  · simp only [overlappingFeeds, List.forall_mem_cons]
    exact ⟨⟨rfl, 1, by decide, by decide, by decide⟩, ⟨rfl, 0, by decide, by decide, by decide⟩, by simp⟩
  · intro next hnext
    obtain rfl : next = 1 := (Option.some.inj hnext).symm
    decide
  · intro next hnext
    obtain rfl : next = 1 := (Option.some.inj hnext).symm
    decide
  · intro h
    exact absurd (h 3 rfl 2 [2, 3, 4] rfl) (by decide)

end Tapgres.Flow
