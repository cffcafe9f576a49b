import Tapgres.Flow.ConnTable
import Tapgres.Lib.Run
import Tapgres.Pgwire.Framed

/-!
# The books of a run

A ledger keeps, next to the table, what every connection has done over its lifetime: its records, how
many bytes were appended to each of its buffers, and what those buffers hold (or held when the
connection left the table).  `Balanced` says that the metrics agree with the records, and that every
byte appended is counted, still buffered, or lost to a decode error:

* `balanced_admitted`, `balanced_settle` — the two halves of one table step keep it;
* `counters_equal_records` — so it holds after every run, whatever the segments.
-/

namespace Tapgres.Flow

open Tapgres.Net Tapgres.Pgwire Tapgres.Decode Tapgres.State Tapgres.Lib.Run Tapgres.Lib.Loop

/-! ### Lifetimes -/

/-- What one connection has done so far. -/
structure Lifetime where
  events : List Event := []
  appended : Role → ℕ := fun _ => 0
  rxbuf : Role → Bytes := fun _ => []

/-- The table, and the lifetime of every connection it ever held. -/
structure Ledger where
  table : ConnTable
  life : ConnId → Lifetime

def Ledger.start (connectionCap : ℕ) : Ledger :=
  ⟨ConnTable.withMetrics (Metrics.withLimits connectionCap), fun _ => {}⟩

/-- The connection has become `conn`, emitting `events`, with `added` bytes appended to its buffers. -/
def Lifetime.extend (life : Lifetime) (conn : Connection) (events : List Event) (added : Role → ℕ) :
    Lifetime :=
  { events := life.events ++ events
    appended := fun role => life.appended role + added role
    rxbuf := fun role => (conn.dir role).rxbuf }

/-- The lifetimes after a segment for `key`: it is entered under the connection that handles it. -/
def Ledger.enter (pg : Decoder) (pgPort : UInt16) (l : Ledger) (seg : TcpSegment) (key : ConnKey)
    (events : List Event) : ConnId → Lifetime :=
  let admitted := (l.table.admitSegment key pgPort seg).1
  match admitted.map.lookup key with
  | none => l.life
  | some conn =>
    Function.update l.life conn.stats ((l.life conn.stats).extend
      (conn.handle pg pgPort admitted.metrics seg).1 events (conn.appended pgPort seg))

/-- `ConnTable::handle`, with the books kept. -/
def ledgerStep (pg : Decoder) (pgPort : UInt16) (l : Ledger) (seg : TcpSegment) :
    Ledger × List Event :=
  let handled := l.table.handle pg pgPort seg
  let life :=
    match connKey seg pgPort with
    | none => l.life
    | some key => l.enter pg pgPort seg key handled.2
  (⟨handled.1, life⟩, handled.2)

/-- The ledger only watches: its table and its records are those of `ConnTable::handle`. -/
theorem ledger_run_table (pg : Decoder) (pgPort : UInt16) (l : Ledger) (segs : List TcpSegment) :
    (run (ledgerStep pg pgPort) l segs).1.table
        = (run (ConnTable.handle pg pgPort) l.table segs).1 ∧
      (run (ledgerStep pg pgPort) l segs).2
        = (run (ConnTable.handle pg pgPort) l.table segs).2 := by
  induction segs generalizing l with
  | nil => exact ⟨rfl, rfl⟩
  | cons seg segs ih =>
    rw [run_cons, run_cons, (ih _).1, (ih _).2]
    exact ⟨rfl, rfl⟩

/-! ### The invariant -/

/-- The books balance, when `out` has been emitted so far. -/
structure Balanced (l : Ledger) (out : List Event) : Prop where
  /-- the totals count the records and their wire bytes -/
  total : ∀ role, l.table.metrics.msgs (trafficDirection role) = messagesOf role out ∧
    l.table.metrics.bytes (trafficDirection role) = wireOf role out
  /-- so does each connection's own record -/
  record : ∀ id s, l.table.metrics.arcs id = some s → id < l.table.metrics.nextConnId ∧
    ∀ role, s.msgs (trafficDirection role) = messagesOf role (l.life id).events ∧
      s.bytes (trafficDirection role) = wireOf role (l.life id).events
  /-- a byte appended is counted, still there, or lost -/
  balance : ∀ id role, (l.life id).appended role = wireOf role (l.life id).events
    + ((l.life id).rxbuf role).length + lostOf role (l.life id).events
  /-- the entries of the table are live handles, and the ledger knows their buffers -/
  entry : ∀ k conn, l.table.map.lookup k = some conn → conn.Sided ∧
    (∃ s, l.table.metrics.arcs conn.stats = some s) ∧
    ∀ role, (l.life conn.stats).rxbuf role = (conn.dir role).rxbuf
  distinct : ∀ k k' conn conn', l.table.map.lookup k = some conn → l.table.map.lookup k' = some conn' →
    conn.stats = conn'.stats → k = k'
  fresh : ∀ id, l.table.metrics.nextConnId ≤ id → l.life id = {}

theorem balanced_start (connectionCap : ℕ) : Balanced (Ledger.start connectionCap) [] := by
  refine ⟨?_, ?_, fun _ _ => rfl, ?_, ?_, fun _ _ => rfl⟩
  · intro role
    cases role <;> exact ⟨rfl, rfl⟩
  · intro id s hs
    cases hs
  · intro k conn hconn
    cases hconn
  · intro k k' conn conn' hconn
    cases hconn

theorem Balanced.stats_lt {l : Ledger} {out : List Event} (h : Balanced l out) {k : ConnKey}
    {conn : Connection} (hconn : l.table.map.lookup k = some conn) :
    conn.stats < l.table.metrics.nextConnId := by
  obtain ⟨_, ⟨s, hs⟩, _⟩ := h.entry k conn hconn
  exact (h.record _ s hs).1

/-- Admitting a segment opens at most an empty account. -/
theorem balanced_admitted {l : Ledger} {out : List Event} (h : Balanced l out) (key : ConnKey)
    (pgPort : UInt16) (seg : TcpSegment) :
    Balanced ⟨(l.table.admitSegment key pgPort seg).1, l.life⟩ (out ++ (l.table.admitSegment key pgPort seg).2) := by
  rcases admit_cases l.table key pgPort seg with ⟨_, _, _, hadm⟩ | ⟨_, hadm⟩
  · simpa only [hadm, List.append_nil] using h
  rw [hadm]
  have hnew := h.fresh _ (le_refl _)
  have harcs : ∀ id, id ≠ l.table.metrics.nextConnId →
      (l.table.openEntry key).metrics.arcs id = l.table.metrics.arcs id := fun id hid => if_neg hid
  refine ⟨?_, ?_, h.balance, ?_, ?_, ?_⟩
  · intro role
    have htotal := h.total role
    rw [messagesOf_append, wireOf_append]
    cases role <;> exact htotal
  · intro id s hs
    by_cases hid : id = l.table.metrics.nextConnId
    · subst hid
      refine ⟨Nat.lt_succ_self _, ?_⟩
      intro role
      rw [hnew]
      have hs' := (if_pos rfl : (l.table.openEntry key).metrics.arcs _ = _).symm.trans hs
      cases Option.some.inj hs'
      cases role <;> exact ⟨rfl, rfl⟩
    · obtain ⟨hlt, hrec⟩ := h.record id s (by rw [← harcs id hid]; exact hs)
      exact ⟨Nat.lt_succ_of_lt hlt, hrec⟩
  · intro k conn hconn
    rcases openEntry_cases hconn with ⟨rfl, rfl⟩ | ⟨_, hold⟩
    · refine ⟨sided_new _ _, ⟨_, if_pos rfl⟩, ?_⟩
      intro role
      show (l.life l.table.metrics.nextConnId).rxbuf role = _
      rw [hnew]
      cases role <;> rfl
    · obtain ⟨hsided, ⟨s, hs⟩, hrx⟩ := h.entry k conn hold
      exact ⟨hsided, ⟨s, by rw [harcs _ (h.stats_lt hold).ne]; exact hs⟩, hrx⟩
  · exact openEntry_distinct h.distinct h.stats_lt key
  · intro id hid
    exact h.fresh id (Nat.le_of_succ_le hid)

/-- The settled table has the old entries, but for the one that handled the segment. -/
theorem settled_lookup {t t' : ConnTable} {key : ConnKey} {conn : Connection} {metrics : Metrics}
    {seg : TcpSegment} {closing : List Event} (h : Settled t key conn metrics seg t' closing)
    {k : ConnKey} {c : Connection} (hc : t'.map.lookup k = some c) :
    (k = key ∧ c.stats = conn.stats ∧ c.encrypted = conn.encrypted ∧ ∀ role, c.dir role = conn.dir role) ∨
      (k ≠ key ∧ t.map.lookup k = some c) := by
  by_cases hk : k = key
  · subst hk
    cases h with
    | reset rst => simp at hc
    | closed rst fin live =>
      rw [AList.lookup_insert] at hc
      cases hc
      exact .inl ⟨rfl, rfl, rfl, fun role => by cases role <;> rfl⟩
    | kept rst fin =>
      rw [AList.lookup_insert] at hc
      cases hc
      exact .inl ⟨rfl, rfl, rfl, fun _ => rfl⟩
  · refine .inr ⟨hk, ?_⟩
    cases h with
    | reset rst => rwa [AList.lookup_erase_ne hk] at hc
    | closed rst fin live => rwa [AList.lookup_insert_ne hk] at hc
    | kept rst fin => rwa [AList.lookup_insert_ne hk] at hc

/-- The settled entry keeps its handle. -/
theorem settled_distinct {t t' : ConnTable} (hdistinct : DistinctHandles t) {key : ConnKey}
    {conn conn' : Connection} {metrics : Metrics} {seg : TcpSegment} {closing : List Event}
    (hconn : t.map.lookup key = some conn) (hstats : conn'.stats = conn.stats)
    (h : Settled t key conn' metrics seg t' closing) : DistinctHandles t' := by
  intro k k' c c' hc hc' heq
  rcases settled_lookup h hc with ⟨rfl, hsame, _⟩ | ⟨hk, hold⟩ <;>
    rcases settled_lookup h hc' with ⟨rfl, hsame', _⟩ | ⟨hk', hold'⟩
  · rfl
  · exact hdistinct _ _ conn c' hconn hold' (by rw [← heq, hsame, hstats])
  · exact hdistinct _ _ c conn hold hconn (by rw [heq, hsame', hstats])
  · exact hdistinct _ _ c c' hold hold' heq

/-- The announcements that a connection is new or over: the books do not count them. -/
def Uncounted (es : List Event) : Prop :=
  ∀ role, messagesOf role es = 0 ∧ wireOf role es = 0 ∧ lostOf role es = 0

/-- A lifetime that goes on counts what has been decoded, and not what was announced. -/
theorem extend_counts (life : Lifetime) (conn : Connection) {opened closing : List Event}
    (hopened : Uncounted opened) (hclosing : Uncounted closing) (events : List Event) (added : Role → ℕ)
    (role : Role) :
    let after := (life.extend conn (opened ++ events ++ closing) added).events
    messagesOf role after = messagesOf role life.events + messagesOf role events ∧
      wireOf role after = wireOf role life.events + wireOf role events ∧
      lostOf role after = lostOf role life.events + lostOf role events := by
  simp only [Lifetime.extend, messagesOf_append, wireOf_append, lostOf_append, hopened role, hclosing role,
    Nat.zero_add, Nat.add_zero, and_self]

/-- Settling counts nothing, and announces nothing that is counted. -/
theorem settled_counted {t t' : ConnTable} {key : ConnKey} {conn : Connection} {metrics : Metrics}
    {seg : TcpSegment} {closing : List Event} (h : Settled t key conn metrics seg t' closing) :
    Counted conn.stats (fun _ => 0) (fun _ => 0) metrics t'.metrics ∧ Uncounted closing := by
  cases h with
  | reset rst => exact ⟨closeConnection_counted metrics conn.stats, fun _ => ⟨rfl, rfl, rfl⟩⟩
  | closed rst fin live => exact ⟨closeConnection_counted metrics conn.stats, fun _ => ⟨rfl, rfl, rfl⟩⟩
  | kept rst fin => exact ⟨Counted.refl conn.stats metrics, fun _ => ⟨rfl, rfl, rfl⟩⟩

/-- The connection handles the segment, and its entry is settled: the books still balance.  `opened`
was announced before, and is entered only now. -/
theorem balanced_settle {pg : Decoder} (hpg : pg.Consumes) {pgPort : UInt16} {t t' : ConnTable}
    {life : ConnId → Lifetime} {out opened closing : List Event} (h : Balanced ⟨t, life⟩ out)
    {key : ConnKey} {seg : TcpSegment} {conn : Connection} (hconn : t.map.lookup key = some conn)
    (hopened : Uncounted opened)
    (hsettled : Settled t key (conn.handle pg pgPort t.metrics seg).1
      (conn.handle pg pgPort t.metrics seg).2.1 seg t' closing) :
    Balanced
      ⟨t', Function.update life conn.stats ((life conn.stats).extend
        (conn.handle pg pgPort t.metrics seg).1
        (opened ++ (conn.handle pg pgPort t.metrics seg).2.2 ++ closing) (conn.appended pgPort seg))⟩
      (out ++ ((conn.handle pg pgPort t.metrics seg).2.2 ++ closing)) := by
  obtain ⟨hsided, ⟨s₀, hs₀⟩, hrx⟩ := h.entry key conn hconn
  have hspec := handle_spec hpg pgPort hsided t.metrics seg
  obtain ⟨hclose, hclosing⟩ := settled_counted hsettled
  rw [hspec.stats] at hclose
  have hcounted := hspec.counted.trans hclose
  simp only [Nat.add_zero] at hcounted
  have hlookup := @settled_lookup t t' key _ _ seg closing hsettled
  generalize conn.handle pg pgPort t.metrics seg = handled at *
  obtain ⟨conn', m, events⟩ := handled
  dsimp only at *
  have hstats := hspec.stats
  have hlt : conn.stats < t.metrics.nextConnId := h.stats_lt hconn
  have hnext := hcounted.nextConnId
  have hextend := fun lifetime => extend_counts lifetime conn' hopened hclosing events (conn.appended pgPort seg)
  refine ⟨?_, ?_, ?_, ?_, ?_, ?_⟩
  · intro role
    have htotal := h.total role
    dsimp only at htotal
    simp only [messagesOf_append, wireOf_append, (hclosing role).1, (hclosing role).2.1,
      hcounted.totalMsgs, hcounted.totalBytes, side_trafficDirection, Nat.add_zero]
    omega
  · intro id s hs
    show id < t'.metrics.nextConnId ∧ _
    rw [hnext]
    by_cases hid : id = conn.stats
    · subst hid
      obtain ⟨s', hs', hgain⟩ := hcounted.own s₀ hs₀
      obtain rfl : s' = s := Option.some.inj (hs'.symm.trans hs)
      obtain ⟨hlt', hrec⟩ := h.record _ s₀ hs₀
      refine ⟨hlt', ?_⟩
      intro role
      obtain ⟨hmsgs, hbytes⟩ := hrec role
      obtain ⟨hmsgs', hbytes'⟩ := hgain (trafficDirection role)
      obtain ⟨hevents, hwire, _⟩ := hextend (life conn.stats) role
      simp only [Function.update_self]
      rw [hmsgs', hbytes', hevents, hwire, hmsgs, hbytes, side_trafficDirection]
      exact ⟨rfl, rfl⟩
    · simp only [Function.update_of_ne hid]
      exact h.record id s ((hcounted.other id hid).symm.trans hs)
  · intro id role
    by_cases hid : id = conn.stats
    · subst hid
      have hbalance := h.balance conn.stats role
      have hgain := hspec.balance role
      obtain ⟨_, hwire, hlost⟩ := hextend (life conn.stats) role
      rw [hrx role] at hbalance
      simp only [Function.update_self]
      rw [hwire, hlost]
      simp only [Lifetime.extend] at hbalance ⊢
      omega
    · simp only [Function.update_of_ne hid]
      exact h.balance id role
  · intro k c hc
    rcases hlookup hc with ⟨rfl, hsame, _, hdirs⟩ | ⟨hk, hold⟩
    · rw [hsame, hstats]
      obtain ⟨s', hs', _⟩ := hcounted.own s₀ hs₀
      refine ⟨?_, ⟨s', hs'⟩, ?_⟩
      · intro role
        rw [hdirs]
        exact hspec.sided role
      · intro role
        simp only [Function.update_self, Lifetime.extend, hdirs]
    · obtain ⟨hcsided, ⟨s, hs⟩, hcrx⟩ := h.entry k c hold
      have hne : c.stats ≠ conn.stats := fun heq => hk (h.distinct k key c conn hold hconn heq)
      refine ⟨hcsided, ⟨s, (hcounted.other _ hne).trans hs⟩, ?_⟩
      intro role
      simp only [Function.update_of_ne hne]
      exact hcrx role
  · exact settled_distinct h.distinct hconn hstats hsettled
  · intro id hid
    replace hid : t.metrics.nextConnId ≤ id := hnext ▸ hid
    have hne : id ≠ conn.stats := (Nat.lt_of_lt_of_le hlt hid).ne'
    simp only [Function.update_of_ne hne]
    exact h.fresh id hid

/-- **The ledger step**: the connection that handles the segment, the settled table, and the one
lifetime that grows. -/
theorem ledgerStep_cases (pg : Decoder) {pgPort : UInt16} (l : Ledger) {seg : TcpSegment} {key : ConnKey}
    (hkey : connKey seg pgPort = some key) {conn : Connection}
    (hconn : (l.table.admitSegment key pgPort seg).1.map.lookup key = some conn) :
    let admitted := l.table.admitSegment key pgPort seg
    let handled := conn.handle pg pgPort admitted.1.metrics seg
    ∃ table closing,
      Settled admitted.1 key handled.1 handled.2.1 seg table closing ∧
      ledgerStep pg pgPort l seg =
        (⟨table, Function.update l.life conn.stats ((l.life conn.stats).extend handled.1
          (admitted.2 ++ handled.2.2 ++ closing) (conn.appended pgPort seg))⟩,
        admitted.2 ++ handled.2.2 ++ closing) := by
  intro admitted handled
  obtain ⟨closing, hevents, hsettled⟩ := table_handle_cases pg l.table hkey hconn
  refine ⟨_, closing, hsettled, ?_⟩
  simp only [ledgerStep, hkey, Ledger.enter, hconn, hevents]
  rfl

/-- The announcement of a new connection counts nothing. -/
theorem admit_uncounted (t : ConnTable) (key : ConnKey) (pgPort : UInt16) (seg : TcpSegment) :
    Uncounted (t.admitSegment key pgPort seg).2 := by
  intro role
  rcases admit_cases t key pgPort seg with ⟨_, _, _, hadm⟩ | ⟨_, hadm⟩ <;>
    rw [hadm] <;> exact ⟨rfl, rfl, rfl⟩

/-- **The step lemma.**  One segment keeps the books balanced. -/
theorem ledgerStep_balanced {pg : Decoder} (hpg : pg.Consumes) (pgPort : UInt16) {l : Ledger}
    {out : List Event} (h : Balanced l out) (seg : TcpSegment) :
    Balanced (ledgerStep pg pgPort l seg).1 (out ++ (ledgerStep pg pgPort l seg).2) := by
  cases hkey : connKey seg pgPort with
  | none => simpa [ledgerStep, hkey, table_handle_none pg l.table hkey] using h
  | some key =>
    obtain ⟨conn, hconn⟩ := admit_lookup l.table key pgPort seg
    obtain ⟨table, closing, hsettled, hstep⟩ := ledgerStep_cases pg l hkey hconn
    have hbal := balanced_settle hpg (balanced_admitted h key pgPort seg) hconn
      (admit_uncounted l.table key pgPort seg) hsettled
    rw [hstep]
    simpa only [List.append_assoc] using hbal

theorem ledger_balanced {pg : Decoder} (hpg : pg.Consumes) (pgPort : UInt16) (connectionCap : ℕ)
    (segs : List TcpSegment) :
    Balanced (run (ledgerStep pg pgPort) (Ledger.start connectionCap) segs).1
      (run (ledgerStep pg pgPort) (Ledger.start connectionCap) segs).2 :=
  run_invariant (ledgerStep pg pgPort) (fun _ l out => Balanced l out) (balanced_start connectionCap)
    (fun _ _ _ seg h => ledgerStep_balanced hpg pgPort h seg) segs

/-! ### The books of a run -/

/-- **Counters equal what was decoded.**  After any run of the table over any segments: the totals and
each connection's record count the message records and their wire bytes, and what was ever appended to
a buffer of a connection is counted, still buffered, or was thrown away by its decode errors.  Every
drain ends, and every message but the peek is one record. -/
theorem counters_equal_records (pg : Decoder) (hpg : pg.Consumes) (pgPort : UInt16)
    (connectionCap : ℕ) (segs : List TcpSegment) :
    let l := (run (ledgerStep pg pgPort) (Ledger.start connectionCap) segs).1
    let table := run (ConnTable.handle pg pgPort) (ConnTable.withMetrics (Metrics.withLimits connectionCap))
      segs
    l.table = table.1 ∧
      (∀ role, table.1.metrics.msgs (trafficDirection role) = messagesOf role table.2 ∧
        table.1.metrics.bytes (trafficDirection role) = wireOf role table.2) ∧
      (∀ id s, table.1.metrics.arcs id = some s → ∀ role,
        s.msgs (trafficDirection role) = messagesOf role (l.life id).events ∧
        s.bytes (trafficDirection role) = wireOf role (l.life id).events ∧
        (l.life id).appended role = s.bytes (trafficDirection role) + ((l.life id).rxbuf role).length
          + lostOf role (l.life id).events) ∧
      (∀ k conn, table.1.map.lookup k = some conn → ∀ role,
        (l.life conn.stats).rxbuf role = (conn.dir role).rxbuf) ∧
      (∀ dir outcome, ∃ s, Ends (roleTurn pg dir.role) ⟨dir, outcome, []⟩ s) ∧
      ∀ dir outcome consumed,
        (∀ msg, CountsItsRecords dir outcome (handleFrontend dir msg outcome consumed)
          (if msg.isPeek then 0 else 1)) ∧
        ∀ msg, CountsItsRecords dir outcome (handleBackend pg dir msg outcome consumed) 1 := by
  intro l table
  have h := ledger_balanced hpg pgPort connectionCap segs
  obtain ⟨htable, hout⟩ := ledger_run_table pg pgPort (Ledger.start connectionCap) segs
  have htable' : l.table = table.1 := htable
  rw [hout] at h
  refine ⟨htable', ?_, ?_, ?_, ?_, handled_countsItsRecords pg⟩
  · intro role
    rw [← htable']
    exact h.total role
  · intro id s hs role
    rw [← htable'] at hs
    obtain ⟨hmsgs, hbytes⟩ := (h.record id s hs).2 role
    exact ⟨hmsgs, hbytes, by rw [hbytes]; exact h.balance id role⟩
  · intro k conn hconn
    rw [← htable'] at hconn
    exact (h.entry k conn hconn).2.2
  · intro dir outcome
    obtain ⟨s, hs⟩ := drain_ends hpg dir outcome
    exact ⟨s, _, hs⟩

/-- A client segment from port 40001 to the watched port 5432. -/
def clientSegment (seq : BitVec 32) (payload : Bytes) : TcpSegment :=
  { src := .v4 0x0a000001, dst := .v4 0x0a000002, srcPort := 40001, dstPort := 5432, seq, ack := 0
    syn := false, fin := false, rst := false, payload }

/-- A server segment of the same connection. -/
def serverSegment (seq : BitVec 32) (payload : Bytes) : TcpSegment :=
  { src := .v4 0x0a000002, dst := .v4 0x0a000001, srcPort := 5432, dstPort := 40001, seq, ack := 0
    syn := false, fin := false, rst := false, payload }

/-- A startup with the beginning of a `Sync`, and a server that says something undecodable. -/
def brokenSession : List TcpSegment :=
  [{ clientSegment 0 [] with syn := true },
    clientSegment 1 [0, 0, 0, 9, 0, 3, 0, 0, 0, 0x53, 0],
    serverSegment 7 [0x6e, 0, 0, 0, 4, 0x3f, 0, 0, 0, 4]]

/-- The server's ten bytes: five counted, none buffered, five lost to the decode error. -/
theorem counters_equal_records_broken :
    let r := run (ledgerStep framed 5432) (Ledger.start 10) brokenSession
    (r.1.life 1).appended .server = 5 + ((r.1.life 1).rxbuf .server).length
        + lostOf .server (r.1.life 1).events ∧
      lostOf .server (r.1.life 1).events = 5 ∧ (r.1.life 1).appended .server = 10 := by
  have h := counters_equal_records framed framed_consumes 5432 10 brokenSession
  refine ⟨?_, rfl, rfl⟩
  exact (h.2.2.1 1 _ rfl .server).2.2

end Tapgres.Flow
