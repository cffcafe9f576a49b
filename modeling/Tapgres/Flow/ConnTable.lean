import Tapgres.Flow.Connection
import Mathlib.Data.List.AList

/-!
# The table of connections seen on the wire

`ConnTable::handle` of `flow.rs`: classify the segment, open an entry where needed, hand the segment to
the entry, and close it on FIN or RST.  A FIN leaves the entry behind, an RST removes it.
-/

namespace Tapgres.Flow

open Tapgres.Net Tapgres.Pgwire Tapgres.Decode Tapgres.State

/-- A connection, normalised so both directions collapse to the same key. -/
structure ConnKey where
  client : Endpoint
  server : Endpoint
  deriving DecidableEq, Repr

structure ConnTable where
  map : AList fun _ : ConnKey => Connection
  metrics : Metrics

def ConnTable.withMetrics (metrics : Metrics) : ConnTable := ⟨∅, metrics⟩

/-- Classify by which endpoint owns the watched port; `none` when neither does. -/
def connKey (seg : TcpSegment) (pgPort : UInt16) : Option ConnKey :=
  if seg.dstPort = pgPort then some ⟨(seg.src, seg.srcPort), (seg.dst, seg.dstPort)⟩
  else if seg.srcPort = pgPort then some ⟨(seg.dst, seg.dstPort), (seg.src, seg.srcPort)⟩
  else none

def socketAddr (e : Endpoint) : SocketAddr := ⟨e.1, e.2⟩

/-- `should_open`: no entry, or a SYN on an entry whose metrics are closed. -/
def ConnTable.shouldOpen (t : ConnTable) (key : ConnKey) (seg : TcpSegment) : Bool :=
  match t.map.lookup key with
  | none => true
  | some conn => seg.syn && conn.metricsClosed

/-- Open a fresh entry for `key`. -/
def ConnTable.openEntry (t : ConnTable) (key : ConnKey) : ConnTable :=
  let (metrics, stats) :=
    t.metrics.openConnection (socketAddr key.client) (socketAddr key.server) false
  ⟨t.map.insert key (Connection.new stats (socketAddr key.client)), metrics⟩

/-- The first half of `handle`: the entry is there, opened afresh where needed. -/
def ConnTable.admitSegment (t : ConnTable) (key : ConnKey) (pgPort : UInt16) (seg : TcpSegment) :
    ConnTable × List Event :=
  if t.shouldOpen key seg then (t.openEntry key, [.opened key.client key.server pgPort]) else (t, [])

/-- Ingest one captured TCP segment. -/
def ConnTable.handle (pg : Decoder) (pgPort : UInt16) (t : ConnTable) (seg : TcpSegment) :
    ConnTable × List Event :=
  match connKey seg pgPort with
  | none => (t, [])
  | some key =>
    let (t, opened) := t.admitSegment key pgPort seg
    match t.map.lookup key with
    | none => (t, opened)
    | some conn =>
      let (conn, metrics, events) := conn.handle pg pgPort t.metrics seg
      if seg.rst then
        (⟨t.map.erase key, metrics.closeConnection conn.stats⟩, opened ++ events ++ [.reset])
      else if seg.fin && !conn.metricsClosed then
        (⟨t.map.insert key { conn with metricsClosed := true }, metrics.closeConnection conn.stats⟩,
          opened ++ events ++ [.closed])
      else (⟨t.map.insert key conn, metrics⟩, opened ++ events)

/-! ### What one segment does to the table -/

/-- The entry is there already, or it is opened afresh with the next handle. -/
theorem admit_cases (t : ConnTable) (key : ConnKey) (pgPort : UInt16) (seg : TcpSegment) :
    (∃ conn, t.map.lookup key = some conn ∧ ¬(seg.syn = true ∧ conn.metricsClosed = true) ∧
        t.admitSegment key pgPort seg = (t, [])) ∨
      (t.shouldOpen key seg = true ∧
        t.admitSegment key pgPort seg = (t.openEntry key, [.opened key.client key.server pgPort])) := by
  rw [ConnTable.admitSegment]
  cases hopen : t.shouldOpen key seg with
  | true => exact .inr ⟨rfl, rfl⟩
  | false =>
    rw [ConnTable.shouldOpen] at hopen
    cases hlook : t.map.lookup key with
    | none => simp [hlook] at hopen
    | some conn =>
      rw [hlook] at hopen
      exact .inl ⟨conn, rfl, by simpa using hopen, rfl⟩

theorem openEntry_lookup (t : ConnTable) (key : ConnKey) :
    (t.openEntry key).map.lookup key
      = some (Connection.new t.metrics.nextConnId (socketAddr key.client)) :=
  AList.lookup_insert _

theorem openEntry_lookup_ne (t : ConnTable) {key k : ConnKey} (h : k ≠ key) :
    (t.openEntry key).map.lookup k = t.map.lookup k :=
  AList.lookup_insert_ne h

/-- An entry of the table with the new entry is that one, or one of another key that was there before. -/
theorem openEntry_cases {t : ConnTable} {key k : ConnKey} {conn : Connection}
    (h : (t.openEntry key).map.lookup k = some conn) :
    (k = key ∧ conn = Connection.new t.metrics.nextConnId (socketAddr key.client)) ∨
      (k ≠ key ∧ t.map.lookup k = some conn) := by
  by_cases hk : k = key
  · rw [hk, openEntry_lookup] at h
    exact .inl ⟨hk, (Option.some.inj h).symm⟩
  · rw [openEntry_lookup_ne t hk] at h
    exact .inr ⟨hk, h⟩

/-- No two entries share a handle. -/
def DistinctHandles (t : ConnTable) : Prop :=
  ∀ k k' conn conn', t.map.lookup k = some conn → t.map.lookup k' = some conn' →
    conn.stats = conn'.stats → k = k'

/-- The new entry has a handle of its own. -/
theorem openEntry_distinct {t : ConnTable} (h : DistinctHandles t)
    (hlt : ∀ {k conn}, t.map.lookup k = some conn → conn.stats < t.metrics.nextConnId) (key : ConnKey) :
    DistinctHandles (t.openEntry key) := by
  intro k k' conn conn' hconn hconn' heq
  rcases openEntry_cases hconn with ⟨rfl, rfl⟩ | ⟨_, hold⟩ <;>
    rcases openEntry_cases hconn' with ⟨rfl, rfl⟩ | ⟨_, hold'⟩
  · rfl
  · exact absurd heq.symm (hlt hold').ne
  · exact absurd heq (hlt hold).ne
  · exact h k k' conn conn' hold hold' heq

theorem admit_lookup (t : ConnTable) (key : ConnKey) (pgPort : UInt16) (seg : TcpSegment) :
    ∃ conn, (t.admitSegment key pgPort seg).1.map.lookup key = some conn := by
  rcases admit_cases t key pgPort seg with ⟨conn, hconn, _, hadm⟩ | ⟨_, hadm⟩
  · exact ⟨conn, by rw [hadm, hconn]⟩
  · exact ⟨_, by rw [hadm, openEntry_lookup]⟩

/-- What becomes of the entry for `key` once its connection, now `conn`, has handled `seg`: the new
table and the line announcing the close, if any. -/
inductive Settled (t : ConnTable) (key : ConnKey) (conn : Connection) (metrics : Metrics)
    (seg : TcpSegment) : ConnTable → List Event → Prop
  | reset (rst : seg.rst = true) :
      Settled t key conn metrics seg ⟨t.map.erase key, metrics.closeConnection conn.stats⟩ [.reset]
  | closed (rst : seg.rst = false) (fin : seg.fin = true) (live : conn.metricsClosed = false) :
      Settled t key conn metrics seg
        ⟨t.map.insert key { conn with metricsClosed := true }, metrics.closeConnection conn.stats⟩
        [.closed]
  | kept (rst : seg.rst = false) (fin : seg.fin = true → conn.metricsClosed = true) :
      Settled t key conn metrics seg ⟨t.map.insert key conn, metrics⟩ []

/-- **The table step**: admit the segment, let its connection handle it, settle the entry. -/
theorem table_handle_cases (pg : Decoder) {pgPort : UInt16} (t : ConnTable) {seg : TcpSegment}
    {key : ConnKey} (hkey : connKey seg pgPort = some key) {conn : Connection}
    (hconn : (t.admitSegment key pgPort seg).1.map.lookup key = some conn) :
    ∃ closing,
      (t.handle pg pgPort seg).2 = (t.admitSegment key pgPort seg).2
        ++ (conn.handle pg pgPort (t.admitSegment key pgPort seg).1.metrics seg).2.2 ++ closing ∧
      Settled (t.admitSegment key pgPort seg).1 key
        (conn.handle pg pgPort (t.admitSegment key pgPort seg).1.metrics seg).1
        (conn.handle pg pgPort (t.admitSegment key pgPort seg).1.metrics seg).2.1 seg
        (t.handle pg pgPort seg).1 closing := by
  rw [ConnTable.handle]
  simp only [hkey, hconn]
  cases hrst : seg.rst with
  | true => exact ⟨[.reset], rfl, .reset hrst⟩
  | false =>
    simp only [Bool.false_eq_true, if_false]
    split
    · rename_i h
      obtain ⟨hfin, hlive⟩ := Bool.and_eq_true_iff.mp h
      exact ⟨[.closed], rfl, .closed hrst hfin (by simpa using hlive)⟩
    · rename_i h
      refine ⟨[], (List.append_nil _).symm, .kept hrst fun hfin => ?_⟩
      simpa [hfin] using h

theorem table_handle_none (pg : Decoder) {pgPort : UInt16} (t : ConnTable) {seg : TcpSegment}
    (hkey : connKey seg pgPort = none) : t.handle pg pgPort seg = (t, []) := by
  simp only [ConnTable.handle, hkey]

end Tapgres.Flow
