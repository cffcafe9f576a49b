import Tapgres.Flow.InOrder
import Tapgres.Flow.Separation
import Tapgres.Net.Recover
import Tapgres.Pgwire.Framed

/-!
# The passive capture

The loop of `capture.rs`: each packet that libpcap returns is parsed and handed to the connection table, until
the capture ends or fails.

* `capture_heard` — the loop is a run of the table over the segments received;
* `entry_run` — what the table does for one connection, from its first segment to its close, is what that
  connection alone does;
* `capture_reports` — so, from the frames on the wire to the records: whatever else is captured, a cleartext
  session is reported as one drain of its two streams reports it.
-/

namespace Tapgres.Capture

open Tapgres.Net Tapgres.Net.Wire Tapgres.Pgwire Tapgres.Decode Tapgres.Flow Tapgres.State
open Tapgres.Lib.Run Tapgres.Lib.Interleave

/-! ### The loop -/

/-- What `next_packet` returns. -/
inductive NextPacket where
  | packet (data : Bytes)
  | timeoutExpired
  | noMorePackets
  | failed (error : String)

/-- The loop of `run`: the table, and what it has returned, if it has. -/
structure Loop where
  table : ConnTable
  returned : Option (Except String Unit)

def Loop.start (metrics : Metrics) : Loop := ⟨.withMetrics metrics, none⟩

def captureStep (pg : Decoder) (port : UInt16) (dlt : ℤ) (s : Loop) (next : NextPacket) :
    Loop × List Event :=
  if s.returned.isSome then (s, [])
  else
    match next with
    | .packet data =>
      match parseFrame data dlt with
      | .ok seg =>
        let (table, events) := s.table.handle pg port seg
        ({ s with table }, events)
      | .error _ => (s, [])
    | .timeoutExpired => (s, [])
    | .noMorePackets => ({ s with returned := some (.ok ()) }, [])
    | .failed e => ({ s with returned := some (.error e) }, [])

/-- The segment in a packet. -/
def NextPacket.segment (dlt : ℤ) : NextPacket → Option TcpSegment
  | .packet data =>
    match parseFrame data dlt with
    | .ok seg => some seg
    | .error _ => none
  | _ => none

/-- It ends the capture. -/
def NextPacket.ends : NextPacket → Bool
  | .packet _ | .timeoutExpired => false
  | .noMorePackets | .failed _ => true

/-- The segments received before the end. -/
def received (dlt : ℤ) (nexts : List NextPacket) : List TcpSegment :=
  (nexts.takeWhile fun next => !next.ends).filterMap (NextPacket.segment dlt)

theorem received_cons (dlt : ℤ) {next : NextPacket} (h : next.ends = false) (nexts : List NextPacket) :
    received dlt (next :: nexts) = (next.segment dlt).toList ++ received dlt nexts := by
  have hgoes : (!next.ends) = true := by rw [h, Bool.not_false]
  rw [received, List.takeWhile_cons, if_pos hgoes, List.filterMap_cons, ← received]
  cases next.segment dlt <;> rfl

/-- The packet holds a segment that meets `mine`. -/
def NextPacket.holds (dlt : ℤ) (mine : TcpSegment → Bool) (next : NextPacket) : Bool :=
  (next.segment dlt).any mine

theorem heard_returned (pg : Decoder) (port : UInt16) (dlt : ℤ) (mine : NextPacket → Bool) (table : ConnTable)
    (result : Except String Unit) (nexts : List NextPacket) :
    run (heard (captureStep pg port dlt) mine) ⟨table, some result⟩ nexts = (⟨table, some result⟩, []) := by
  induction nexts with
  | nil => rfl
  | cons next nexts ih =>
    have hstep : heard (captureStep pg port dlt) mine ⟨table, some result⟩ next
        = (⟨table, some result⟩, []) := by
      rw [heard]
      show (_, if mine next then [] else []) = _
      rw [ite_self]
      rfl
    rw [run_cons, hstep, ih]
    rfl

/-- **The loop is a run of the table** over the segments received, and what is heard of it is heard there. -/
theorem capture_heard (pg : Decoder) (port : UInt16) (dlt : ℤ) (mine : TcpSegment → Bool) (table : ConnTable)
    (nexts : List NextPacket) :
    (run (heard (captureStep pg port dlt) (NextPacket.holds dlt mine)) ⟨table, none⟩ nexts).1.table
        = (run (heard (ConnTable.handle pg port) mine) table (received dlt nexts)).1 ∧
      (run (heard (captureStep pg port dlt) (NextPacket.holds dlt mine)) ⟨table, none⟩ nexts).2
        = (run (heard (ConnTable.handle pg port) mine) table (received dlt nexts)).2 := by
  induction nexts generalizing table with
  | nil => exact ⟨rfl, rfl⟩
  | cons next nexts ih =>
    cases next with
    | timeoutExpired => exact ih table
    | noMorePackets =>
      have hstep : heard (captureStep pg port dlt) (NextPacket.holds dlt mine) ⟨table, none⟩ .noMorePackets
          = (⟨table, some (.ok ())⟩, []) := rfl
      rw [run_cons, hstep, heard_returned]
      exact ⟨rfl, rfl⟩
    | failed e =>
      have hstep : heard (captureStep pg port dlt) (NextPacket.holds dlt mine) ⟨table, none⟩ (.failed e)
          = (⟨table, some (.error e)⟩, []) := rfl
      rw [run_cons, hstep, heard_returned]
      exact ⟨rfl, rfl⟩
    | packet data =>
      rw [received_cons dlt rfl, NextPacket.segment]
      cases hparse : parseFrame data dlt with
      | error halt =>
        have hstep : heard (captureStep pg port dlt) (NextPacket.holds dlt mine) ⟨table, none⟩ (.packet data)
            = (⟨table, none⟩, []) := by
          simp only [heard, captureStep, NextPacket.holds, NextPacket.segment, hparse]
          rfl
        rw [run_cons, hstep]
        exact ih table
      | ok seg =>
        have hstep : heard (captureStep pg port dlt) (NextPacket.holds dlt mine) ⟨table, none⟩ (.packet data)
            = (⟨(table.handle pg port seg).1, none⟩, (heard (ConnTable.handle pg port) mine table seg).2) := by
          simp only [heard, captureStep, NextPacket.holds, NextPacket.segment, hparse]
          rfl
        obtain ⟨htable, hevents⟩ := ih (table.handle pg port seg).1
        rw [Option.toList_some, List.singleton_append, run_cons, run_cons, hstep]
        exact ⟨htable, congrArg (fun es => (heard (ConnTable.handle pg port) mine table seg).2 ++ es) hevents⟩

/-! ### One connection of the table -/

/-- The connection under a handle, with the mark of its close. -/
def marked (conn : Connection) (closed : Bool) (stats : ConnId) : Connection :=
  { conn with metricsClosed := closed, stats }

/-- Neither the handle nor the mark matters to a segment. -/
theorem marked_handle (pg : Decoder) (port : UInt16) (conn : Connection) (closed : Bool) (stats : ConnId)
    (m m' : Metrics) (seg : TcpSegment) :
    ((marked conn closed stats).handle pg port m' seg).1 = marked (conn.handle pg port m seg).1 closed stats ∧
      ((marked conn closed stats).handle pg port m' seg).2.2 = (conn.handle pg port m seg).2.2 := by
  cases henc : conn.encrypted with
  | true =>
    rw [handle_encrypted pg port m seg henc, @handle_encrypted pg port (marked conn closed stats) m' seg henc]
    exact ⟨rfl, rfl⟩
  | false =>
    have hfed : (marked conn closed stats).fed port seg = conn.fed port seg := by
      unfold Connection.fed
      cases segmentRole seg port <;> rfl
    rw [handle_settle pg port m seg henc, @handle_settle pg port (marked conn closed stats) m' seg henc, hfed]
    generalize drainDirection pg (conn.fed port seg) {} = drained
    unfold Connection.settle
    cases segmentRole seg port <;> cases drained.outcome.encrypted <;> exact ⟨rfl, rfl⟩

/-- Where the entry of a connection stands when the connection alone, after the same segments, is `conn`. -/
inductive Stands (key : ConnKey) (past : List TcpSegment) (conn : Connection) (t : ConnTable) : Prop
  | fresh (start : past = []) (lookup : t.map.lookup key = none)
  | entry (closed : Bool) (stats : ConnId) (lookup : t.map.lookup key = some (marked conn closed stats))
      (closing : closed = true → ∃ s ∈ past, closes s = true)
  | gone (reset : ∃ s ∈ past, s.rst = true)

theorem recordsOf_admitted (t : ConnTable) (key : ConnKey) (port : UInt16) (seg : TcpSegment) (role : Role) :
    recordsOf role (t.admitSegment key port seg).2 = [] := by
  rcases admit_cases t key port seg with ⟨_, _, _, hadm⟩ | ⟨_, hadm⟩ <;> rw [hadm] <;> rfl

theorem recordsOf_closingLine (seg : TcpSegment) (closed : Bool) (role : Role) :
    recordsOf role (closingLine seg closed) = [] := by
  rw [closingLine]
  split
  · rfl
  · split <;> rfl

/-- **A segment of the connection** does to its entry what it does to the connection alone. -/
theorem stands_step (pg : Decoder) {port : UInt16} {key : ConnKey} {past : List TcpSegment}
    {conn : Connection} {t : ConnTable} (h : Stands key past conn t)
    (hstart : past = [] → conn = Connection.new conn.stats (socketAddr key.client))
    {seg : TcpSegment} (hkey : connKey seg port = some key) (hreset : ∀ s ∈ past, s.rst = false)
    (hsyn : (∃ s ∈ past, closes s = true) → seg.syn = false) (m : Metrics) :
    Stands key (past ++ [seg]) (conn.handle pg port m seg).1 (t.handle pg port seg).1 ∧
      ∀ role, recordsOf role (t.handle pg port seg).2 = recordsOf role (conn.handle pg port m seg).2.2 := by
  -- the entry that handles the segment
  have hentry : ∃ closed stats,
      (t.admitSegment key port seg).1.map.lookup key = some (marked conn closed stats) ∧
        (closed = true → ∃ s ∈ past, closes s = true) := by
    cases h with
    | fresh hnil hlookup =>
      rcases admit_cases t key port seg with ⟨_, hc, _⟩ | ⟨_, hadm⟩
      · rw [hlookup] at hc
        cases hc
      · refine ⟨false, t.metrics.nextConnId, ?_, fun hfalse => by cases hfalse⟩
        rw [hadm, openEntry_lookup, hstart hnil]
        rfl
    | entry closed stats hlookup hclosing =>
      refine ⟨closed, stats, ?_, hclosing⟩
      rcases admit_cases t key port seg with ⟨_, _, _, hadm⟩ | ⟨hopen, _⟩
      · rw [hadm, hlookup]
      · rw [ConnTable.shouldOpen, hlookup] at hopen
        obtain ⟨hseg, hclosed⟩ := Bool.and_eq_true_iff.mp hopen
        rw [hsyn (hclosing hclosed)] at hseg
        cases hseg
    | gone hgone =>
      obtain ⟨s, hs, hrst⟩ := hgone
      rw [hreset s hs] at hrst
      cases hrst
  obtain ⟨closed, stats, hlookup, hclosing⟩ := hentry
  obtain ⟨hlookup', hevents, _⟩ := table_handle_own pg t hkey hlookup
  obtain ⟨hhandled, hsaid⟩ := marked_handle pg port conn closed stats m
    (t.admitSegment key port seg).1.metrics seg
  refine ⟨?_, fun role => ?_⟩
  · rw [hhandled, Connection.settled] at hlookup'
    cases hrst : seg.rst with
    | true => exact .gone ⟨seg, by simp, hrst⟩
    | false =>
      rw [hrst] at hlookup'
      refine .entry (closed || seg.fin) stats hlookup' fun hclosed => ?_
      rcases Bool.or_eq_true_iff.mp hclosed with hbefore | hfin
      · obtain ⟨s, hs, hcloses⟩ := hclosing hbefore
        exact ⟨s, List.mem_append_left _ hs, hcloses⟩
      · exact ⟨seg, by simp, by rw [closes, hfin]; rfl⟩
  · rw [hevents, hsaid, recordsOf_append, recordsOf_append, recordsOf_admitted, recordsOf_closingLine,
      List.append_nil, List.nil_append]

theorem stands_run (pg : Decoder) {port : UInt16} {key : ConnKey} (cap : ℕ) (stats : ConnId) (m₀ : Metrics)
    (segs : List TcpSegment) (horderly : Orderly port key segs) :
    Stands key segs (run (connStep pg port) (Connection.new stats (socketAddr key.client), m₀) segs).1.1
        (tableRun pg port cap segs) ∧
      ∀ role, recordsOf role
          (run (ConnTable.handle pg port) (ConnTable.withMetrics (Metrics.withLimits cap)) segs).2
        = recordsOf role
          (run (connStep pg port) (Connection.new stats (socketAddr key.client), m₀) segs).2 := by
  induction segs using List.reverseRecOn with
  | nil => exact ⟨.fresh rfl rfl, fun _ => rfl⟩
  | append_singleton past seg ih =>
    obtain ⟨hstands, hrecords⟩ := ih horderly.prefix_of
    obtain ⟨hkey, hreset, hsyn⟩ := horderly.last
    obtain ⟨hstands', hrecords'⟩ := stands_step pg hstands (fun hnil => by rw [hnil]; rfl) hkey hreset hsyn
      (run (connStep pg port) (Connection.new stats (socketAddr key.client), m₀) past).1.2
    rw [tableRun, run_append, run_append, run_singleton, run_singleton]
    refine ⟨hstands', fun role => ?_⟩
    rw [recordsOf_append, recordsOf_append, hrecords role]
    exact congrArg _ (hrecords' role)

/-- **What the table reports of one connection**, from its first segment to its close, is what the connection
alone reports. -/
theorem entry_run (pg : Decoder) {port : UInt16} {key : ConnKey} (cap : ℕ) {segs : List TcpSegment}
    (horderly : Orderly port key segs) (stats : ConnId) (m₀ : Metrics) (role : Role) :
    recordsOf role (run (ConnTable.handle pg port) (ConnTable.withMetrics (Metrics.withLimits cap)) segs).2
      = recordsOf role
        (run (connStep pg port) (Connection.new stats (socketAddr key.client), m₀) segs).2 :=
  (stands_run pg cap stats m₀ segs horderly).2 role

/-! ### From the wire -/

/-- Something that the capture sees: a frame with a TCP segment, or anything else. -/
inductive Sighting where
  | frame (f : Frame)
  | other (next : NextPacket)

def Sighting.next : Sighting → NextPacket
  | .frame f => .packet f.encode
  | .other next => next

/-- The frame is one of this datalink type behind whose header packets are found; anything else is not of
the connection, and does not end the capture. -/
def Sighting.Plain (dlt : ℤ) (key : ConnKey) : Sighting → Prop
  | .frame f => f.link.dlt = dlt ∧ f.link.Passes
  | .other next => next.ends = false ∧ ∀ seg, next.segment dlt = some seg → ofConnection key seg = false

/-- The segment that a frame holds. -/
def Sighting.segment : Sighting → Option TcpSegment
  | .frame f => some f.packet.segment
  | .other _ => none

/-- The segments of the connection. -/
def ownSegments (key : ConnKey) (seen : List Sighting) : List TcpSegment :=
  (seen.filterMap Sighting.segment).filter (ofConnection key)

theorem parseFrame_encode {f : Frame} (h : f.link.Passes) :
    parseFrame f.encode f.link.dlt = .ok f.packet.segment := by
  rw [Frame.encode, parseFrame_of_payload (linkPayload_of_passes h f.packet.ethertype_ip _)]
  exact parseIp_encode f.packet f.padding

/-- What a plain sighting holds of the connection is received. -/
theorem plain_segment {dlt : ℤ} {key : ConnKey} {s : Sighting} (h : s.Plain dlt key) :
    s.next.ends = false ∧
      (s.next.segment dlt).toList.filter (ofConnection key) = s.segment.toList.filter (ofConnection key) := by
  cases s with
  | frame f =>
    obtain ⟨hdlt, hpasses⟩ := h
    have hseg : (Sighting.frame f).next.segment dlt = some f.packet.segment := by
      rw [Sighting.next, NextPacket.segment, ← hdlt, parseFrame_encode hpasses]
    exact ⟨rfl, by rw [hseg]; rfl⟩
  | other next =>
    obtain ⟨hends, hother⟩ := h
    refine ⟨hends, ?_⟩
    show (next.segment dlt).toList.filter (ofConnection key) = []
    cases hseg : next.segment dlt with
    | none => rfl
    | some seg => exact List.filter_cons_of_neg (by rw [hother seg hseg]; decide)

/-- What is received of the connection is what the frames hold of it. -/
theorem received_own {dlt : ℤ} {key : ConnKey} {seen : List Sighting} (h : ∀ s ∈ seen, s.Plain dlt key) :
    (received dlt (seen.map Sighting.next)).filter (ofConnection key) = ownSegments key seen := by
  induction seen with
  | nil => rfl
  | cons s seen ih =>
    obtain ⟨hends, hsegment⟩ := plain_segment (h s List.mem_cons_self)
    have hcons : (s :: seen).filterMap Sighting.segment
        = s.segment.toList ++ seen.filterMap Sighting.segment := by
      rw [List.filterMap_cons]
      cases s.segment <;> rfl
    rw [List.map_cons, received_cons dlt hends, List.filter_append, hsegment,
      ih fun s' hs' => h s' (List.mem_cons_of_mem _ hs'), ownSegments, ownSegments, hcons, List.filter_append]

/-- A connection whose segments cut cleartext streams in order reports them. -/
theorem conn_reports {pg : Decoder} (hpg : pg.Lawful) {port : UInt16} {segs : List TcpSegment}
    {streams : Role → Bytes} (hstreams : ∀ role, IsStream pg role (streams role))
    (hcut : ∀ role, InOrder none (segmentsOf port role segs) (streams role)) (stats : ConnId)
    (client : SocketAddr) (m₀ : Metrics) (role : Role) :
    recordsOf role (run (connStep pg port) (Connection.new stats client, m₀) segs).2
      = (streamReport pg role (streams role)).records := by
  have hdir := new_dir stats client
  have hrun := inOrder_run hpg.consumes port segs (Connection.new stats client) m₀
    (fun role => by rw [hdir]; rfl) streams fun role => by rw [hdir]; exact hcut role
  obtain ⟨conn', m', events, hrun', htracks, _, _, _⟩ := arrivals_track hpg.consumes (fun _ => rfl)
    (fun role => (stream_smooth hpg rfl (new_starts role client) (hstreams role)).1)
    (arrivalsOf port segs) (Connection.new stats client) m₀ m₀ [] (fun _ => [])
    (tracks_new hpg.toStepwise stats client) rfl (Counted.refl stats m₀) fun role => (hcut role).bytesOf.symm
  rw [show (Connection.new stats client).forget = Connection.new stats client from rfl, hrun'] at hrun
  obtain rfl := (Prod.mk.inj hrun).2
  have hreport := htracks.reported hpg (fun _ => rfl) (fun role => new_starts role client) hstreams
  rw [← hreport, List.nil_append]

/-- **From the wire to the records.**  A capture sees, in any order, frames of any connections, and anything
else.  Let a connection to the watched port be captured from its start to its close, each side's segments
cutting the stream of a cleartext session in order.  What the capture reports at the packets of the
connection is, for each side, what one drain of its stream reports. -/
theorem capture_reports (pg : Decoder) (hpg : pg.Lawful) (port : UInt16) (cap : ℕ) (dlt : ℤ) (key : ConnKey)
    (hkey : Watched port key) (seen : List Sighting) (hseen : ∀ s ∈ seen, s.Plain dlt key)
    (horderly : Orderly port key (ownSegments key seen)) (streams : Role → Bytes)
    (hstreams : ∀ role, IsStream pg role (streams role))
    (hcut : ∀ role, InOrder none (segmentsOf port role (ownSegments key seen)) (streams role)) (role : Role) :
    recordsOf role (run (heard (captureStep pg port dlt) (NextPacket.holds dlt (ofConnection key)))
        (Loop.start (Metrics.withLimits cap)) (seen.map Sighting.next)).2
      = (streamReport pg role (streams role)).records := by
  have hlone := (alike_run (connTable_separable pg port) (alike_start key cap)
    (received dlt (seen.map Sighting.next))).2
  rw [← hkey.ofConnection_eq, received_own hseen] at hlone
  rw [Loop.start, (capture_heard pg port dlt (ofConnection key) _ _).2, hlone,
    entry_run pg cap horderly 0 (Metrics.withLimits cap) role]
  exact conn_reports hpg hstreams hcut 0 (socketAddr key.client) (Metrics.withLimits cap) role

/-! ### A capture -/

theorem rawLink : (101 : ℤ) = 12 ∨ (101 : ℤ) = 101 ∨ (101 : ℤ) = 228 ∨ (101 : ℤ) = 229 := .inr (.inl rfl)

theorem noOptions_words : ([] : Bytes).length % 4 = 0 := rfl

theorem noOptions_fits : ([] : Bytes).length ≤ 40 := Nat.zero_le 40

theorem reserved_pos : 0 < 16 := Nat.zero_lt_succ 15

theorem others_pos : 0 < 32 := Nat.zero_lt_succ 31

theorem rawFits (tcp : TcpPacket) (hopt : tcp.options.bytes = []) (h : tcp.payload.length ≤ 100) :
    20 + ([] : Bytes).length + tcp.encode.length < 2 ^ 16 := by
  have hlen := TcpPacket.length_encode tcp
  rw [hopt, List.length_nil] at hlen
  rw [hlen, List.length_nil]
  omega

/-- A raw IPv4 frame of the connection from port 40001. -/
def rawFrame (fromClient syn fin : Bool) (seq : BitVec 32) (payload : Bytes) (h : payload.length ≤ 100) :
    Sighting :=
  .frame
    { link := .raw 101 rawLink, padding := []
      packet := .v4 {
        tos := 0, identification := 0, dontFragment := false, ttl := 64, checksum := 0
        src := if fromClient then 0x0a000001 else 0x0a000002
        dst := if fromClient then 0x0a000002 else 0x0a000001
        options := ⟨[], noOptions_words, noOptions_fits⟩
        tcp := {
          srcPort := if fromClient then 40001 else 5432
          dstPort := if fromClient then 5432 else 40001
          seq, ack := 0, reserved := ⟨0, reserved_pos⟩, others := ⟨0, others_pos⟩
          rst := false, syn, fin, window := 0, checksum := 0, urgent := 0
          options := ⟨[], noOptions_words, noOptions_fits⟩, payload }
        fits := rawFits _ rfl h } }

def rawKey : ConnKey := ⟨(.v4 0x0a000001, 40001), (.v4 0x0a000002, 5432)⟩

/-- A startup and a sync in two pieces, and the server's answer, between an unreadable packet and a
timeout. -/
def rawCapture : List Sighting :=
  [rawFrame true true false 0 [] (by decide), .other (.packet [0x12]),
    rawFrame true false false 1 [0, 0, 0, 9, 0, 3, 0, 0, 0, 0x53] (by decide), .other .timeoutExpired,
    rawFrame false false false 7 [0x5a, 0, 0, 0, 5, 0x49] (by decide),
    rawFrame true false false 11 [0, 0, 0, 4] (by decide), rawFrame true false true 15 [] (by decide)]

def rawStreams : Role → Bytes
  | .client => [0, 0, 0, 9, 0, 3, 0, 0, 0] ++ ([0x53, 0, 0, 0, 4] ++ [])
  | .server => [0x5a, 0, 0, 0, 5, 0x49] ++ []

theorem rawStreams_streams (role : Role) : IsStream framed role (rawStreams role) := by
  cases role with
  | client =>
    refine ⟨[0, 0, 0, 9, 0, 3, 0, 0, 0], _, ⟨⟨⟨3, 0, []⟩, by decide⟩, by decide, by decide, by decide⟩, ?_, rfl⟩
    exact .message [0x53, 0, 0, 0, 4] [] ⟨.sync, by decide⟩ .nil
  | server => exact .message [0x5a, 0, 0, 0, 5, 0x49] [] ⟨.readyForQuery .idle, by decide⟩ .nil

theorem rawCapture_plain : ∀ s ∈ rawCapture, s.Plain 101 rawKey := by
  intro s hs
  simp only [rawCapture, List.mem_cons, List.not_mem_nil, or_false] at hs
  rcases hs with rfl | rfl | rfl | rfl | rfl | rfl | rfl
  · exact ⟨rfl, trivial⟩
  · exact ⟨rfl, fun seg hseg => by cases hseg⟩
  · exact ⟨rfl, trivial⟩
  · exact ⟨rfl, fun seg hseg => by cases hseg⟩
  · exact ⟨rfl, trivial⟩
  · exact ⟨rfl, trivial⟩
  · exact ⟨rfl, trivial⟩

theorem rawCapture_orderly : Orderly 5432 rawKey (ownSegments rawKey rawCapture) :=
  ⟨by decide, by decide, by rw [NoSynAfterClose]; decide⟩

theorem rawCapture_inOrder (role : Role) :
    InOrder none (segmentsOf 5432 role (ownSegments rawKey rawCapture)) (rawStreams role) := by
  cases role with
  | client =>
    show InOrder none _ ([0, 0, 0, 9, 0, 3, 0, 0, 0, 0x53] ++ ([0, 0, 0, 4] ++ []))
    exact .syn rfl rfl (.inl rfl) (.data rfl (by decide) (.inr rfl)
      (.data rfl (by decide) (.inr rfl) (.empty rfl rfl (.nil _))))
  | server =>
    show InOrder none _ ([0x5a, 0, 0, 0, 5, 0x49] ++ [])
    exact .data rfl (by decide) (.inl rfl) (.nil _)

theorem capture_reports_raw :
    recordsOf .client (run (heard (captureStep framed 5432 101) (NextPacket.holds 101 (ofConnection rawKey)))
        (Loop.start (Metrics.withLimits 10)) (rawCapture.map Sighting.next)).2
      = (streamReport framed .client (rawStreams .client)).records :=
  capture_reports framed framed_lawful 5432 10 101 rawKey (by decide) rawCapture rawCapture_plain
    rawCapture_orderly rawStreams rawStreams_streams rawCapture_inOrder .client

end Tapgres.Capture
