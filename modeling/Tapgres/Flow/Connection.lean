import Tapgres.Decode.Drain
import Tapgres.State.Metrics

/-!
# A single PostgreSQL connection

`Connection` and `Connection::handle` of `flow.rs`: a segment is fed to its direction, that direction
is drained, the server side is armed for a negotiation answer, and what was decoded is counted.
-/

namespace Tapgres.Flow

open Tapgres.Net Tapgres.Pgwire Tapgres.Decode Tapgres.State

/-- A connection: client and server directions, and the handle of its metrics record. -/
structure Connection where
  client : Direction
  server : Direction
  encrypted : Bool
  metricsClosed : Bool
  stats : ConnId

/-- `Connection::new`; `client` is the address kept in the record of `stats`. -/
def Connection.new (stats : ConnId) (client : SocketAddr) : Connection :=
  { client := Direction.new .client client, server := Direction.new .server client
    encrypted := false, metricsClosed := false, stats }

def Connection.dir (conn : Connection) : Role → Direction
  | .client => conn.client
  | .server => conn.server

/-- The side a segment travels from. -/
def segmentRole (seg : TcpSegment) (pgPort : UInt16) : Role :=
  if seg.dstPort = pgPort then .client else .server

/-- The counter a side's messages go to. -/
def trafficDirection : Role → TrafficDirection
  | .client => .in
  | .server => .out

/-- Arm the server direction for the one-byte answer the client asked for. -/
def armServer (wait : ServerNegotiationWait) (server : Direction) : Direction :=
  match wait with
  | .ssl => { server with ctx := { server.ctx with awaitingBackendSslResponse := true } }
  | .gss => { server with ctx := { server.ctx with awaitingBackendGssResponse := true } }
  | .none => server

def Connection.handle (pg : Decoder) (pgPort : UInt16) (conn : Connection) (metrics : Metrics)
    (seg : TcpSegment) : Connection × Metrics × List Event :=
  if conn.encrypted then (conn, metrics, [])
  else
    let role := segmentRole seg pgPort
    let fed := (conn.dir role).feed seg.seq seg.syn seg.payload
    let drained := drainDirection pg fed {}
    let outcome := drained.outcome
    let conn :=
      match role with
      | .client =>
        { conn with client := drained.dir
                    server := armServer outcome.serverNegotiationWait conn.server }
      | .server => { conn with server := drained.dir }
    let conn := if outcome.encrypted then { conn with encrypted := true } else conn
    let metrics := if outcome.encrypted then metrics.setEncrypted conn.stats true else metrics
    -- decoded pgwire messages are counted, not TCP segments
    let metrics :=
      if outcome.msgs > 0 then
        metrics.recordMessages conn.stats (trafficDirection role) outcome.msgs outcome.bytes
      else metrics
    (conn, metrics, drained.events)

/-! ### What one segment does -/

/-- The direction a segment travels in, with the segment fed to it. -/
def Connection.fed (conn : Connection) (pgPort : UInt16) (seg : TcpSegment) : Direction :=
  (conn.dir (segmentRole seg pgPort)).feed seg.seq seg.syn seg.payload

/-- How many bytes a segment appends to a side's `rxbuf`. -/
def Connection.appended (conn : Connection) (pgPort : UInt16) (seg : TcpSegment) (role : Role) : ℕ :=
  if conn.encrypted then 0
  else if role = segmentRole seg pgPort then
    (conn.fed pgPort seg).rxbuf.length - (conn.dir role).rxbuf.length
  else 0

/-- The side counted under a traffic direction. -/
def side : TrafficDirection → Role
  | .in => .client
  | .out => .server

@[simp] theorem side_trafficDirection (role : Role) : side (trafficDirection role) = role := by
  cases role <;> rfl

@[simp] theorem trafficDirection_side (d : TrafficDirection) : trafficDirection (side d) = d := by
  cases d <;> rfl

/-- Each direction of the connection belongs to its own side. -/
def Connection.Sided (conn : Connection) : Prop := ∀ role, (conn.dir role).role = role

theorem sided_new (stats : ConnId) (client : SocketAddr) : (Connection.new stats client).Sided := by
  intro role
  cases role <;> rfl

/-- What handling a segment does: the counters grow by the messages emitted, and the bytes appended to
either buffer are still there, counted, or lost to a decode error. -/
structure HandleSpec (conn conn' : Connection) (m m' : Metrics) (events : List Event)
    (added : Role → ℕ) : Prop where
  stats : conn'.stats = conn.stats
  metricsClosed : conn'.metricsClosed = conn.metricsClosed
  sided : conn'.Sided
  counted : Counted conn.stats (fun d => messagesOf (side d) events) (fun d => wireOf (side d) events) m m'
  balance : ∀ role, (conn.dir role).rxbuf.length + added role
    = (conn'.dir role).rxbuf.length + wireOf role events + lostOf role events

/-- The fed direction keeps its side. -/
theorem fed_role {conn : Connection} (hsided : conn.Sided) (pgPort : UInt16) (seg : TcpSegment) :
    (conn.fed pgPort seg).role = segmentRole seg pgPort := by
  obtain ⟨nextSeq, ooo, added, hfed⟩ :=
    feed_frame (conn.dir (segmentRole seg pgPort)) seg.seq seg.syn seg.payload
  rw [Connection.fed, hfed]
  exact hsided _

/-- And its flags. -/
theorem fed_ctx (conn : Connection) (pgPort : UInt16) (seg : TcpSegment) :
    (conn.fed pgPort seg).ctx = (conn.dir (segmentRole seg pgPort)).ctx := by
  obtain ⟨nextSeq, ooo, added, hfed⟩ :=
    feed_frame (conn.dir (segmentRole seg pgPort)) seg.seq seg.syn seg.payload
  rw [Connection.fed, hfed]

/-- What `handle` does with the direction it has drained. -/
def Connection.settle (conn : Connection) (role : Role) (drained : Draining) (metrics : Metrics) :
    Connection × Metrics × List Event :=
  let conn' :=
    match role with
    | .client =>
      { conn with client := drained.dir
                  server := armServer drained.outcome.serverNegotiationWait conn.server }
    | .server => { conn with server := drained.dir }
  (if drained.outcome.encrypted then { conn' with encrypted := true } else conn',
    let metrics := if drained.outcome.encrypted then metrics.setEncrypted conn.stats true else metrics
    if drained.outcome.msgs > 0 then
      metrics.recordMessages conn.stats (trafficDirection role) drained.outcome.msgs drained.outcome.bytes
    else metrics,
    drained.events)

theorem handle_settle (pg : Decoder) (pgPort : UInt16) {conn : Connection} (m : Metrics)
    (seg : TcpSegment) (henc : conn.encrypted = false) :
    conn.handle pg pgPort m seg
      = conn.settle (segmentRole seg pgPort) (drainDirection pg (conn.fed pgPort seg) {}) m := by
  rw [Connection.handle, henc]
  simp only [Bool.false_eq_true, if_false]
  rw [← Connection.fed]
  generalize drainDirection pg (conn.fed pgPort seg) {} = drained
  cases segmentRole seg pgPort <;> cases henc' : drained.outcome.encrypted <;>
    simp [Connection.settle, henc, henc']

/-- The directions afterwards: the drained one, and the other, which the client's drain may have armed. -/
theorem settle_dir (conn : Connection) (role : Role) (drained : Draining) (m : Metrics) (r : Role) :
    (conn.settle role drained m).1.dir r
      = if r = role then drained.dir
        else if role = .client then armServer drained.outcome.serverNegotiationWait (conn.dir r)
        else conn.dir r := by
  unfold Connection.settle
  cases role <;> cases r <;> cases drained.outcome.encrypted <;> rfl

theorem handle_dir (pg : Decoder) (pgPort : UInt16) {conn : Connection} (m : Metrics) (seg : TcpSegment)
    (henc : conn.encrypted = false) (role : Role) :
    (conn.handle pg pgPort m seg).1.dir role
      = if role = segmentRole seg pgPort then (drainDirection pg (conn.fed pgPort seg) {}).dir
        else if segmentRole seg pgPort = .client then
          armServer (drainDirection pg (conn.fed pgPort seg) {}).outcome.serverNegotiationWait
            (conn.dir role)
        else conn.dir role := by
  rw [handle_settle pg pgPort m seg henc, settle_dir]

/-- After a segment of the client's its drain may have armed the server. -/
theorem handle_client_side (pg : Decoder) {pgPort : UInt16} {conn : Connection} (m : Metrics)
    {seg : TcpSegment} (henc : conn.encrypted = false) (hside : segmentRole seg pgPort = .client) :
    (conn.handle pg pgPort m seg).1.client = (drainDirection pg (conn.fed pgPort seg) {}).dir ∧
      (conn.handle pg pgPort m seg).1.server
        = armServer (drainDirection pg (conn.fed pgPort seg) {}).outcome.serverNegotiationWait conn.server := by
  have hclient := handle_dir pg pgPort m seg henc .client
  have hserver := handle_dir pg pgPort m seg henc .server
  rw [hside, if_pos rfl] at hclient
  rw [hside, if_neg (by decide), if_pos rfl] at hserver
  exact ⟨hclient, hserver⟩

/-- One of the server's leaves the client alone. -/
theorem handle_server_side (pg : Decoder) {pgPort : UInt16} {conn : Connection} (m : Metrics)
    {seg : TcpSegment} (henc : conn.encrypted = false) (hside : segmentRole seg pgPort = .server) :
    (conn.handle pg pgPort m seg).1.client = conn.client ∧
      (conn.handle pg pgPort m seg).1.server = (drainDirection pg (conn.fed pgPort seg) {}).dir := by
  have hclient := handle_dir pg pgPort m seg henc .client
  have hserver := handle_dir pg pgPort m seg henc .server
  rw [hside, if_neg (by decide), if_neg (by decide)] at hclient
  rw [hside, if_pos rfl] at hserver
  exact ⟨hclient, hserver⟩

/-- Arming touches the flags alone. -/
theorem armServer_frame (wait : ServerNegotiationWait) (server : Direction) :
    ∃ ctx, armServer wait server = { server with ctx := ctx } := by
  cases wait <;> exact ⟨_, rfl⟩

/-- The directions after a segment, up to the flags of the other side. -/
theorem handle_dir_frame (pg : Decoder) (pgPort : UInt16) (conn : Connection) (m : Metrics)
    (seg : TcpSegment) (henc : conn.encrypted = false) (role : Role) :
    ∃ ctx, (conn.handle pg pgPort m seg).1.dir role
      = if role = segmentRole seg pgPort then (drainDirection pg (conn.fed pgPort seg) {}).dir
        else { conn.dir role with ctx := ctx } := by
  rw [handle_dir pg pgPort m seg henc]
  by_cases hr : role = segmentRole seg pgPort
  · exact ⟨(conn.dir role).ctx, by rw [if_pos hr, if_pos hr]⟩
  · obtain ⟨ctx, hctx⟩ := armServer_frame
      (drainDirection pg (conn.fed pgPort seg) {}).outcome.serverNegotiationWait (conn.dir role)
    rw [if_neg hr, hctx]
    split
    · exact ⟨ctx, rfl⟩
    · exact ⟨(conn.dir role).ctx, rfl⟩

theorem handle_metrics (pg : Decoder) (pgPort : UInt16) (conn : Connection) (m : Metrics)
    (seg : TcpSegment) (henc : conn.encrypted = false) :
    (conn.handle pg pgPort m seg).2.1 =
      let outcome := (drainDirection pg (conn.fed pgPort seg) {}).outcome
      let m := if outcome.encrypted then m.setEncrypted conn.stats true else m
      if outcome.msgs > 0 then
        m.recordMessages conn.stats (trafficDirection (segmentRole seg pgPort)) outcome.msgs outcome.bytes
      else m := by
  rw [handle_settle pg pgPort m seg henc]
  rfl

/-- The parts of the connection a segment does not touch, and its events. -/
theorem handle_frame (pg : Decoder) (pgPort : UInt16) (conn : Connection) (m : Metrics)
    (seg : TcpSegment) (henc : conn.encrypted = false) :
    (conn.handle pg pgPort m seg).1.stats = conn.stats ∧
      (conn.handle pg pgPort m seg).1.metricsClosed = conn.metricsClosed ∧
      (conn.handle pg pgPort m seg).1.encrypted
        = (drainDirection pg (conn.fed pgPort seg) {}).outcome.encrypted ∧
      (conn.handle pg pgPort m seg).2.2 = (drainDirection pg (conn.fed pgPort seg) {}).events := by
  rw [handle_settle pg pgPort m seg henc]
  unfold Connection.settle
  generalize drainDirection pg (conn.fed pgPort seg) {} = drained
  cases segmentRole seg pgPort <;> cases drained.outcome.encrypted <;>
    exact ⟨rfl, rfl, by simp [henc], rfl⟩

theorem handle_encrypted (pg : Decoder) (pgPort : UInt16) {conn : Connection} (m : Metrics)
    (seg : TcpSegment) (henc : conn.encrypted = true) :
    conn.handle pg pgPort m seg = (conn, m, []) := by
  rw [Connection.handle, if_pos henc]

/-- Handling a segment keeps the handle and the mark of the connection, and opens and closes nothing. -/
theorem handle_kept (pg : Decoder) (pgPort : UInt16) (conn : Connection) (m : Metrics)
    (seg : TcpSegment) :
    (conn.handle pg pgPort m seg).1.stats = conn.stats ∧
      (conn.handle pg pgPort m seg).1.metricsClosed = conn.metricsClosed ∧
      (conn.handle pg pgPort m seg).2.1.connsOpened = m.connsOpened ∧
      (conn.handle pg pgPort m seg).2.1.connsLive = m.connsLive ∧
      ∀ id, (conn.handle pg pgPort m seg).2.1.lifecycleOf id = m.lifecycleOf id := by
  cases henc : conn.encrypted with
  | true =>
    rw [handle_encrypted pg pgPort m seg henc]
    exact ⟨rfl, rfl, rfl, rfl, fun _ => rfl⟩
  | false =>
    obtain ⟨hstats, hclosed, _, _⟩ := handle_frame pg pgPort conn m seg henc
    refine ⟨hstats, hclosed, ?_⟩
    rw [handle_metrics pg pgPort conn m seg henc]
    dsimp only
    split <;> split <;> simp

/-- A traffic source counts what a drain has emitted. -/
theorem drain_counted {dir : Direction} {drained : Draining} (hacc : Accounted dir drained)
    (stats : ConnId) (m : Metrics) :
    Counted stats (fun d => messagesOf (side d) drained.events) (fun d => wireOf (side d) drained.events) m
      (if drained.outcome.msgs > 0 then
        m.recordMessages stats (trafficDirection dir.role) drained.outcome.msgs drained.outcome.bytes
      else m) := by
  have hmsgs : (fun d => messagesOf (side d) drained.events)
      = fun d => if d = trafficDirection dir.role then drained.outcome.msgs else 0 := by
    funext d
    split
    · rename_i h
      rw [h, side_trafficDirection, hacc.msgs]
    · rename_i h
      exact messagesOf_other (fun h' => h (by rw [h', trafficDirection_side])) hacc.ofRole
  have hbytes : (fun d => wireOf (side d) drained.events)
      = fun d => if d = trafficDirection dir.role then drained.outcome.bytes else 0 := by
    funext d
    split
    · rename_i h
      rw [h, side_trafficDirection, hacc.bytes]
    · rename_i h
      exact wireOf_other (fun h' => h (by rw [h', trafficDirection_side])) hacc.ofRole
  rw [hmsgs, hbytes]
  split
  · exact recordMessages_counted m stats (trafficDirection dir.role) _ _
  · have hnone : drained.outcome.msgs = 0 := by omega
    have hzero : drained.outcome.bytes = 0 := by
      rw [hacc.bytes, wireOf_of_no_messages (hacc.msgs ▸ hnone)]
    simpa only [hnone, hzero, ite_self] using Counted.refl stats m

/-- What settling a drain counts. -/
theorem settle_counted (conn : Connection) {dir : Direction} {drained : Draining}
    (hacc : Accounted dir drained) (m : Metrics) :
    Counted conn.stats (fun d => messagesOf (side d) drained.events)
      (fun d => wireOf (side d) drained.events) m (conn.settle dir.role drained m).2.1 := by
  have hset : Counted conn.stats (fun _ => 0) (fun _ => 0) m
      (if drained.outcome.encrypted then m.setEncrypted conn.stats true else m) := by
    split
    · exact setEncrypted_counted m conn.stats true
    · exact Counted.refl conn.stats m
  have hcounted := drain_counted hacc conn.stats
    (if drained.outcome.encrypted then m.setEncrypted conn.stats true else m)
  have hboth := hset.trans hcounted
  simp only [Nat.zero_add] at hboth
  exact hboth

/-- **The segment step.** -/
theorem handle_spec {pg : Decoder} (hpg : pg.Consumes) (pgPort : UInt16) {conn : Connection}
    (hsided : conn.Sided) (m : Metrics) (seg : TcpSegment) :
    HandleSpec conn (conn.handle pg pgPort m seg).1 m (conn.handle pg pgPort m seg).2.1
      (conn.handle pg pgPort m seg).2.2 (conn.appended pgPort seg) := by
  cases henc : conn.encrypted with
  | true =>
    rw [handle_encrypted pg pgPort m seg henc]
    exact ⟨rfl, rfl, hsided, Counted.refl _ m, fun role => by simp [Connection.appended, henc]⟩
  | false =>
    obtain ⟨hstats, hclosed, _, hevents⟩ := handle_frame pg pgPort conn m seg henc
    have hdir := handle_dir_frame pg pgPort conn m seg henc
    have hacc := drain_account hpg (conn.fed pgPort seg)
    have hrole := fed_role hsided pgPort seg
    -- the fed buffer is the old one with bytes behind it
    obtain ⟨nextSeq, ooo, added, hfed⟩ :=
      feed_frame (conn.dir (segmentRole seg pgPort)) seg.seq seg.syn seg.payload
    have hrx : (conn.fed pgPort seg).rxbuf = (conn.dir (segmentRole seg pgPort)).rxbuf ++ added := by
      rw [Connection.fed, hfed]
    have hmetrics := handle_metrics pg pgPort conn m seg henc
    rw [hevents]
    generalize drainDirection pg (conn.fed pgPort seg) {} = drained at *
    have hof : ∀ e ∈ drained.events, e.ofRole (segmentRole seg pgPort) := hrole ▸ hacc.ofRole
    refine ⟨hstats, hclosed, ?_, ?_, ?_⟩
    · intro role
      obtain ⟨ctx, hdir⟩ := hdir role
      rw [hdir]
      split
      · rename_i h
        exact (hacc.role.trans hrole).trans h.symm
      · exact hsided role
    · rw [hmetrics, ← hrole]
      exact settle_counted conn hacc m
    · intro role
      obtain ⟨ctx, hdir⟩ := hdir role
      rw [hdir, Connection.appended, henc]
      by_cases h : role = segmentRole seg pgPort
      · have hbalance := hacc.balance
        rw [hrx, hrole, List.length_append] at hbalance
        simp only [Bool.false_eq_true, if_false, if_pos h]
        rw [hrx, List.length_append, h]
        omega
      · simp only [Bool.false_eq_true, if_false, if_neg h]
        rw [wireOf_other (Ne.symm h) hof, lostOf_other (Ne.symm h) hof]

end Tapgres.Flow
