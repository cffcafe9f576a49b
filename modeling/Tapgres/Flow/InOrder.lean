import Tapgres.Decode.Arrivals
import Tapgres.Flow.Connection
import Tapgres.Lib.Run

/-!
# A connection whose segments arrive in order

`Connection::handle` over the segments of one connection, when each side's segments cut its stream in
order; the two sides may interleave in any way.

* `feed_inOrder` — such a segment moves `next_seq` to its end and its payload to the end of `rxbuf`;
* `handle_arrive` — so handling it is what its bytes alone do, and `inOrder_run` that of a whole capture;
* `arrivals_track` — at the end of the run each side stands where one drain of its stream stands.
-/

namespace Tapgres.Flow

open Std (ExtTreeMap)
open Tapgres.Net Tapgres.Pgwire Tapgres.Decode Tapgres.State Tapgres.Lib.Run

/-! ### Segments in order -/

/-- The segments cut the stream in order: each segment with data starts at the next byte, which is known
once the SYN or the first data has been seen; a SYN carries no data, and comes before any. -/
inductive InOrder : Option (BitVec 32) → List TcpSegment → Bytes → Prop
  | nil (next : Option (BitVec 32)) : InOrder next [] []
  | syn {next : Option (BitVec 32)} {seg : TcpSegment} {segs : List TcpSegment} {S : Bytes}
      (hsyn : seg.syn = true) (hempty : seg.payload = []) (hnext : next = none ∨ next = some (seg.seq + 1))
      (hrest : InOrder (some (seg.seq + 1)) segs S) : InOrder next (seg :: segs) S
  | empty {next : Option (BitVec 32)} {seg : TcpSegment} {segs : List TcpSegment} {S : Bytes}
      (hsyn : seg.syn = false) (hempty : seg.payload = []) (hrest : InOrder next segs S) :
      InOrder next (seg :: segs) S
  | data {next : Option (BitVec 32)} {seg : TcpSegment} {segs : List TcpSegment} {S : Bytes}
      (hsyn : seg.syn = false) (hdata : seg.payload ≠ []) (hnext : next = none ∨ next = some seg.seq)
      (hrest : InOrder (some (seg.seq + BitVec.ofNat 32 seg.payload.length)) segs S) :
      InOrder next (seg :: segs) (seg.payload ++ S)

/-- The segments of one side. -/
def segmentsOf (pgPort : UInt16) (role : Role) (segs : List TcpSegment) : List TcpSegment :=
  segs.filter fun seg => segmentRole seg pgPort = role

theorem flushOoo_empty (n : ℕ) (adv : BitVec 32) (rxbuf : Bytes) :
    flushOoo n ∅ adv rxbuf = (∅, adv, rxbuf) := by
  cases n with
  | zero => rfl
  | succ n => simp [flushOoo]

/-- **A segment in order** moves `next_seq` and appends its payload. -/
theorem feed_inOrder {d : Direction} (hooo : d.ooo = ∅) {seg : TcpSegment} {segs : List TcpSegment}
    {S : Bytes} (h : InOrder d.nextSeq (seg :: segs) S) :
    ∃ next S', d.feed seg.seq seg.syn seg.payload = Direction.arrived d seg.payload next ∧
      S = seg.payload ++ S' ∧ InOrder next segs S' := by
  cases h with
  | syn hsyn hempty _ hrest =>
    refine ⟨some (seg.seq + 1), S, ?_, by rw [hempty, List.nil_append], hrest⟩
    simp [Direction.feed, hsyn, hempty, Direction.arrived]
  | empty hsyn hempty hrest =>
    refine ⟨d.nextSeq, S, ?_, by rw [hempty, List.nil_append], hrest⟩
    simp [Direction.feed, hsyn, hempty, Direction.arrived]
  | @data _ _ _ S' hsyn hdata hnext hrest =>
    refine ⟨some (seg.seq + BitVec.ofNat 32 seg.payload.length), S', ?_, rfl, hrest⟩
    have hget : d.nextSeq.getD seg.seq = seg.seq := by
      rcases hnext with hnext | hnext <;> rw [hnext] <;> rfl
    have hisEmpty : seg.payload.isEmpty = false := by
      simpa using hdata
    simp [Direction.feed, hsyn, hisEmpty, hget, Direction.deliver, Direction.arrived, hooo,
      flushOoo_empty]

/-! ### Arrivals -/

/-- The bytes `c` arrive in order from the side `role`: `handle` without its reassembly. -/
def Connection.arrive (pg : Decoder) (conn : Connection) (m : Metrics) (role : Role) (c : Bytes) :
    Connection × Metrics × List Event :=
  if conn.encrypted then (conn, m, [])
  else
    conn.settle role
      (drainDirection pg (Direction.arrived (conn.dir role) c (conn.dir role).nextSeq) {}) m

/-- One connection handles a segment. -/
def connStep (pg : Decoder) (pgPort : UInt16) (s : Connection × Metrics) (seg : TcpSegment) :
    (Connection × Metrics) × List Event :=
  let (conn, metrics, events) := s.1.handle pg pgPort s.2 seg
  ((conn, metrics), events)

/-- One connection takes an arrival. -/
def arriveStep (pg : Decoder) (s : Connection × Metrics) (a : Role × Bytes) :
    (Connection × Metrics) × List Event :=
  let (conn, metrics, events) := s.1.arrive pg s.2 a.1 a.2
  ((conn, metrics), events)

/-- Where the next segment is expected does not matter to the decoder. -/
def Direction.forget (d : Direction) : Direction := { d with nextSeq := none }

def Connection.forget (conn : Connection) : Connection :=
  { conn with client := Direction.forget conn.client, server := Direction.forget conn.server }

theorem forget_dir (conn : Connection) (role : Role) :
    conn.forget.dir role = Direction.forget (conn.dir role) := by
  cases role <;> rfl

theorem drain_forget {pg : Decoder} (hpg : pg.Consumes) (d : Direction) :
    drainDirection pg (Direction.forget d) {}
      = { drainDirection pg d {} with dir := Direction.forget (drainDirection pg d {}).dir } := by
  let c : Surroundings := ⟨none, d.ooo, id, id, [], 0, 0, []⟩
  have hends := ends_carried (unseen_of_id pg (c := c) rfl d.role) rfl
    (drainDirection_ends hpg d)
  have hooo := (drain_account hpg d).ooo
  have hstart : c.carry ⟨d, {}, []⟩ = ⟨Direction.forget d, {}, []⟩ := by
    simp [Surroundings.carry, Surroundings.dir, Surroundings.outcome, Surroundings.ctx, c,
      Direction.forget]
  rw [hstart] at hends
  rw [(drainDirection_ends hpg (Direction.forget d)).unique hends]
  simp [Surroundings.carry, Surroundings.dir, Surroundings.outcome, Surroundings.ctx, c,
    Direction.forget, relabel_id, hooo]

theorem settle_forget (conn : Connection) (role : Role) (drained : Draining) (m : Metrics) :
    conn.forget.settle role { drained with dir := Direction.forget drained.dir } m
      = ((conn.settle role drained m).1.forget, (conn.settle role drained m).2) := by
  unfold Connection.settle
  cases role with
  | client =>
    cases drained.outcome.serverNegotiationWait <;> cases drained.outcome.encrypted <;> rfl
  | server => cases drained.outcome.encrypted <;> rfl

/-- **A segment in order is an arrival of its payload.** -/
theorem handle_arrive {pg : Decoder} (hpg : pg.Consumes) {pgPort : UInt16} {conn : Connection} {m : Metrics}
    {seg : TcpSegment} {next : Option (BitVec 32)}
    (hfed : conn.encrypted = false → conn.fed pgPort seg
      = Direction.arrived (conn.dir (segmentRole seg pgPort)) seg.payload next) :
    conn.forget.arrive pg m (segmentRole seg pgPort) seg.payload
      = ((conn.handle pg pgPort m seg).1.forget, (conn.handle pg pgPort m seg).2) := by
  cases henc : conn.encrypted with
  | true =>
    rw [handle_encrypted pg pgPort m seg henc, Connection.arrive,
      if_pos (show conn.forget.encrypted = true from henc)]
  | false =>
    have hforget : Direction.arrived (conn.forget.dir (segmentRole seg pgPort)) seg.payload
        (conn.forget.dir (segmentRole seg pgPort)).nextSeq = Direction.forget (conn.fed pgPort seg) := by
      rw [hfed henc, forget_dir]
      rfl
    have henc' : conn.forget.encrypted = false := henc
    rw [handle_settle pg pgPort m seg henc, Connection.arrive, if_neg (by simp [henc']), hforget,
      drain_forget hpg, settle_forget]

/-! ### A run of segments -/

/-- The flow state after a segment is that of the fed direction, and of the other as it was. -/
theorem handle_flow {pg : Decoder} (hpg : pg.Consumes) (pgPort : UInt16) {conn : Connection}
    (m : Metrics) (seg : TcpSegment) (henc : conn.encrypted = false) (role : Role) :
    ((conn.handle pg pgPort m seg).1.dir role).nextSeq
        = (if role = segmentRole seg pgPort then conn.fed pgPort seg else conn.dir role).nextSeq ∧
      ((conn.handle pg pgPort m seg).1.dir role).ooo
        = (if role = segmentRole seg pgPort then conn.fed pgPort seg else conn.dir role).ooo := by
  have hacc := drain_account hpg (conn.fed pgPort seg)
  obtain ⟨ctx, hdir⟩ := handle_dir_frame pg pgPort conn m seg henc role
  rw [hdir]
  split
  · exact ⟨hacc.nextSeq, hacc.ooo⟩
  · exact ⟨rfl, rfl⟩

/-- Once encrypted, a connection handles nothing more. -/
theorem run_encrypted (pg : Decoder) (pgPort : UInt16) {conn : Connection} (m : Metrics)
    (henc : conn.encrypted = true) (segs : List TcpSegment) :
    run (connStep pg pgPort) (conn, m) segs = ((conn, m), []) := by
  induction segs with
  | nil => rfl
  | cons seg segs ih =>
    have hstep : connStep pg pgPort (conn, m) seg = ((conn, m), []) := by
      rw [connStep, handle_encrypted pg pgPort m seg henc]
    rw [run_cons, hstep, ih]
    rfl

theorem arrivals_encrypted (pg : Decoder) {conn : Connection} (m : Metrics) (henc : conn.encrypted = true)
    (as : List (Role × Bytes)) : run (arriveStep pg) (conn, m) as = ((conn, m), []) := by
  induction as with
  | nil => rfl
  | cons a as ih =>
    have hstep : arriveStep pg (conn, m) a = ((conn, m), []) := by
      rw [arriveStep, Connection.arrive, if_pos henc]
    rw [run_cons, hstep, ih]
    rfl

/-- The arrivals that segments in order make. -/
def arrivalsOf (pgPort : UInt16) (segs : List TcpSegment) : List (Role × Bytes) :=
  segs.map fun seg => (segmentRole seg pgPort, seg.payload)

/-- **A run of segments in order is a run of arrivals.** -/
theorem inOrder_run {pg : Decoder} (hpg : pg.Consumes) (pgPort : UInt16) (segs : List TcpSegment)
    (conn : Connection) (m : Metrics) (hooo : ∀ role, (conn.dir role).ooo = ∅) (rest : Role → Bytes)
    (hrest : ∀ role, InOrder (conn.dir role).nextSeq (segmentsOf pgPort role segs) (rest role)) :
    run (arriveStep pg) (conn.forget, m) (arrivalsOf pgPort segs)
      = (((run (connStep pg pgPort) (conn, m) segs).1.1.forget,
          (run (connStep pg pgPort) (conn, m) segs).1.2), (run (connStep pg pgPort) (conn, m) segs).2) := by
  induction segs generalizing conn m rest with
  | nil => rfl
  | cons seg segs ih =>
    cases henc : conn.encrypted with
    | true =>
      have hforget : conn.forget.encrypted = true := henc
      rw [run_encrypted pg pgPort m henc, arrivals_encrypted pg m hforget]
    | false =>
      obtain ⟨mine, hmine⟩ : ∃ role, segmentRole seg pgPort = role := ⟨_, rfl⟩
      -- the segment moves its own side one piece on
      have hcut := hrest mine
      rw [segmentsOf, List.filter_cons_of_pos (by simpa using hmine), ← segmentsOf] at hcut
      obtain ⟨next, S', hfeed, hS', hcut'⟩ := feed_inOrder (hooo mine) hcut
      have hfed : conn.fed pgPort seg = Direction.arrived (conn.dir mine) seg.payload next := by
        rw [Connection.fed, hmine]
        exact hfeed
      have hfed' : conn.fed pgPort seg
          = Direction.arrived (conn.dir (segmentRole seg pgPort)) seg.payload next := hmine.symm ▸ hfed
      have harrive := handle_arrive hpg (m := m) fun _ => hfed'
      have hflow := handle_flow hpg pgPort m seg henc
      rw [hmine, hfed] at hflow
      have hooo' : ∀ role, ((conn.handle pg pgPort m seg).1.dir role).ooo = ∅ := by
        intro role
        rw [(hflow role).2]
        split
        · exact hooo mine
        · exact hooo role
      have hrest' : ∀ role, InOrder ((conn.handle pg pgPort m seg).1.dir role).nextSeq
          (segmentsOf pgPort role segs) (Function.update rest mine S' role) := by
        intro role
        rw [(hflow role).1]
        by_cases hr : role = mine
        · subst hr
          rw [if_pos rfl, Function.update_self]
          exact hcut'
        · have hcut := hrest role
          rw [segmentsOf, List.filter_cons_of_neg (by simpa [hmine] using Ne.symm hr), ← segmentsOf] at hcut
          rw [if_neg hr, Function.update_of_ne hr]
          exact hcut
      have hih := ih _ (conn.handle pg pgPort m seg).2.1 hooo' _ hrest'
      have hstep : arriveStep pg (conn.forget, m) (segmentRole seg pgPort, seg.payload)
          = (((conn.handle pg pgPort m seg).1.forget, (conn.handle pg pgPort m seg).2.1),
              (conn.handle pg pgPort m seg).2.2) := by
        rw [arriveStep, harrive]
      rw [arrivalsOf, List.map_cons, ← arrivalsOf, run_cons, hstep, hih]
      rfl

/-! ### A run of arrivals -/

/-- What has arrived from one side. -/
def bytesOf (role : Role) (as : List (Role × Bytes)) : Bytes :=
  as.flatMap fun a => if a.1 = role then a.2 else []

theorem bytesOf_cons (role r : Role) (c : Bytes) (as : List (Role × Bytes)) :
    bytesOf r ((role, c) :: as) = (if role = r then c else []) ++ bytesOf r as := List.flatMap_cons

/-- A side nothing arrives from. -/
theorem bytesOf_eq_nil {role r : Role} {c : Bytes} {as : List (Role × Bytes)}
    (h : bytesOf r ((role, c) :: as) = []) : (role = r → c = []) ∧ bytesOf r as = [] := by
  rw [bytesOf_cons, List.append_eq_nil_iff] at h
  exact ⟨fun hr => (if_pos hr).symm.trans h.1, h.2⟩

theorem InOrder.payload {next : Option (BitVec 32)} {segs : List TcpSegment} {S : Bytes}
    (h : InOrder next segs S) : S = segs.flatMap TcpSegment.payload := by
  induction h with
  | nil => rfl
  | syn _ hempty _ _ ih => rw [List.flatMap_cons, hempty, List.nil_append, ih]
  | empty _ hempty _ ih => rw [List.flatMap_cons, hempty, List.nil_append, ih]
  | data _ _ _ _ ih => rw [List.flatMap_cons, ih]

/-- The arrivals of a side are its stream. -/
theorem InOrder.bytesOf {pgPort : UInt16} {role : Role} {next : Option (BitVec 32)}
    {segs : List TcpSegment} {S : Bytes} (h : InOrder next (segmentsOf pgPort role segs) S) :
    bytesOf role (arrivalsOf pgPort segs) = S := by
  rw [h.payload]
  clear h
  induction segs with
  | nil => rfl
  | cons seg segs ih =>
    rw [arrivalsOf, List.map_cons, ← arrivalsOf, bytesOf_cons, ih]
    by_cases hr : segmentRole seg pgPort = role <;> simp [hr, segmentsOf]

theorem new_dir (stats : ConnId) (client : SocketAddr) (role : Role) :
    (Connection.new stats client).dir role = Direction.new role client := by
  cases role <;> rfl

/-- A new connection stands at the start of both streams. -/
theorem tracks_new {pg : Decoder} (hpg : pg.Stepwise) (stats : ConnId) (client : SocketAddr) :
    Tracks pg (fun role => Direction.new role client) (fun _ => []) (Connection.new stats client).dir [] := by
  rw [show (Connection.new stats client).dir
    = fun role => { Direction.new role client with rxbuf := [] } from funext (new_dir stats client)]
  exact tracks_start hpg.consumes fun role => empty_quiet hpg.idles rfl

theorem arrive_arrival (pg : Decoder) {conn : Connection} (m : Metrics) (role : Role) (c : Bytes)
    (henc : conn.encrypted = false) :
    Arrival pg conn.dir (conn.arrive pg m role c).1.dir role c (conn.dir role).nextSeq
      (conn.arrive pg m role c).2.2 := by
  rw [Connection.arrive, if_neg (by simp [henc])]
  refine ⟨rfl, by rw [settle_dir, if_pos rfl], ?_⟩
  intro hwait r hr
  rw [settle_dir, if_neg hr, hwait]
  split <;> rfl

/-- What else an arrival does to a connection. -/
theorem arrive_spec {pg : Decoder} (hpg : pg.Consumes) {conn : Connection} (hsided : conn.Sided)
    (m : Metrics) (role : Role) (c : Bytes) (henc : conn.encrypted = false) :
    (conn.arrive pg m role c).1.stats = conn.stats ∧
      (conn.arrive pg m role c).1.encrypted
        = (drainDirection pg (Direction.arrived (conn.dir role) c (conn.dir role).nextSeq) {}).outcome.encrypted ∧
      Counted conn.stats (fun d => messagesOf (side d) (conn.arrive pg m role c).2.2)
        (fun d => wireOf (side d) (conn.arrive pg m role c).2.2) m (conn.arrive pg m role c).2.1 := by
  have hacc := drain_account hpg (Direction.arrived (conn.dir role) c (conn.dir role).nextSeq)
  have hcounted := settle_counted conn hacc m
  rw [show (Direction.arrived (conn.dir role) c (conn.dir role).nextSeq).role = role from hsided role]
    at hcounted
  rw [Connection.arrive, if_neg (by simp [henc])]
  refine ⟨?_, ?_, hcounted⟩
  · unfold Connection.settle
    cases role <;> cases (drainDirection pg (Direction.arrived (conn.dir _) c _) {}).outcome.encrypted <;> rfl
  · unfold Connection.settle
    cases role <;>
      cases h : (drainDirection pg (Direction.arrived (conn.dir _) c _) {}).outcome.encrypted <;> simp [henc]

section Arrivals

variable {pg : Decoder} (hpg : pg.Consumes) {start : Role → Direction}
  (hrole : ∀ role, (start role).role = role) {streams : Role → Bytes}
  (hsmooth : ∀ role, Smooth pg (start role) (streams role))
include hpg hrole hsmooth

/-- **A run of arrivals stays on track.**  `P` has arrived, and what arrives makes up the streams. -/
theorem arrivals_track (as : List (Role × Bytes)) (conn : Connection) (m₀ m : Metrics)
    (past : List Event) (P : Role → Bytes) (htracks : Tracks pg start P conn.dir past)
    (henc : conn.encrypted = false)
    (hcounted : Counted conn.stats (fun d => messagesOf (side d) past) (fun d => wireOf (side d) past)
      m₀ m)
    (hstreams : ∀ role, streams role = P role ++ bytesOf role as) :
    ∃ conn' m' events, run (arriveStep pg) (conn, m) as = ((conn', m'), events) ∧
      Tracks pg start streams conn'.dir (past ++ events) ∧ conn'.encrypted = false ∧
      conn'.stats = conn.stats ∧
      Counted conn.stats (fun d => messagesOf (side d) (past ++ events))
        (fun d => wireOf (side d) (past ++ events)) m₀ m' := by
  induction as generalizing conn m past P with
  | nil =>
    have hP : P = streams := by
      funext role
      rw [hstreams role]
      exact (List.append_nil _).symm
    subst hP
    exact ⟨conn, m, [], rfl, by simpa using htracks, henc, rfl, by simpa using hcounted⟩
  | cons a as ih =>
    obtain ⟨mine, c⟩ := a
    have hsided : conn.Sided := by
      intro role
      rw [htracks.dir role]
      exact (drain_account hpg _).role.trans (hrole role)
    have hmine : streams mine = P mine ++ c ++ bytesOf mine as := by
      rw [hstreams mine, List.append_assoc, bytesOf_cons, if_pos rfl]
    have hbefore : DriesUp pg (start mine) (P mine) :=
      hsmooth mine _ ⟨c ++ bytesOf mine as, by rw [hmine, List.append_assoc]⟩
    have hafter : DriesUp pg (start mine) (P mine ++ c) := hsmooth mine _ ⟨_, hmine.symm⟩
    have harr := arrive_arrival pg m mine c henc
    have htracks' := tracks_arrival hpg hrole htracks hbefore hafter harr
    obtain ⟨hclear, _⟩ := arrival_clear hpg htracks (conn.dir mine).nextSeq hbefore hafter
    obtain ⟨hstats, henc', hc⟩ := arrive_spec hpg hsided m mine c henc
    have hcounted' : Counted (conn.arrive pg m mine c).1.stats
        (fun d => messagesOf (side d) (past ++ (conn.arrive pg m mine c).2.2))
        (fun d => wireOf (side d) (past ++ (conn.arrive pg m mine c).2.2)) m₀
        (conn.arrive pg m mine c).2.1 := by
      rw [hstats]
      simpa only [messagesOf_append, wireOf_append] using hcounted.trans hc
    have hstreams' : ∀ role, streams role
        = Function.update P mine (P mine ++ c) role ++ bytesOf role as := by
      intro role
      by_cases hr : role = mine
      · subst hr
        rw [Function.update_self, hmine]
      · rw [Function.update_of_ne hr, hstreams role, bytesOf_cons, if_neg (Ne.symm hr), List.nil_append]
    obtain ⟨conn', m', events, hrun, hend, hencEnd, hstatsEnd, hcountedEnd⟩ :=
      ih _ _ _ _ htracks' (henc'.trans hclear) hcounted' hstreams'
    refine ⟨conn', m', (conn.arrive pg m mine c).2.2 ++ events, ?_, ?_, hencEnd,
      hstatsEnd.trans hstats, ?_⟩
    · rw [run_cons, show (arriveStep pg (conn, m) (mine, c)).1
        = ((conn.arrive pg m mine c).1, (conn.arrive pg m mine c).2.1) from rfl, hrun]
      rfl
    · rwa [← List.append_assoc]
    · rw [hstats] at hcountedEnd
      simpa only [List.append_assoc] using hcountedEnd

end Arrivals

end Tapgres.Flow
