import Tapgres.Flow.Accounting
import Tapgres.Flow.Requests
import Tapgres.Pgwire.Framed

/-!
# Refused negotiations in a capture

A client may ask for encryption before its Startup, be refused with one byte, and ask again in the other
way.  The monitor recognises a request while the client's SSL flag is set, and clears the flag with the
first one, so that no connection ever reports two requests (`requests_le_one`).

* `round_run` — after one refused round both directions stand as before a cleartext session;
* `negotiated_iff` — so the session is decoded as it should be exactly when there was at most one round.
-/

namespace Tapgres.Flow

open Relation (ReflTransGen)
open Tapgres.Net Tapgres.Pgwire Tapgres.Decode Tapgres.State Tapgres.Lib.Loop Tapgres.Lib.Run

/-! ### Arrivals from which nothing is decoded -/

def Connection.setDir (conn : Connection) (role : Role) (d : Direction) : Connection :=
  match role with
  | .client => { conn with client := d }
  | .server => { conn with server := d }

theorem setDir_dir (conn : Connection) (role : Role) (d : Direction) (r : Role) :
    (conn.setDir role d).dir r = if r = role then d else conn.dir r := by
  cases role <;> cases r <;> rfl

theorem setDir_self (conn : Connection) (role : Role) : conn.setDir role (conn.dir role) = conn := by
  cases role <;> rfl

/-- Settling puts the drained direction in the place of the one before. -/
theorem settle_setDir (conn : Connection) (role : Role) (d : Direction) (drained : Draining) (m : Metrics) :
    (conn.setDir role d).settle role drained m = conn.settle role drained m := by
  cases role <;> rfl

/-- Bytes that leave the direction quiet are appended to its buffer, and that is all. -/
theorem arrive_quiet {pg : Decoder} (hpg : pg.Lawful) {conn : Connection} (m : Metrics) {role : Role}
    {c : Bytes} (henc : conn.encrypted = false)
    (hquiet : Quiet pg { conn.dir role with rxbuf := (conn.dir role).rxbuf ++ c }) :
    conn.arrive pg m role c
      = (conn.setDir role { conn.dir role with rxbuf := (conn.dir role).rxbuf ++ c }, m, []) := by
  have hdrain : drainDirection pg (Direction.arrived (conn.dir role) c (conn.dir role).nextSeq) {}
      = ⟨{ conn.dir role with rxbuf := (conn.dir role).rxbuf ++ c }, {}, []⟩ :=
    whole_of_quiet hpg.consumes hquiet
  rw [Connection.arrive, if_neg (by simp [henc]), hdrain]
  cases role <;> rfl

/-- No bytes, from a side that was quiet before. -/
theorem arrive_nothing {pg : Decoder} (hpg : pg.Lawful) {conn : Connection} (m : Metrics) {role : Role}
    (henc : conn.encrypted = false) (hquiet : Quiet pg (conn.dir role)) :
    arriveStep pg (conn, m) (role, []) = ((conn, m), []) := by
  have hself : ({ conn.dir role with rxbuf := (conn.dir role).rxbuf ++ [] } : Direction) = conn.dir role := by
    rw [List.append_nil]
  rw [arriveStep, arrive_quiet hpg m henc (hself.symm ▸ hquiet), hself, setDir_self]

/-- Nothing more arrives on either side. -/
theorem idle_run {pg : Decoder} (hpg : pg.Lawful) {conn : Connection} (m : Metrics)
    (henc : conn.encrypted = false) (hquiet : ∀ role, Quiet pg (conn.dir role)) {as : List (Role × Bytes)}
    (hnone : ∀ role, bytesOf role as = []) : run (arriveStep pg) (conn, m) as = ((conn, m), []) := by
  induction as with
  | nil => rfl
  | cons a as ih =>
    obtain ⟨role, c⟩ := a
    obtain rfl : c = [] := (bytesOf_eq_nil (hnone role)).1 rfl
    rw [run_cons, arrive_nothing hpg m henc (hquiet role), ih fun r => (bytesOf_eq_nil (hnone r)).2]
    rfl

/-- **One packet in pieces.**  The bytes `W` arrive on one side and nothing on the other; pgwire finds
nothing in any beginning of `W`, and nothing afterwards.  Then they are handled as if they had arrived at
once. -/
theorem packet_run {pg : Decoder} (hpg : pg.Lawful) (mine : Role) {W : Bytes} {as : List (Role × Bytes)}
    {conn : Connection} (m : Metrics) (henc : conn.encrypted = false)
    (hmine : (conn.dir mine).rxbuf ++ bytesOf mine as = W) (hnot : (conn.dir mine).rxbuf ≠ W)
    (hothers : ∀ r, r ≠ mine → bytesOf r as = [] ∧ Quiet pg (conn.dir r))
    (hbegun : ∀ P more, more ≠ [] → P ++ more = W → Quiet pg { conn.dir mine with rxbuf := P })
    {conn' : Connection} {m' : Metrics} {es : List Event}
    (hsettle : conn.settle mine (drainDirection pg { conn.dir mine with rxbuf := W } {}) m = (conn', m', es))
    (henc' : conn'.encrypted = false) (hquiet' : ∀ role, Quiet pg (conn'.dir role)) :
    run (arriveStep pg) (conn, m) as = ((conn', m'), es) := by
  induction as generalizing conn with
  | nil => exact absurd (by simpa [bytesOf] using hmine) hnot
  | cons a as ih =>
    obtain ⟨role, c⟩ := a
    rw [bytesOf_cons, ← List.append_assoc] at hmine
    have hothers' : ∀ r, r ≠ mine → bytesOf r as = [] ∧ Quiet pg (conn.dir r) := fun r hr =>
      ⟨(bytesOf_eq_nil (hothers r hr).1).2, (hothers r hr).2⟩
    by_cases hr : role = mine
    · subst hr
      rw [if_pos rfl] at hmine
      by_cases hall : (conn.dir role).rxbuf ++ c = W
      · -- the last piece
        have hnil : bytesOf role as = [] := by
          rw [hall] at hmine
          exact List.append_right_eq_self.mp hmine
        have hstep : arriveStep pg (conn, m) (role, c) = ((conn', m'), es) := by
          have hd : Direction.arrived (conn.dir role) c (conn.dir role).nextSeq
              = { conn.dir role with rxbuf := W } := by
            rw [Direction.arrived, hall]
          rw [arriveStep, Connection.arrive, if_neg (by simp [henc]), hd, hsettle]
        have hrest : ∀ r, bytesOf r as = [] := by
          intro r
          by_cases hrole : r = role
          · rw [hrole, hnil]
          · exact (hothers' r hrole).1
        rw [run_cons, hstep, idle_run hpg m' henc' hquiet' hrest]
        simp
      · -- a piece before the last
        have hmore : bytesOf role as ≠ [] := fun h => hall (by rw [← hmine, h, List.append_nil])
        have hstep : arriveStep pg (conn, m) (role, c)
            = ((conn.setDir role { conn.dir role with rxbuf := (conn.dir role).rxbuf ++ c }, m), []) := by
          rw [arriveStep, arrive_quiet hpg m henc (hbegun _ _ hmore hmine)]
        have hdir := setDir_dir conn role { conn.dir role with rxbuf := (conn.dir role).rxbuf ++ c }
        rw [run_cons, hstep]
        rw [ih]
        · rfl
        · cases role <;> exact henc
        · rw [hdir, if_pos rfl]
          exact hmine
        · rw [hdir, if_pos rfl]
          exact hall
        · intro r hr
          rw [hdir, if_neg hr]
          exact hothers' r hr
        · intro P more hne hP
          rw [hdir, if_pos rfl]
          exact hbegun P more hne hP
        · rw [settle_setDir, hdir, if_pos rfl]
          exact hsettle
    · -- nothing, from the other side
      rw [if_neg hr, List.append_nil] at hmine
      obtain rfl : c = [] := (bytesOf_eq_nil (hothers role hr).1).1 rfl
      rw [run_cons, arrive_nothing hpg m henc (hothers role hr).2, ih henc hmine hnot hothers' hbegun hsettle]
      rfl

/-! ### One round -/

/-- The record of a request, and of its refusal. -/
def requestRecord : NegotiationRequest → String × String × Option EventDetail
  | .ssl => ("SSLRequest", "(awaiting server reply)", none)
  | .gss => ("GssEncRequest", "(awaiting server reply)", none)

def refusalRecord : NegotiationRequest → String × String × Option EventDetail
  | .ssl => ("SslResponse", "refuse (continuing in cleartext)", none)
  | .gss => ("GssEncResponse", "refuse (continuing in cleartext)", none)

/-- The answer a request makes the server's side wait for. -/
def requestWait : NegotiationRequest → ServerNegotiationWait
  | .ssl => .ssl
  | .gss => .gss

/-- The record an event is, with its side. -/
def sidedRecord : Event → Option (Role × String × String × Option EventDetail)
  | .message emitter body _ => some (emitter.role, body.record)
  | _ => none

/-- The records, in the order in which they were emitted. -/
def recordsIn (es : List Event) : List (Role × String × String × Option EventDetail) :=
  es.filterMap sidedRecord

/-- A request in the client's buffer: it is reported, the SSL flag is cleared, and the drain stops. -/
theorem drain_request {pg : Decoder} (hpg : pg.Lawful) (hrec : pg.Recognises) (q : NegotiationRequest)
    {d : Direction} (hrole : d.role = .client) (hssl : d.ctx.awaitingFrontendSsl = true) :
    ∃ e, sidedRecord e = some (.client, requestRecord q) ∧
      drainDirection pg { d with rxbuf := q.wire } {}
        = ⟨{ d with ctx := { d.ctx with awaitingFrontendSsl := false }, rxbuf := [] },
            { serverNegotiationWait := requestWait q, encrypted := false, msgs := 1, bytes := 8 }, [e]⟩ := by
  have hdec := hrec.request q d.ctx hssl
  have hends := drainDirection_ends hpg.consumes { d with rxbuf := q.wire }
  have hside : roleTurn pg d.role = clientTurn pg := by rw [hrole]; rfl
  rw [hside] at hends
  have hturn : clientTurn pg ⟨{ d with rxbuf := q.wire }, {}, []⟩ = _ :=
    drainTurn_some (s := ⟨{ d with rxbuf := q.wire }, {}, []⟩) hdec
  cases q with
  | ssl =>
    refine ⟨.message (Direction.emitter d) (.emit "SSLRequest" "(awaiting server reply)" none) 8, ?_, ?_⟩
    · rw [sidedRecord, Direction.emitter, hrole]
      rfl
    · exact hends.unique (.exit hturn)
  | gss =>
    refine ⟨.message (Direction.emitter d) (.emit "GssEncRequest" "(awaiting server reply)" none) 8, ?_, ?_⟩
    · rw [sidedRecord, Direction.emitter, hrole]
      rfl
    · exact hends.unique (.exit hturn)

/-- The refusing byte in the armed server's buffer: it is reported, and the direction is as it was. -/
theorem drain_refusal {pg : Decoder} (hpg : pg.Lawful) (hrec : pg.Recognises) (q : NegotiationRequest)
    {d : Direction} (hrole : d.role = .server) (hssl : d.ctx.awaitingBackendSslResponse = false)
    (hgss : d.ctx.awaitingBackendGssResponse = false) :
    ∃ e, sidedRecord e = some (.server, refusalRecord q) ∧
      drainDirection pg { armServer (requestWait q) d with rxbuf := [refuseByte] } {}
        = ⟨{ d with rxbuf := [] }, { msgs := 1, bytes := 1 }, [e]⟩ := by
  obtain ⟨role, client, nextSeq, ooo, rxbuf, ⟨fssl, fstartup, bssl, bgss⟩, rowDesc⟩ := d
  simp only at hrole hssl hgss
  subst hrole hssl hgss
  set d : Direction := ⟨.server, client, nextSeq, ooo, rxbuf, ⟨fssl, fstartup, false, false⟩, rowDesc⟩
    with hd
  set armed : Direction := { armServer (requestWait q) d with rxbuf := [refuseByte] } with harmed
  set e : Event := .message ⟨.server, client⟩ (.emit (refusalRecord q).1 (refusalRecord q).2.1 none) 1
    with he
  have hside : roleTurn pg armed.role = serverTurn pg := by
    cases q <;> rfl
  have hanswer : serverTurn pg ⟨armed, {}, []⟩
      = .inl ⟨{ d with rxbuf := [] }, { msgs := 1, bytes := 1 }, [e]⟩ := by
    have hdec := hrec.refusal q armed.ctx (by cases q <;> rfl) (by cases q <;> rfl)
    cases q <;> exact drainTurn_some (s := ⟨armed, {}, []⟩) hdec
  have hquiet : serverTurn pg ⟨{ d with rxbuf := [] }, { msgs := 1, bytes := 1 }, [e]⟩
      = .inr ⟨{ d with rxbuf := [] }, { msgs := 1, bytes := 1 }, [e]⟩ :=
    drainTurn_none (hpg.idles.backend _)
  have hends := drainDirection_ends hpg.consumes armed
  rw [hside] at hends
  exact ⟨e, by cases q <;> rfl, hends.unique (.round hanswer (.exit hquiet))⟩

/-- A connection on which a request can be made: the SSL flag is set, no answer is awaited, and nothing
is buffered. -/
structure Asks (conn : Connection) : Prop where
  sided : conn.Sided
  clear : conn.encrypted = false
  empty : ∀ role, (conn.dir role).rxbuf = []
  ssl : conn.client.ctx.awaitingFrontendSsl = true
  noSsl : conn.server.ctx.awaitingBackendSslResponse = false
  noGss : conn.server.ctx.awaitingBackendGssResponse = false

/-- The connection after a refused round. -/
def Connection.asked (conn : Connection) : Connection :=
  { conn with client := { conn.client with ctx := { conn.client.ctx with awaitingFrontendSsl := false } } }

/-- The connection between a request and its answer. -/
def Connection.requested (conn : Connection) (q : NegotiationRequest) : Connection :=
  { conn with
    client := { conn.client with
      ctx := { conn.client.ctx with awaitingFrontendSsl := false }, rxbuf := [] }
    server := armServer (requestWait q) conn.server }

section Round

variable {pg : Decoder} (hpg : pg.Lawful) (hrec : pg.Recognises) (q : NegotiationRequest) {conn : Connection}
  (h : Asks conn) (m : Metrics)
include hpg hrec h

/-- The request, in pieces. -/
theorem request_run {ask : List (Role × Bytes)} (hask : bytesOf .client ask = q.wire)
    (hsilent : bytesOf .server ask = []) :
    ∃ e, sidedRecord e = some (.client, requestRecord q) ∧ run (arriveStep pg) (conn, m) ask
      = ((conn.requested q, m.recordMessages conn.stats .in 1 8), [e]) := by
  have hclient : conn.client.rxbuf = [] := h.empty .client
  have hserver : conn.server.rxbuf = [] := h.empty .server
  obtain ⟨e, he, hdrain⟩ := drain_request hpg hrec q (d := conn.client) (h.sided .client) h.ssl
  have hsettle : conn.settle .client (drainDirection pg { conn.client with rxbuf := q.wire } {}) m
      = (conn.requested q, m.recordMessages conn.stats .in 1 8, [e]) := by
    rw [hdrain]
    rfl
  refine ⟨e, he, packet_run hpg .client m h.clear
    (show conn.client.rxbuf ++ _ = q.wire by rw [hclient, List.nil_append, hask])
    (show conn.client.rxbuf ≠ q.wire by rw [hclient]; cases q <;> decide)
    (fun r hr => ?_) (fun P more hmore hP => ?_) hsettle h.clear fun role => ?_⟩
  · cases r with
    | client => exact absurd rfl hr
    | server => exact ⟨hsilent, empty_quiet hpg.idles hserver⟩
  · have hlen : P.length < 8 := by
      have hlen := congrArg List.length hP
      rw [List.length_append, show q.wire.length = 8 by cases q <;> rfl] at hlen
      have := List.length_pos_iff.mpr hmore
      omega
    rw [Quiet]
    simp only [h.sided .client]
    exact hpg.negotiates.short _ _ h.ssl hlen
  · cases role with
    | client => exact empty_quiet hpg.idles rfl
    | server =>
      apply empty_quiet hpg.idles
      show (armServer _ _).rxbuf = []
      cases q <;> exact hserver

/-- The answer. -/
theorem answer_run {answer : List (Role × Bytes)} (hwait : bytesOf .client answer = [])
    (hanswer : bytesOf .server answer = [refuseByte]) :
    ∃ e, sidedRecord e = some (.server, refusalRecord q) ∧ run (arriveStep pg) (conn.requested q, m) answer
      = ((conn.asked, m.recordMessages conn.stats .out 1 1), [e]) := by
  have hclient : conn.client.rxbuf = [] := h.empty .client
  have hserver : conn.server.rxbuf = [] := h.empty .server
  obtain ⟨e, he, hdrain⟩ := drain_refusal hpg hrec q (d := conn.server) (h.sided .server) h.noSsl h.noGss
  have harmed : (armServer (requestWait q) conn.server).rxbuf = [] := by
    cases q <;> exact hserver
  have hend : { conn.requested q with server := { conn.server with rxbuf := [] } } = conn.asked := by
    have hself : ({ conn.server with rxbuf := [] } : Direction) = conn.server := by rw [← hserver]
    rw [hself, Connection.asked]
    simp only [Connection.requested, ← hclient]
  have hsettle : (conn.requested q).settle .server
      (drainDirection pg { armServer (requestWait q) conn.server with rxbuf := [refuseByte] } {}) m
      = (conn.asked, m.recordMessages conn.stats .out 1 1, [e]) := by
    rw [hdrain, ← hend]
    rfl
  have hclear : (conn.requested q).encrypted = false := h.clear
  have hasked : conn.asked.encrypted = false := h.clear
  refine ⟨e, he, packet_run hpg .server m hclear
    (show (armServer _ _).rxbuf ++ _ = [refuseByte] by rw [harmed, List.nil_append, hanswer])
    (show (armServer _ _).rxbuf ≠ [refuseByte] by rw [harmed]; exact (List.cons_ne_nil _ _).symm)
    (fun r hr => ?_) (fun P more hmore hP => ?_) hsettle hasked fun role => ?_⟩
  · cases r with
    | client => exact ⟨hwait, empty_quiet hpg.idles rfl⟩
    | server => exact absurd rfl hr
  · have hnil : P = [] := by
      rcases List.append_eq_singleton_iff.mp hP with ⟨hP, _⟩ | ⟨_, hnone⟩
      · exact hP
      · exact absurd hnone hmore
    exact empty_quiet hpg.idles hnil
  · cases role with
    | client => exact empty_quiet hpg.idles hclient
    | server => exact empty_quiet hpg.idles hserver

/-- **One refused round**: a record of the request, a record of the refusal, and both sides go on in
cleartext. -/
theorem round_run {ask answer : List (Role × Bytes)} (hask : bytesOf .client ask = q.wire)
    (hsilent : bytesOf .server ask = []) (hwait : bytesOf .client answer = [])
    (hanswer : bytesOf .server answer = [refuseByte]) :
    ∃ e e' m', run (arriveStep pg) (conn, m) (ask ++ answer) = ((conn.asked, m'), [e, e']) ∧
      sidedRecord e = some (.client, requestRecord q) ∧ sidedRecord e' = some (.server, refusalRecord q) := by
  obtain ⟨e, he, hrequest⟩ := request_run hpg hrec q h m hask hsilent
  obtain ⟨e', he', hanswer⟩ := answer_run hpg hrec q h (m.recordMessages conn.stats .in 1 8) hwait hanswer
  refine ⟨e, e', (m.recordMessages conn.stats .in 1 8).recordMessages conn.stats .out 1 1, ?_, he, he'⟩
  rw [run_append, hrequest, hanswer]
  rfl

end Round

/-! ### The session behind it -/

/-- The session as it should be reported after the requests `reqs` and their refusals: the records of
each round, then those of each side's stream, and no decode error. -/
structure DecodedAfter (pg : Decoder) (reqs : List NegotiationRequest) (streams : Role → Bytes)
    (events : List Event) : Prop where
  records : ∃ session, recordsIn events
      = (reqs.flatMap fun q => [(Role.client, requestRecord q), (Role.server, refusalRecord q)]) ++ session ∧
    ∀ role, (session.filterMap fun x => if x.1 = role then some x.2 else none)
      = (streamReport pg role (streams role)).records
  clean : ∀ e ∈ events, e.isDecodeError = false

theorem recordsIn_side (role : Role) (es : List Event) :
    ((recordsIn es).filterMap fun x => if x.1 = role then some x.2 else none) = recordsOf role es := by
  rw [recordsIn, List.filterMap_filterMap, recordsOf]
  congr 1
  funext e
  cases e <;> rfl

theorem requestsIn_records (es : List Event) :
    requestsIn es = (recordsIn es).countP fun x => x.1 == .client && isRequestKind x.2.1 := by
  rw [recordsIn, List.countP_filterMap, requestsIn]
  congr 1
  funext e
  cases e <;> rfl

/-- A cleartext session of a connection that has decoded nothing of it yet. -/
theorem session_decoded {pg : Decoder} (hpg : pg.Lawful) {conn : Connection} (hsided : conn.Sided)
    (henc : conn.encrypted = false) (hempty : ∀ role, (conn.dir role).rxbuf = [])
    (hstart : ∀ role, Starts (conn.dir role)) (m : Metrics) {streams : Role → Bytes}
    (hstreams : ∀ role, IsStream pg role (streams role)) {as : List (Role × Bytes)}
    (has : ∀ role, bytesOf role as = streams role) :
    (∀ role, recordsOf role (run (arriveStep pg) (conn, m) as).2
        = (streamReport pg role (streams role)).records) ∧
      ∀ e ∈ (run (arriveStep pg) (conn, m) as).2, e.isDecodeError = false := by
  have htracks : Tracks pg conn.dir (fun _ => []) conn.dir [] := by
    have hself : conn.dir = fun role => { conn.dir role with rxbuf := [] } := by
      funext role
      rw [← hempty role]
    have htracks : Tracks pg conn.dir (fun _ => []) (fun role => { conn.dir role with rxbuf := [] }) [] :=
      tracks_start hpg.consumes fun role => empty_quiet hpg.idles rfl
    rwa [← hself] at htracks
  obtain ⟨conn', m', events, hrun, htracks', _⟩ := arrivals_track hpg.consumes hsided
    (fun role => (stream_smooth hpg (hsided role) (hstart role) (hstreams role)).1) as conn m m [] _
    htracks henc (Counted.refl _ m) fun role => (has role).symm
  rw [hrun]
  refine ⟨?_, fun e he => htracks'.clean e (by simpa using he)⟩
  intro role
  rw [← htracks'.reported hpg hsided hstart hstreams role]
  rfl

/-- What is captured, in order, of refused rounds: in each the client sends a request, and then the
server its refusal. -/
inductive Refused : List NegotiationRequest → List (Role × Bytes) → Prop
  | nil : Refused [] []
  | round {q : NegotiationRequest} {reqs : List NegotiationRequest} {ask answer rest : List (Role × Bytes)}
      (hask : bytesOf .client ask = q.wire) (hsilent : bytesOf .server ask = [])
      (hwait : bytesOf .client answer = []) (hanswer : bytesOf .server answer = [refuseByte])
      (hrest : Refused reqs rest) : Refused (q :: reqs) (ask ++ answer ++ rest)

/-- The capture, in order, of a session behind refused rounds. -/
structure CapturedAfter (pgPort : UInt16) (reqs : List NegotiationRequest) (streams : Role → Bytes)
    (segs : List TcpSegment) : Prop where
  split : ∃ negotiation session, arrivalsOf pgPort segs = negotiation ++ session ∧
    Refused reqs negotiation ∧ ∀ role, bytesOf role session = streams role
  inOrder : ∀ role, InOrder none (segmentsOf pgPort role segs) (bytesOf role (arrivalsOf pgPort segs))

/-- Two rounds are never reported. -/
theorem not_decoded_of_two {pg : Decoder} (hpg : pg.Lawful) (pgPort : UInt16) (stats : ConnId)
    (client : SocketAddr) (m₀ : Metrics) {reqs : List NegotiationRequest} (hmore : ¬reqs.length ≤ 1)
    (streams : Role → Bytes) (segs : List TcpSegment) :
    ¬DecodedAfter pg reqs streams (run (connStep pg pgPort) (Connection.new stats client, m₀) segs).2 := by
  rintro ⟨⟨rest, hrecords, _⟩, _⟩
  obtain ⟨q, q', reqs, rfl⟩ : ∃ q q' reqs', reqs = q :: q' :: reqs' := by
    match reqs, hmore with
    | q :: q' :: reqs', _ => exact ⟨q, q', reqs', rfl⟩
    | [_], hmore => simp at hmore
    | [], hmore => simp at hmore
  have hone := requests_le_one hpg.toStepwise pgPort stats client m₀ segs
  rw [requestsIn_records, hrecords] at hone
  have hkind : ∀ q, isRequestKind (requestRecord q).1 = true := fun q => by cases q <;> decide
  simp [hkind] at hone

/-- **A negotiation leaves the connection decodable exactly if it took at most one round.**  The first
request clears the flag under which requests are recognised. -/
theorem negotiated_iff (pg : Decoder) (hpg : pg.Lawful) (hrec : pg.Recognises) (pgPort : UInt16)
    (stats : ConnId) (client : SocketAddr) (m₀ : Metrics) (reqs : List NegotiationRequest)
    (streams : Role → Bytes) (hstreams : ∀ role, IsStream pg role (streams role)) (segs : List TcpSegment)
    (hcaptured : CapturedAfter pgPort reqs streams segs) :
    DecodedAfter pg reqs streams (run (connStep pg pgPort) (Connection.new stats client, m₀) segs).2 ↔
      reqs.length ≤ 1 := by
  obtain ⟨⟨negotiation, session, hsplit, hrefused, hsession⟩, hinOrder⟩ := hcaptured
  have hrun := inOrder_run hpg.consumes pgPort segs (Connection.new stats client) m₀
    (fun role => by cases role <;> rfl) (fun role => bytesOf role (arrivalsOf pgPort segs))
    fun role => by cases role <;> exact hinOrder _
  rw [show (Connection.new stats client).forget = Connection.new stats client from rfl, hsplit] at hrun
  have hevents := congrArg Prod.snd hrun
  constructor
  · intro hdecoded
    by_contra hmore
    exact not_decoded_of_two hpg pgPort stats client m₀ hmore streams segs hdecoded
  · intro hle
    have hstart : ∀ role, Starts ((Connection.new stats client).dir role) := by
      intro role
      cases role <;> exact new_starts _ client
    cases hrefused with
    | nil =>
      rw [List.nil_append] at hevents
      obtain ⟨hrecords, hclean⟩ := session_decoded hpg (sided_new stats client) rfl
        (fun role => by cases role <;> rfl) hstart m₀ hstreams hsession
      rw [hevents] at hrecords hclean
      exact ⟨⟨_, rfl, fun role => (recordsIn_side role _).trans (hrecords role)⟩, hclean⟩
    | @round q reqs ask answer rest hask hsilent hwait hanswer hrest =>
      obtain rfl : reqs = [] := by simpa using hle
      cases hrest
      have hasks : Asks (Connection.new stats client) :=
        ⟨sided_new stats client, rfl, fun role => by cases role <;> rfl, rfl, rfl, rfl⟩
      obtain ⟨e, e', m', hround, he, he'⟩ := round_run hpg hrec q hasks m₀ hask hsilent hwait hanswer
      have hstart' : ∀ role, Starts ((Connection.new stats client).asked.dir role) := by
        intro role
        cases role
        · exact ⟨.inr rfl, rfl⟩
        · exact ⟨.inl rfl, rfl⟩
      obtain ⟨hrecords, hclean⟩ := session_decoded hpg (fun role => by cases role <;> rfl) rfl
        (fun role => by cases role <;> rfl) hstart' m' hstreams hsession
      rw [List.append_nil, run_append, hround] at hevents
      refine ⟨⟨recordsIn (run (arriveStep pg) ((Connection.new stats client).asked, m') session).2, ?_,
        fun role => (recordsIn_side role _).trans (hrecords role)⟩, ?_⟩
      · rw [← hevents]
        simp [recordsIn, he, he']
      · rw [← hevents]
        intro ev hev
        rcases List.mem_append.mp hev with hev | hev
        · have hround : ∀ x ∈ [e, e'], sidedRecord x ≠ none := by simp [he, he']
          have := hround ev hev
          cases ev <;> simp_all [sidedRecord, Event.isDecodeError]
        · exact hclean ev hev

/-- A client's Startup, and a server that gets ready. -/
def greeting : Role → Bytes
  | .client => [0, 0, 0, 9, 0, 3, 0, 0, 0] ++ []
  | .server => [0x5a, 0, 0, 0, 5, 0x49] ++ []

theorem greeting_streams (role : Role) : IsStream framed role (greeting role) := by
  cases role with
  | client =>
    exact ⟨[0, 0, 0, 9, 0, 3, 0, 0, 0], [], ⟨⟨⟨3, 0, []⟩, by decide⟩, by decide, by decide, by decide⟩, .nil, rfl⟩
  | server => exact .message [0x5a, 0, 0, 0, 5, 0x49] [] ⟨.readyForQuery .idle, by decide⟩ .nil

/-- A refused GSS request, cut in two, and the greeting. -/
def refusedOnce : List TcpSegment :=
  [clientSegment 1 [0, 0, 0, 8, 0x04], clientSegment 6 [0xd2, 0x16, 0x30], serverSegment 7 [0x4e],
    clientSegment 9 [0, 0, 0, 9, 0, 3, 0, 0, 0], serverSegment 8 [0x5a, 0, 0, 0, 5, 0x49]]

theorem refusedOnce_captured : CapturedAfter 5432 [.gss] greeting refusedOnce := by
  refine ⟨⟨[(.client, [0, 0, 0, 8, 0x04]), (.client, [0xd2, 0x16, 0x30])] ++ [(.server, [0x4e])] ++ [],
    [(.client, [0, 0, 0, 9, 0, 3, 0, 0, 0]), (.server, [0x5a, 0, 0, 0, 5, 0x49])], by decide,
    .round (by decide) (by decide) (by decide) (by decide) .nil, fun role => by cases role <;> decide⟩,
    fun role => ?_⟩
  cases role with
  | client =>
    exact .data rfl (by decide) (.inl rfl) (.data rfl (by decide) (.inr rfl)
      (.data rfl (by decide) (.inr rfl) (.nil _)))
  | server => exact .data rfl (by decide) (.inl rfl) (.data rfl (by decide) (.inr rfl) (.nil _))

theorem negotiated_iff_once :
    DecodedAfter framed [.gss] greeting
      (run (connStep framed 5432) (Connection.new 1 noClient, Metrics.withLimits 10) refusedOnce).2 :=
  (negotiated_iff framed framed_lawful framed_recognises 5432 1 noClient (Metrics.withLimits 10) [.gss]
    greeting greeting_streams refusedOnce refusedOnce_captured).mpr (by decide)

/-- A client whose GSS request is refused, and who then asks for SSL. -/
def refusedTwice : List TcpSegment :=
  [clientSegment 1 [0, 0, 0, 8, 0x04, 0xd2, 0x16, 0x30], serverSegment 7 [0x4e],
    clientSegment 9 [0, 0, 0, 8, 0x04, 0xd2, 0x16, 0x2f], serverSegment 8 [0x4e],
    clientSegment 17 [0, 0, 0, 9, 0, 3, 0, 0, 0], serverSegment 9 [0x5a, 0, 0, 0, 5, 0x49]]

theorem refusedTwice_captured : CapturedAfter 5432 [.gss, .ssl] greeting refusedTwice := by
  refine ⟨⟨[(.client, [0, 0, 0, 8, 0x04, 0xd2, 0x16, 0x30])] ++ [(.server, [0x4e])]
      ++ ([(.client, [0, 0, 0, 8, 0x04, 0xd2, 0x16, 0x2f])] ++ [(.server, [0x4e])] ++ []),
    [(.client, [0, 0, 0, 9, 0, 3, 0, 0, 0]), (.server, [0x5a, 0, 0, 0, 5, 0x49])], by decide,
    .round (by decide) (by decide) (by decide) (by decide)
      (.round (by decide) (by decide) (by decide) (by decide) .nil),
    fun role => by cases role <;> decide⟩, fun role => ?_⟩
  cases role with
  | client =>
    exact .data rfl (by decide) (.inl rfl) (.data rfl (by decide) (.inr rfl)
      (.data rfl (by decide) (.inr rfl) (.nil _)))
  | server =>
    exact .data rfl (by decide) (.inl rfl) (.data rfl (by decide) (.inr rfl)
      (.data rfl (by decide) (.inr rfl) (.nil _)))

/-- The second request is not recognised, and the connection is not decoded as it should be. -/
theorem second_request_lost :
    (∀ role, IsStream framed role (greeting role)) ∧ CapturedAfter 5432 [.gss, .ssl] greeting refusedTwice ∧
      ¬DecodedAfter framed [.gss, .ssl] greeting
        (run (connStep framed 5432) (Connection.new 1 noClient, Metrics.withLimits 10) refusedTwice).2 :=
  ⟨greeting_streams, refusedTwice_captured,
    not_decoded_of_two framed_lawful 5432 1 noClient (Metrics.withLimits 10) (by decide) greeting refusedTwice⟩

end Tapgres.Flow
