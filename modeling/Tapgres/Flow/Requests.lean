import Tapgres.Flow.InOrder

/-!
# Requests for encryption

The monitor recognises an `SSLRequest` or a `GssEncRequest` while the client's SSL flag is set, and clears
the flag with the first one.

* `client_drain` — a drain of the client either runs dry or stops at a request, which it reports last;
* `requests_le_one` — no connection ever reports two requests.
-/

namespace Tapgres.Flow

open Tapgres.Net Tapgres.Pgwire Tapgres.Decode Tapgres.State Tapgres.Lib.Loop Tapgres.Lib.Run

/-! ### At most one request -/

/-- The kinds of the records that report a request. -/
def isRequestKind (kind : String) : Bool := kind == "SSLRequest" || kind == "GssEncRequest"

/-- The client's record of a request. -/
def isRequest : Event → Bool
  | .message emitter body _ => emitter.role == .client && isRequestKind body.record.1
  | _ => false

/-- The requests reported. -/
def requestsIn (es : List Event) : ℕ := es.countP isRequest

theorem requestsIn_append (es fs : List Event) :
    requestsIn (es ++ fs) = requestsIn es + requestsIn fs := List.countP_append

/-- The requests a direction may still report. -/
def mayRequest (d : Direction) : ℕ := if d.ctx.awaitingFrontendSsl then 1 else 0

/-- A record of another kind is no request. -/
theorem requestsIn_emit {kind : String} (hkind : isRequestKind kind = false) {emitter : MessageEmitter}
    {text : String} {detail : Option EventDetail} {n : ℕ} :
    requestsIn [.message emitter (.emit kind text detail) n] = 0 := by
  simp [requestsIn, isRequest, Body.record, hkind]

/-- A message reports a request only if it is one, and the SSL flag is cleared with it. -/
theorem handleFrontend_requests (d : Direction) (m : FrontendMessage) (o : DrainOutcome) (n : ℕ)
    (hssl : ∀ r, m = .sslNegotiation r → d.ctx.awaitingFrontendSsl = true) :
    requestsIn (handleFrontend d m o n).events + mayRequest (handleFrontend d m o n).dir ≤ mayRequest d := by
  have hone : ∀ emitter body, requestsIn [.message emitter body n] ≤ 1 := fun emitter body =>
    List.countP_le_length
  cases m with
  | sslNegotiation r =>
    rw [mayRequest, mayRequest, hssl r rfl]
    cases r with
    | none => exact Nat.zero_le 1
    | postgresSsl => exact hone _ _
    | postgresGss => exact hone _ _
  | _ =>
    -- a Startup changes the other flag
    exact le_of_eq ((congrArg (· + mayRequest d) (requestsIn_emit (by decide))).trans (Nat.zero_add _))

/-- The server's messages report no request, and leave the flag alone. -/
theorem handleBackend_requests (pg : Decoder) {d : Direction} (hd : d.role = .server) (m : BackendMessage)
    (o : DrainOutcome) (n : ℕ) :
    requestsIn (handleBackend pg d m o n).events + mayRequest (handleBackend pg d m o n).dir
      ≤ mayRequest d := by
  obtain ⟨_, body, hone⟩ := handleBackend_one pg m d o n
  have hnone : requestsIn (handleBackend pg d m o n).events = 0 := by
    rw [hone.events]
    simp [requestsIn, isRequest, Direction.emitter, hd]
  rw [hnone, Nat.zero_add, mayRequest, mayRequest, handleBackend_ctx]
  cases m <;> exact le_refl _

theorem client_role (m : FrontendMessage) (d : Direction) (o : DrainOutcome) (n : ℕ) :
    (handleFrontend d m o n).dir.role = d.role := by
  by_cases hpeek : m.isPeek = true
  · rw [handleFrontend_peek hpeek]
  · obtain ⟨_, hone⟩ := handleFrontend_one (by simpa using hpeek) d o n
    exact hone.role

/-- The state of a drain of `d` that has reported no more requests than `d` may. -/
def WithinRequests (d : Direction) (s : Draining) : Prop :=
  s.dir.role = d.role ∧ requestsIn s.events + mayRequest s.dir ≤ mayRequest d

theorem handled_within {d : Direction} {s : Draining} (hs : WithinRequests d s) {rest : Bytes}
    {h : Handled} (hrole : h.dir.role = s.dir.role)
    (hle : requestsIn h.events + mayRequest h.dir ≤ mayRequest { s.dir with rxbuf := rest }) :
    WithinRequests d ⟨h.dir, h.outcome, s.events ++ h.events⟩ := by
  refine ⟨hrole.trans hs.1, ?_⟩
  have hle' : requestsIn h.events + mayRequest h.dir ≤ mayRequest s.dir := hle
  have := hs.2
  rw [requestsIn_append]
  show _ + mayRequest h.dir ≤ _
  omega

/-- A turn of the drain, of either side, keeps within the requests. -/
theorem turn_within {pg : Decoder} (hpg : pg.Stepwise) {d : Direction} {s : Draining}
    (hs : WithinRequests d s) : (roleTurn pg d.role s).elim (WithinRequests d) (WithinRequests d) := by
  have herror : ∀ role e rest, WithinRequests d (decodeError role e rest s.dir.rxbuf.length s) := by
    intro role e rest
    refine ⟨hs.1, ?_⟩
    rw [decodeError, requestsIn_append]
    exact hs.2
  have hnext : ∀ h : Handled, WithinRequests d ⟨h.dir, h.outcome, s.events ++ h.events⟩ →
      (h.next s.events).elim (WithinRequests d) (WithinRequests d) := by
    intro h hh
    rw [Handled.next]
    split <;> exact hh
  rw [← hs.1]
  cases hside : s.dir.role with
  | client =>
    show (clientTurn pg s).elim _ _
    rw [clientTurn]
    rcases hdec : pg.decodeFrontend s.dir.rxbuf s.dir.ctx with ⟨e | _ | m, rest⟩
    · rw [drainTurn_error hdec]
      exact herror .client e rest
    · rw [drainTurn_none hdec]
      exact hs
    · rw [drainTurn_some hdec]
      refine hnext _ (handled_within hs (client_role m _ _ _)
        (handleFrontend_requests { s.dir with rxbuf := rest } m _ _ ?_))
      rintro r rfl
      exact hpg.negotiates.request _ _ _ _ hdec
  | server =>
    show (serverTurn pg s).elim _ _
    rw [serverTurn]
    rcases hdec : pg.decodeBackend s.dir.rxbuf s.dir.ctx with ⟨e | _ | m, rest⟩
    · rw [drainTurn_error hdec]
      exact herror .server e rest
    · rw [drainTurn_none hdec]
      exact hs
    · rw [drainTurn_some hdec]
      obtain ⟨_, _, hone⟩ := handleBackend_one pg m { s.dir with rxbuf := rest } s.outcome
        (s.dir.rxbuf.length - rest.length)
      exact hnext _ (handled_within hs hone.role
        (handleBackend_requests pg (d := { s.dir with rxbuf := rest }) hside m _ _))

/-- A drain reports no more requests than its direction may. -/
theorem drain_requests {pg : Decoder} (hpg : pg.Stepwise) (d : Direction) :
    requestsIn (drainDirection pg d {}).events + mayRequest (drainDirection pg d {}).dir ≤ mayRequest d :=
  (drain_kept hpg.consumes (WithinRequests d) ⟨rfl, by simp [requestsIn]⟩ fun _ _ hs =>
    turn_within hpg hs).2

theorem requestsIn_server {es : List Event} (h : ∀ e ∈ es, e.ofRole .server) : requestsIn es = 0 := by
  rw [requestsIn, List.countP_eq_zero]
  intro e he
  have := h e he
  cases e with
  | message emitter body wire =>
    simp only [Event.ofRole] at this
    simp [isRequest, this]
  | _ => simp [isRequest]

/-- A segment reports no more requests than the client's direction may. -/
theorem handle_requests {pg : Decoder} (hpg : pg.Stepwise) (pgPort : UInt16) {conn : Connection}
    (hsided : conn.Sided) (m : Metrics) (seg : TcpSegment) :
    requestsIn (conn.handle pg pgPort m seg).2.2 + mayRequest (conn.handle pg pgPort m seg).1.client
      ≤ mayRequest conn.client := by
  cases henc : conn.encrypted with
  | true =>
    rw [handle_encrypted pg pgPort m seg henc]
    simp [requestsIn]
  | false =>
    have hdrain := drain_requests hpg (conn.fed pgPort seg)
    have hrole := fed_role hsided pgPort seg
    have hof := (drain_account hpg.consumes (conn.fed pgPort seg)).ofRole
    rw [hrole] at hof
    rw [(handle_frame pg pgPort conn m seg henc).2.2.2]
    cases hside : segmentRole seg pgPort with
    | client =>
      have hmay : mayRequest (conn.fed pgPort seg) = mayRequest conn.client := by
        rw [mayRequest, fed_ctx, hside]
        rfl
      rw [(handle_client_side pg m henc hside).1, ← hmay]
      exact hdrain
    | server =>
      rw [(handle_server_side pg m henc hside).1, requestsIn_server (hside ▸ hof), Nat.zero_add]

/-- A connection that has reported one request at most, and may report another only if it has not. -/
def WithinOne (s : Connection × Metrics) (out : List Event) : Prop :=
  s.1.Sided ∧ requestsIn out + mayRequest s.1.client ≤ 1

/-- **No connection reports two requests**, whatever its segments. -/
theorem requests_le_one {pg : Decoder} (hpg : pg.Stepwise) (pgPort : UInt16) (stats : ConnId)
    (client : SocketAddr) (m₀ : Metrics) (segs : List TcpSegment) :
    requestsIn (run (connStep pg pgPort) (Connection.new stats client, m₀) segs).2 ≤ 1 := by
  have h0 : WithinOne (Connection.new stats client, m₀) [] := ⟨sided_new stats client, Nat.le_refl 1⟩
  have hinv := run_invariant (connStep pg pgPort) (fun _ s out => WithinOne s out) h0 ?_ segs
  · exact le_trans (Nat.le_add_right _ _) hinv.2
  · rintro past ⟨conn, m⟩ out seg ⟨hsided, hle⟩
    have hsided' : conn.Sided := hsided
    have hle' : requestsIn out + mayRequest conn.client ≤ 1 := hle
    have hstep := handle_requests hpg pgPort hsided' m seg
    refine ⟨(handle_spec hpg.consumes pgPort hsided' m seg).sided, ?_⟩
    show requestsIn (out ++ (conn.handle pg pgPort m seg).2.2)
      + mayRequest (conn.handle pg pgPort m seg).1.client ≤ 1
    rw [requestsIn_append]
    omega

/-! ### A drain of the client -/

/-- Draining stops at a request, reports it, and asks for the server's answer; it goes on behind any other
message. -/
theorem handleFrontend_stops {d : Direction} (hrole : d.role = .client) (m : FrontendMessage)
    (o : DrainOutcome) (n : ℕ) :
    ((handleFrontend d m o n).more = true ∧ requestsIn (handleFrontend d m o n).events = 0 ∧
        (handleFrontend d m o n).outcome.serverNegotiationWait = o.serverNegotiationWait) ∨
      ((handleFrontend d m o n).more = false ∧
        (∃ e, (handleFrontend d m o n).events = [e] ∧ isRequest e = true) ∧
        (handleFrontend d m o n).outcome.serverNegotiationWait ≠ .none) := by
  obtain ⟨role, client, nextSeq, ooo, rxbuf, ctx, rowDesc⟩ := d
  simp only at hrole
  subst hrole
  cases m with
  | sslNegotiation r =>
    cases r with
    | none => exact .inl ⟨rfl, rfl, rfl⟩
    | _ => exact .inr ⟨rfl, ⟨_, rfl, rfl⟩, nofun⟩
  | _ => exact .inl ⟨rfl, requestsIn_emit (by decide), rfl⟩

/-- **A drain of the client** runs dry, and has reported no request, or stops at the one it reports last
and asks for the server's answer. -/
theorem client_drain {pg : Decoder} (hpg : pg.Stepwise) {d : Direction} (hrole : d.role = .client) :
    (Quiet pg (drainDirection pg d {}).dir ∧ requestsIn (drainDirection pg d {}).events = 0 ∧
        (drainDirection pg d {}).outcome.serverNegotiationWait = .none) ∨
      ((∃ es e, (drainDirection pg d {}).events = es ++ [e] ∧ requestsIn es = 0 ∧ isRequest e = true) ∧
        (drainDirection pg d {}).outcome.serverNegotiationWait ≠ .none) := by
  have hside : roleTurn pg d.role = clientTurn pg := by
    rw [hrole]
    rfl
  have hends := drainDirection_ends hpg.consumes d
  rw [hside] at hends
  refine Ends.invariant
    (fun s => s.dir.role = .client ∧ requestsIn s.events = 0 ∧ s.outcome.serverNegotiationWait = .none)
    (fun r => (Quiet pg r.dir ∧ requestsIn r.events = 0 ∧ r.outcome.serverNegotiationWait = .none) ∨
      ((∃ es e, r.events = es ++ [e] ∧ requestsIn es = 0 ∧ isRequest e = true) ∧
        r.outcome.serverNegotiationWait ≠ .none)) ?_ ?_ ⟨hrole, rfl, rfl⟩ hends
  · rintro s s' ⟨hs, hnone, hwait⟩ hturn
    rw [clientTurn] at hturn
    rcases hdec : pg.decodeFrontend s.dir.rxbuf s.dir.ctx with ⟨e | _ | m, rest⟩
    · rw [drainTurn_error hdec] at hturn
      cases hturn
    · rw [drainTurn_none hdec] at hturn
      cases hturn
    · rw [drainTurn_some hdec, Handled.next] at hturn
      rcases handleFrontend_stops (d := { s.dir with rxbuf := rest }) hs m s.outcome
        (s.dir.rxbuf.length - rest.length) with ⟨hmore, hevents, hkept⟩ | ⟨hmore, _, _⟩
      · rw [if_pos hmore] at hturn
        obtain rfl := Sum.inl.inj hturn
        exact ⟨(client_role m _ _ _).trans hs, by rw [requestsIn_append, hnone, hevents],
          hkept.trans hwait⟩
      · rw [hmore] at hturn
        cases hturn
  · rintro s r ⟨hs, hnone, hwait⟩ hturn
    rw [clientTurn] at hturn
    rcases hdec : pg.decodeFrontend s.dir.rxbuf s.dir.ctx with ⟨e | _ | m, rest⟩
    · rw [drainTurn_error hdec] at hturn
      obtain rfl := Sum.inr.inj hturn
      exact .inl ⟨empty_quiet hpg.idles rfl, by rw [decodeError, requestsIn_append, hnone]; rfl, hwait⟩
    · rw [drainTurn_none hdec] at hturn
      obtain rfl := Sum.inr.inj hturn
      obtain rfl := hpg.consumes.frontend_none _ _ _ hdec
      refine .inl ⟨?_, hnone, hwait⟩
      rw [Quiet]
      simp only [hs]
      exact hdec
    · rw [drainTurn_some hdec, Handled.next] at hturn
      rcases handleFrontend_stops (d := { s.dir with rxbuf := rest }) hs m s.outcome
        (s.dir.rxbuf.length - rest.length) with ⟨hmore, _, _⟩ | ⟨hmore, ⟨e, hevents, he⟩, hasks⟩
      · rw [hmore] at hturn
        cases hturn
      · rw [hmore] at hturn
        obtain rfl := Sum.inr.inj hturn
        exact .inr ⟨⟨s.events, e, by rw [hevents], hnone, he⟩, hasks⟩

end Tapgres.Flow
