import Tapgres.Decode.Answer
import Tapgres.Flow.Accounting
import Tapgres.Flow.Requests
import Tapgres.Lib.Window
import Tapgres.Pgwire.Framed

/-!
# While an answer to a request is awaited

A request for encryption stops the drain of the client and arms the server's direction for the answer.
What is held back behind the request is the client's next segment's to decode, and nothing but a segment
of the client's makes its buffer be drained:

* `handle_awaits` — what a segment does to the two directions, as far as the answer is concerned;
* `decoded_iff` — a refusal leaves undecoded what the client's buffer holds behind the request;
* `heldBack_iff` — a segment of the client's that arrives before the answer is decoded at once.
-/

namespace Tapgres.Flow

open Tapgres.Net Tapgres.Pgwire Tapgres.Decode Tapgres.State Tapgres.Lib.Run Tapgres.Lib.Window

/-- The server's answer to a request is awaited. -/
def Connection.Awaits (conn : Connection) : Prop := AwaitsAnswer conn.server.ctx

instance (conn : Connection) : Decidable conn.Awaits := inferInstanceAs (Decidable (AwaitsAnswer _))

/-- Of a connection: at most one answer is awaited, and none before the client's request. -/
structure OneAnswer (conn : Connection) : Prop where
  sided : conn.Sided
  exclusive : ¬(conn.server.ctx.awaitingBackendSslResponse = true ∧
    conn.server.ctx.awaitingBackendGssResponse = true)
  unasked : conn.client.ctx.awaitingFrontendSsl = true → ¬conn.Awaits

theorem oneAnswer_new (stats : ConnId) (client : SocketAddr) : OneAnswer (Connection.new stats client) :=
  ⟨sided_new stats client, nofun, fun _ h => h.elim nofun nofun⟩

/-! ### One segment -/

/-- What a segment does: nothing to an encrypted connection; from the client, a drain that runs dry or
stops at a request; from the server, a drain that decodes the awaited answer or none. -/
inductive AwaitStep (pg : Decoder) (pgPort : UInt16) (conn : Connection) (seg : TcpSegment) :
    Connection → List Event → Prop
  | encrypted (henc : conn.encrypted = true) : AwaitStep pg pgPort conn seg conn []
  | dry {conn' : Connection} {es : List Event} (henc : conn.encrypted = false)
      (hside : segmentRole seg pgPort = .client) (henc' : conn'.encrypted = false)
      (hserver : conn'.server = conn.server) (hquiet : Quiet pg conn'.client)
      (hof : ∀ e ∈ es, e.ofRole .client) (hnone : requestsIn es = 0)
      (hsilent : conn.Awaits → (es = [] ↔ Quiet pg (conn.fed pgPort seg))) :
      AwaitStep pg pgPort conn seg conn' es
  | request {conn' : Connection} {es : List Event} {e : Event} (henc : conn.encrypted = false)
      (hside : segmentRole seg pgPort = .client) (henc' : conn'.encrypted = false)
      (hfirst : ¬conn.Awaits) (hawaits : conn'.Awaits) (hof : ∀ x ∈ es ++ [e], x.ofRole .client)
      (hnone : requestsIn es = 0) (he : isRequest e = true) :
      AwaitStep pg pgPort conn seg conn' (es ++ [e])
  | unanswered {conn' : Connection} {es : List Event} (henc : conn.encrypted = false)
      (hside : segmentRole seg pgPort = .server) (henc' : conn'.encrypted = false)
      (hclient : conn'.client = conn.client) (hsame : conn'.Awaits ↔ conn.Awaits)
      (hof : ∀ e ∈ es, e.ofRole .server) (hreply : ∀ e ∈ es, e.isReply = false)
      (hnone : conn.Awaits → ∀ m rest, pg.decodeBackend (conn.fed pgPort seg).rxbuf
        (conn.fed pgPort seg).ctx ≠ (.ok (some m), rest)) :
      AwaitStep pg pgPort conn seg conn' es
  | answer {conn' : Connection} {m : BackendMessage} {rest : Bytes} {e : Event} {es : List Event}
      (henc : conn.encrypted = false) (hside : segmentRole seg pgPort = .server) (hawaits : conn.Awaits)
      (hdec : pg.decodeBackend (conn.fed pgPort seg).rxbuf (conn.fed pgPort seg).ctx = (.ok (some m), rest))
      (henc' : conn'.encrypted = m.isAccept) (hclient : conn'.client = conn.client)
      (hnone : ¬conn'.Awaits) (hof : ∀ x ∈ e :: es, x.ofRole .server) (he : e.isReply = true) :
      AwaitStep pg pgPort conn seg conn' (e :: es)

theorem armServer_awaits {wait : ServerNegotiationWait} (hwait : wait ≠ .none) (server : Direction) :
    AwaitsAnswer (armServer wait server).ctx := by
  cases wait with
  | none => exact absurd rfl hwait
  | ssl => exact .inl rfl
  | gss => exact .inr rfl

theorem armServer_exclusive {server : Direction} (hnone : ¬AwaitsAnswer server.ctx)
    (wait : ServerNegotiationWait) :
    ¬((armServer wait server).ctx.awaitingBackendSslResponse = true ∧
      (armServer wait server).ctx.awaitingBackendGssResponse = true) := by
  cases wait with
  | none => exact fun h => hnone (.inl h.1)
  | ssl => exact fun h => hnone (.inr h.2)
  | gss => exact fun h => hnone (.inl h.1)

section Step

variable {pg : Decoder} (hpg : pg.Stepwise)
include hpg

/-- A segment of the client's. -/
theorem handle_awaits_client (pgPort : UInt16) {conn : Connection} (h : OneAnswer conn) (m : Metrics)
    {seg : TcpSegment} (henc : conn.encrypted = false) (hside : segmentRole seg pgPort = .client) :
    OneAnswer (conn.handle pg pgPort m seg).1 ∧
      AwaitStep pg pgPort conn seg (conn.handle pg pgPort m seg).1 (conn.handle pg pgPort m seg).2.2 := by
  have hsided := (handle_spec hpg.consumes pgPort h.sided m seg).sided
  obtain ⟨_, _, hencrypted, hevents⟩ := handle_frame pg pgPort conn m seg henc
  obtain ⟨hclient, hserver⟩ := handle_client_side pg m henc hside
  have hrole : (conn.fed pgPort seg).role = .client := (fed_role h.sided pgPort seg).trans hside
  have hctx : (conn.fed pgPort seg).ctx = conn.client.ctx := by
    rw [fed_ctx, hside]
    rfl
  have hacc := drain_account hpg.consumes (conn.fed pgPort seg)
  have henc' : (conn.handle pg pgPort m seg).1.encrypted = false := by
    rw [hencrypted, hacc.encrypted, List.any_eq_false]
    simpa using client_drain_no_accept hpg.consumes hrole
  have hof := hacc.ofRole
  rw [hrole] at hof
  have hmay := drain_requests hpg (conn.fed pgPort seg)
  rw [← hclient, mayRequest, mayRequest, hctx] at hmay
  have hsilent : conn.Awaits → ((drainDirection pg (conn.fed pgPort seg) {}).events = [] ↔
      Quiet pg (conn.fed pgPort seg)) := by
    intro hawaits
    apply drain_silent hpg.consumes
    intro _
    rw [hctx]
    by_contra hflag
    exact h.unasked (by simpa using hflag) hawaits
  rw [hevents]
  rcases client_drain hpg hrole with ⟨hquiet, hnone, hwait⟩ | ⟨⟨es, e, hes, hnone, he⟩, hwait⟩
  · rw [hwait] at hserver
    have hsame : (conn.handle pg pgPort m seg).1.server = conn.server := hserver
    refine ⟨⟨hsided, hsame ▸ h.exclusive, ?_⟩,
      .dry henc hside henc' hsame (hclient ▸ hquiet) hof hnone hsilent⟩
    intro hflag
    rw [if_pos hflag, hnone] at hmay
    have hbefore : conn.client.ctx.awaitingFrontendSsl = true := by
      by_contra hoff
      rw [if_neg hoff] at hmay
      omega
    show ¬AwaitsAnswer (conn.handle pg pgPort m seg).1.server.ctx
    rw [hsame]
    exact h.unasked hbefore
  · have hone : requestsIn (es ++ [e]) = 1 := by
      rw [requestsIn_append, hnone]
      simp [requestsIn, he]
    rw [hes, hone] at hmay
    have hbefore : conn.client.ctx.awaitingFrontendSsl = true := by
      by_contra hoff
      rw [if_neg hoff] at hmay
      omega
    have hfirst := h.unasked hbefore
    have hawaits : (conn.handle pg pgPort m seg).1.Awaits := by
      rw [Connection.Awaits, hserver]
      exact armServer_awaits hwait conn.server
    rw [hes] at hof ⊢
    refine ⟨⟨hsided, ?_, ?_⟩, .request henc hside henc' hfirst hawaits hof hnone he⟩
    · rw [hserver]
      exact armServer_exclusive hfirst _
    · intro hflag
      rw [if_pos hflag, if_pos hbefore] at hmay
      omega

/-- A segment of the server's. -/
theorem handle_awaits_server (hreplies : pg.Replies) (pgPort : UInt16) {conn : Connection}
    (h : OneAnswer conn) (m : Metrics) {seg : TcpSegment} (henc : conn.encrypted = false)
    (hside : segmentRole seg pgPort = .server) :
    OneAnswer (conn.handle pg pgPort m seg).1 ∧
      AwaitStep pg pgPort conn seg (conn.handle pg pgPort m seg).1 (conn.handle pg pgPort m seg).2.2 := by
  have hsided := (handle_spec hpg.consumes pgPort h.sided m seg).sided
  obtain ⟨_, _, hencrypted, hevents⟩ := handle_frame pg pgPort conn m seg henc
  obtain ⟨hclient, hserver⟩ := handle_server_side pg m henc hside
  have hrole : (conn.fed pgPort seg).role = .server := (fed_role h.sided pgPort seg).trans hside
  have hctx : (conn.fed pgPort seg).ctx = conn.server.ctx := by
    rw [fed_ctx, hside]
    rfl
  have hof := (drain_account hpg.consumes (conn.fed pgPort seg)).ofRole
  rw [hrole] at hof
  rw [hevents]
  -- no answer is awaited afterwards that was not before, in any of the cases
  have hone : ∀ ctx, (drainDirection pg (conn.fed pgPort seg) {}).dir.ctx = ctx →
      (¬AwaitsAnswer ctx ∨ ctx = conn.server.ctx) → OneAnswer (conn.handle pg pgPort m seg).1 := by
    rintro ctx hdrained hctx'
    refine ⟨hsided, ?_, ?_⟩
    · rw [hserver, hdrained]
      rcases hctx' with hnone | rfl
      · exact fun hboth => hnone (.inl hboth.1)
      · exact h.exclusive
    · intro hflag
      rw [hclient] at hflag
      rw [Connection.Awaits, hserver, hdrained]
      rcases hctx' with hnone | rfl
      · exact hnone
      · exact h.unasked hflag
  by_cases hawaits : conn.Awaits
  · rcases drain_awaited hpg hreplies hrole (hctx ▸ hawaits) (hctx ▸ h.exclusive) with
      ⟨hnone, hsame, hclear, hreply⟩ | ⟨ans, rest, e, hdec, he, hunawaited⟩
    · refine ⟨hone _ hsame (.inr hctx), .unanswered henc hside (hencrypted.trans hclear) hclient ?_ hof
        hreply fun _ => hnone⟩
      rw [Connection.Awaits, hserver, hsame, hctx]
      rfl
    · obtain ⟨es, hes, _⟩ := hunawaited.events
      refine ⟨hone _ rfl (.inl hunawaited.none), ?_⟩
      rw [hes] at hof ⊢
      refine .answer henc hside hawaits hdec (hencrypted.trans hunawaited.encrypted) hclient ?_ hof he
      rw [Connection.Awaits, hserver]
      exact hunawaited.none
  · have hunawaited := drain_unawaited hpg hrole (hctx ▸ hawaits)
    obtain ⟨es, hes, hreply⟩ := hunawaited.events
    rw [List.nil_append] at hes
    refine ⟨hone _ rfl (.inl hunawaited.none), .unanswered henc hside
      (hencrypted.trans hunawaited.encrypted) hclient ?_ hof (hes ▸ hreply) fun h => absurd h hawaits⟩
    rw [Connection.Awaits, hserver]
    exact iff_of_false hunawaited.none hawaits

/-- **What a segment does while an answer is awaited**, and before and after. -/
theorem handle_awaits (hreplies : pg.Replies) (pgPort : UInt16) {conn : Connection} (h : OneAnswer conn)
    (m : Metrics) (seg : TcpSegment) :
    OneAnswer (conn.handle pg pgPort m seg).1 ∧
      AwaitStep pg pgPort conn seg (conn.handle pg pgPort m seg).1 (conn.handle pg pgPort m seg).2.2 := by
  cases henc : conn.encrypted with
  | true =>
    rw [handle_encrypted pg pgPort m seg henc]
    exact ⟨h, .encrypted henc⟩
  | false =>
    cases hside : segmentRole seg pgPort with
    | client => exact handle_awaits_client hpg pgPort h m henc hside
    | server => exact handle_awaits_server hpg hreplies pgPort h m henc hside

end Step

/-! ### What is left undecoded -/

/-- pgwire finds nothing in the client's buffer. -/
def ClientDry (pg : Decoder) (conn : Connection) : Prop :=
  pg.decodeFrontend conn.client.rxbuf conn.client.ctx = (.ok none, conn.client.rxbuf)

instance (pg : Decoder) (conn : Connection) : Decidable (ClientDry pg conn) :=
  inferInstanceAs (Decidable (_ = _))

theorem clientDry_iff {pg : Decoder} {conn : Connection} (hsided : conn.Sided) :
    ClientDry pg conn ↔ Quiet pg conn.client := by
  rw [Quiet, show conn.client.role = .client from hsided .client]
  exact Iff.rfl

/-- No complete message of the client's is left undecoded, unless the connection is encrypted or an
answer is awaited. -/
def NothingUndecoded (pg : Decoder) (conn : Connection) : Prop :=
  conn.encrypted = false → ¬conn.Awaits → ClientDry pg conn

/-- The condition on a segment: an answer other than an acceptance finds nothing behind the request that
pgwire could decode. -/
def RefusalFindsNothing (pg : Decoder) (pgPort : UInt16) (s : Connection × Metrics) (seg : TcpSegment) :
    Prop :=
  s.1.encrypted = false → s.1.Awaits → segmentRole seg pgPort = .server →
    ∀ m rest, pg.decodeBackend (s.1.fed pgPort seg).rxbuf (s.1.fed pgPort seg).ctx = (.ok (some m), rest) →
      m.isAccept = false → ClientDry pg s.1

/-- **The step lemma**: a segment leaves nothing undecoded exactly if it meets the condition. -/
theorem step_undecoded_iff {pg : Decoder} (hpg : pg.Stepwise) (hreplies : pg.Replies) (pgPort : UInt16)
    {conn : Connection} (h : OneAnswer conn) (m : Metrics) (seg : TcpSegment)
    (hgood : NothingUndecoded pg conn) :
    NothingUndecoded pg (conn.handle pg pgPort m seg).1 ↔ RefusalFindsNothing pg pgPort (conn, m) seg := by
  obtain ⟨h', hstep⟩ := handle_awaits hpg hreplies pgPort h m seg
  generalize conn.handle pg pgPort m seg = r at h' hstep
  obtain ⟨conn', m', es⟩ := r
  have hclientDry : conn'.client = conn.client → (ClientDry pg conn' ↔ ClientDry pg conn) := by
    intro hclient
    rw [ClientDry, ClientDry, hclient]
  cases hstep with
  | encrypted henc => exact iff_of_true hgood fun henc' => absurd (henc.symm.trans henc') (by decide)
  | dry henc hside henc' hserver hquiet hof hnone hsilent =>
    exact iff_of_true (fun _ _ => (clientDry_iff h'.sided).mpr hquiet)
      fun _ _ hside' => absurd (hside.symm.trans hside') (by decide)
  | request henc hside henc' hfirst hawaits hof hnone he =>
    exact iff_of_true (fun _ hnot => absurd hawaits hnot)
      fun _ _ hside' => absurd (hside.symm.trans hside') (by decide)
  | unanswered henc hside henc' hclient hsame hof hreply hnone =>
    refine iff_of_true (fun _ hnot => ?_) fun _ hawaits _ ans rest hdec => ?_
    · exact (hclientDry hclient).mpr (hgood henc fun hawaits => hnot (hsame.mpr hawaits))
    · exact absurd hdec (hnone hawaits ans rest)
  | @answer _ ans rest _ _ henc hside hawaits hdec henc' hclient hnone hof he =>
    constructor
    · intro hgood' _ _ _ ans' rest' hdec' hrefuses
      obtain ⟨hans, _⟩ := Prod.mk.inj (hdec.symm.trans hdec')
      obtain rfl := Option.some.inj (Except.ok.inj hans)
      exact (hclientDry hclient).mp (hgood' (henc'.trans hrefuses) hnone)
    · intro hok hclear _
      exact (hclientDry hclient).mpr (hok henc hawaits hside ans rest hdec (henc'.symm.trans hclear))

/-- **No complete message of the client's is left undecoded**, in any state of a run, exactly if every
refusal in it finds nothing behind the request. -/
theorem decoded_iff (pg : Decoder) (hpg : pg.Stepwise) (hreplies : pg.Replies) (pgPort : UInt16)
    (stats : ConnId) (client : SocketAddr) (m₀ : Metrics) (segs : List TcpSegment) :
    (∀ pre post, segs = pre ++ post →
        NothingUndecoded pg (run (connStep pg pgPort) (Connection.new stats client, m₀) pre).1.1) ↔
      Meets (connStep pg pgPort) (RefusalFindsNothing pg pgPort) (Connection.new stats client, m₀) segs :=
  always_iff_meets (connStep pg pgPort) (fun s => OneAnswer s.1) (fun s => NothingUndecoded pg s.1)
    (fun s seg h => (handle_awaits hpg hreplies pgPort h s.2 seg).1)
    (fun s seg h hgood => step_undecoded_iff hpg hreplies pgPort h s.2 seg hgood)
    (oneAnswer_new stats client)
    (fun _ _ => show ClientDry pg (Connection.new stats client) from hpg.idles.frontend _) segs

/-- A client's request with nothing behind it, the refusal, and the Startup. -/
def startupAfterRefusal : List TcpSegment :=
  [clientSegment 1 NegotiationRequest.ssl.wire, serverSegment 7 [refuseByte],
    clientSegment 9 [0, 0, 0, 9, 0, 3, 0, 0, 0]]

theorem decoded_iff_refused : NothingUndecoded framed
    (run (connStep framed 5432) (Connection.new 1 noClient, Metrics.withLimits 10) startupAfterRefusal).1.1 :=
  (decoded_iff framed framed_lawful.toStepwise framed_replies 5432 1 noClient (Metrics.withLimits 10)
    startupAfterRefusal).mpr
    ⟨fun _ _ hside => absurd hside (by decide), fun _ _ _ _ _ _ _ => by decide,
      fun _ _ hside => absurd hside (by decide), trivial⟩ startupAfterRefusal [] (by simp)

/-- The Startup lies behind the request already, and the refusal comes after. -/
def startupBehindRequest : List TcpSegment :=
  [clientSegment 1 (NegotiationRequest.ssl.wire ++ [0, 0, 0, 9, 0, 3, 0, 0, 0]), serverSegment 7 [refuseByte]]

/-- The refusal is decoded, and the Startup is not. -/
theorem startup_left_undecoded :
    let conn := (run (connStep framed 5432) (Connection.new 1 noClient, Metrics.withLimits 10)
      startupBehindRequest).1.1
    conn.client.rxbuf = [0, 0, 0, 9, 0, 3, 0, 0, 0] ∧ ¬NothingUndecoded framed conn := by
  refine ⟨by decide, ?_⟩
  intro h
  have hdry := h (by decide) (by decide)
  exact absurd hdry (by decide)

/-! ### What is decoded too early -/

/-- A request stands in the events with no answer behind it. -/
abbrev Asking (es : List Event) : Prop := Open (isRequest · = true) (Event.isReply · = true) es

/-- Behind a request, and before its answer, nothing of the client's is reported. -/
abbrev Silent (es : List Event) : Prop :=
  NoneWhileOpen (isRequest · = true) (Event.isReply · = true) (Event.ofRole .client) es

/-- While the answer to a request is awaited, nothing of the client's is reported; so nothing of the
client's behind the request is, if the answer accepts. -/
structure HeldBack (es : List Event) : Prop where
  silent : Silent es
  accepted : ∀ pre o mid a post, es = pre ++ o :: (mid ++ a :: post) → isRequest o = true →
    (∀ x ∈ mid, x.isReply = false) → a.isAccept = true → ∀ x ∈ mid ++ post, ¬x.ofRole .client

/-- The condition on a segment: while an answer is awaited, pgwire finds nothing in the client's buffer
with the segment fed to it. -/
def ClientWaits (pg : Decoder) (pgPort : UInt16) (s : Connection × Metrics) (seg : TcpSegment) : Prop :=
  s.1.encrypted = false → s.1.Awaits → segmentRole seg pgPort = .client →
    pg.decodeFrontend (s.1.fed pgPort seg).rxbuf (s.1.fed pgPort seg).ctx
      = (.ok none, (s.1.fed pgPort seg).rxbuf)

theorem isRequest_server {e : Event} (h : e.ofRole .server) : isRequest e = false := by
  cases e with
  | message emitter body wire =>
    simp only [Event.ofRole] at h
    simp [isRequest, h]
  | _ => rfl

theorem isReply_client {e : Event} (h : e.ofRole .client) : e.isReply = false := by
  cases e with
  | message emitter body wire =>
    simp only [Event.ofRole] at h
    cases body <;> simp [Event.isReply, h]
  | _ => rfl

theorem not_client_of_server {e : Event} (h : e.ofRole .server) : ¬e.ofRole .client := by
  cases e with
  | message emitter body wire =>
    simp only [Event.ofRole] at h ⊢
    simp [h]
  | decodeError r left error lost =>
    simp only [Event.ofRole] at h ⊢
    simp [h]
  | _ => exact h.elim

theorem not_asking_of_none {es : List Event} (h : requestsIn es = 0) : ¬Asking es :=
  not_open_of_forall (List.countP_eq_zero.mp h)

theorem not_asking_server {es : List Event} (h : ∀ e ∈ es, e.ofRole .server) : ¬Asking es :=
  not_open_of_forall fun e he => by simp [isRequest_server (h e he)]

/-- The flags of a connection in cleartext say whether its events leave a request unanswered. -/
def FlagsFollow (s : Connection × Metrics) (out : List Event) : Prop :=
  OneAnswer s.1 ∧ (s.1.encrypted = false → (s.1.Awaits ↔ Asking out))

theorem follows_step {pg : Decoder} (hpg : pg.Stepwise) (hreplies : pg.Replies) (pgPort : UInt16)
    {s : Connection × Metrics} {out : List Event} (seg : TcpSegment) (h : FlagsFollow s out) :
    FlagsFollow (connStep pg pgPort s seg).1 (out ++ (connStep pg pgPort s seg).2) := by
  obtain ⟨conn, m⟩ := s
  obtain ⟨hone, hasking⟩ := h
  obtain ⟨hone', hstep⟩ := handle_awaits hpg hreplies pgPort hone m seg
  refine ⟨hone', ?_⟩
  rw [connStep]
  generalize conn.handle pg pgPort m seg = r at hone' hstep
  obtain ⟨conn', m', es⟩ := r
  show conn'.encrypted = false → (conn'.Awaits ↔ Asking (out ++ es))
  cases hstep with
  | encrypted henc => rwa [List.append_nil]
  | dry henc hside henc' hserver hquiet hof hnone hsilent =>
    intro _
    rw [Asking, open_append, Connection.Awaits, hserver, ← Connection.Awaits, hasking henc]
    exact ⟨fun h => .inr ⟨h, fun x hx => by simp [isReply_client (hof x hx)]⟩,
      fun h => (h.resolve_left (not_asking_of_none hnone)).1⟩
  | @request _ es e henc hside henc' hfirst hawaits hof hnone he =>
    intro _
    rw [Asking, open_append]
    exact iff_of_true hawaits (.inl ⟨es, e, [], rfl, he, by simp⟩)
  | unanswered henc hside henc' hclient hsame hof hreply hnone =>
    intro _
    rw [hsame, Asking, open_append, hasking henc]
    exact ⟨fun h => .inr ⟨h, fun x hx => by simp [hreply x hx]⟩,
      fun h => (h.resolve_left (not_asking_server hof)).1⟩
  | answer henc hside hawaits hdec henc' hclient hnone hof he =>
    intro _
    rw [Asking, open_append]
    exact iff_of_false hnone fun h =>
      h.elim (not_asking_server hof) fun h => h.2 _ List.mem_cons_self he

/-- Events of the client with one request at most, at their end, break no silence that is not asked for. -/
theorem silent_of_not_asking {out es : List Event}
    (hout : Silent out) (hnot : ¬Asking out)
    (hes : ∀ pre e post, es = pre ++ e :: post → requestsIn pre = 0) : Silent (out ++ es) := by
  refine noneWhileOpen_append.mpr ⟨hout, fun pre e post heq hopen => ?_⟩
  rcases open_append.mp hopen with hopen | ⟨hopen, _⟩
  · exact absurd hopen (not_asking_of_none (hes pre e post heq))
  · exact absurd hopen hnot

/-- **The step lemma**: a segment keeps the silence exactly if it meets the condition. -/
theorem step_silent_iff {pg : Decoder} (hpg : pg.Stepwise) (hreplies : pg.Replies) (pgPort : UInt16)
    {s : Connection × Metrics} {out : List Event} (seg : TcpSegment) (h : FlagsFollow s out)
    (hgood : Silent out) :
    Silent (out ++ (connStep pg pgPort s seg).2) ↔ ClientWaits pg pgPort s seg := by
  obtain ⟨conn, m⟩ := s
  obtain ⟨hone, hasking⟩ := h
  obtain ⟨_, hstep⟩ := handle_awaits hpg hreplies pgPort hone m seg
  rw [connStep]
  generalize conn.handle pg pgPort m seg = r at hstep
  obtain ⟨conn', m', es⟩ := r
  show Silent (out ++ es) ↔ _
  have hserver : segmentRole seg pgPort = .server → ClientWaits pg pgPort (conn, m) seg :=
    fun hside _ _ hside' => absurd (hside.symm.trans hside') (by decide)
  cases hstep with
  | encrypted henc =>
    rw [List.append_nil]
    exact iff_of_true hgood fun henc' => absurd (henc.symm.trans henc') (by decide)
  | dry henc hside henc' hserver' hquiet hof hnone hsilent =>
    by_cases hawaits : conn.Awaits
    · -- the silence is kept exactly by a drain that reports nothing
      have hquietFed : Quiet pg (conn.fed pgPort seg) ↔ ClientWaits pg pgPort (conn, m) seg := by
        rw [Quiet, fed_role hone.sided pgPort seg, hside]
        exact ⟨fun h _ _ _ => h, fun h => h henc hawaits hside⟩
      rw [← hquietFed, ← hsilent hawaits]
      refine ⟨fun h => h.nil_of_open ((hasking henc).mp hawaits) hof, ?_⟩
      rintro rfl
      rwa [List.append_nil]
    · refine iff_of_true (silent_of_not_asking hgood (fun h => hawaits ((hasking henc).mpr h)) ?_)
        fun _ h => absurd h hawaits
      rintro pre e post rfl
      rw [requestsIn_append] at hnone
      omega
  | @request _ es e henc hside henc' hfirst hawaits hof hnone he =>
    refine iff_of_true (silent_of_not_asking hgood (fun h => hfirst ((hasking henc).mpr h)) ?_)
      fun _ h => absurd h hfirst
    intro pre x post heq
    rcases List.append_eq_append_iff.mp heq with ⟨mid, rfl, hmid⟩ | ⟨mid, rfl, _⟩
    · obtain rfl : mid = [] := by
        cases mid with
        | nil => rfl
        | cons y mid => simp at hmid
      rwa [List.append_nil]
    · rw [requestsIn_append] at hnone
      omega
  | unanswered henc hside henc' hclient hsame hof hreply hnone =>
    refine iff_of_true ((noneWhileOpen_append_of_forall ?_).mpr hgood) (hserver hside)
    exact fun x hx => not_client_of_server (hof x hx)
  | answer henc hside hawaits hdec henc' hclient hnone hof he =>
    refine iff_of_true ((noneWhileOpen_append_of_forall ?_).mpr hgood) (hserver hside)
    exact fun x hx => not_client_of_server (hof x hx)

/-- Behind an acceptance nothing of the client's is reported, and the connection is marked. -/
def StopsWithAccept (s : Connection × Metrics) (out : List Event) : Prop :=
  s.1.Sided ∧ NoneWhileOpen (Event.isAccept · = true) (fun _ => False) (Event.ofRole .client) out ∧
    ((∃ e ∈ out, e.isAccept = true) → s.1.encrypted = true)

theorem stopsWithAccept_step {pg : Decoder} (hpg : pg.Consumes) (pgPort : UInt16)
    {s : Connection × Metrics} {out : List Event} (seg : TcpSegment) (h : StopsWithAccept s out) :
    StopsWithAccept (connStep pg pgPort s seg).1 (out ++ (connStep pg pgPort s seg).2) := by
  obtain ⟨conn, m⟩ := s
  obtain ⟨hsided, hout, hmarked⟩ := h
  rw [connStep]
  refine ⟨(handle_spec hpg pgPort hsided m seg).sided, ?_⟩
  cases henc : conn.encrypted with
  | true =>
    rw [handle_encrypted pg pgPort m seg henc]
    rw [List.append_nil]
    exact ⟨hout, hmarked⟩
  | false =>
    have hnone : ∀ e ∈ out, ¬e.isAccept = true := by
      intro e he haccept
      have : conn.encrypted = true := hmarked ⟨e, he, haccept⟩
      rw [henc] at this
      cases this
    obtain ⟨_, _, hencrypted, hevents⟩ := handle_frame pg pgPort conn m seg henc
    have hacc := drain_account hpg (conn.fed pgPort seg)
    have hrole := fed_role hsided pgPort seg
    simp only [hencrypted, hevents, hacc.encrypted]
    have hof := hacc.ofRole
    rw [hrole] at hof
    refine ⟨?_, ?_⟩
    · cases hside : segmentRole seg pgPort with
      | client =>
        refine noneWhileOpen_append.mpr ⟨hout, fun pre e post heq hopen => ?_⟩
        refine absurd hopen (not_open_of_forall fun x hx => ?_)
        rcases List.mem_append.mp hx with hx | hx
        · exact hnone x hx
        · have := client_drain_no_accept hpg (hrole.trans hside) x (by rw [heq]; simp [hx])
          simp [this]
      | server =>
        rw [hside] at hof
        exact (noneWhileOpen_append_of_forall fun x hx => not_client_of_server (hof x hx)).mpr hout
    · rintro ⟨e, he, haccept⟩
      rcases List.mem_append.mp he with he | he
      · exact absurd haccept (hnone e he)
      · exact List.any_eq_true.mpr ⟨e, he, haccept⟩

/-- **While an answer is awaited nothing of the client's is decoded** exactly if every segment of the
client's that arrives meanwhile leaves pgwire nothing to decode. -/
theorem heldBack_iff (pg : Decoder) (hpg : pg.Stepwise) (hreplies : pg.Replies) (pgPort : UInt16)
    (stats : ConnId) (client : SocketAddr) (m₀ : Metrics) (segs : List TcpSegment) :
    HeldBack (run (connStep pg pgPort) (Connection.new stats client, m₀) segs).2 ↔
      Meets (connStep pg pgPort) (ClientWaits pg pgPort) (Connection.new stats client, m₀) segs := by
  have hstart : FlagsFollow (Connection.new stats client, m₀) [] :=
    ⟨oneAnswer_new stats client, fun _ => iff_of_false (fun h => h.elim nofun nofun)
      (not_asking_of_none rfl)⟩
  have hexact : Silent ([] ++ (run (connStep pg pgPort) (Connection.new stats client, m₀) segs).2) ↔ _ :=
    written_iff_meets (connStep pg pgPort) FlagsFollow Silent
      (fun _ _ seg h => follows_step hpg hreplies pgPort seg h)
      (fun _ _ h => (noneWhileOpen_append.mp h).1)
      (fun _ _ seg h hgood => step_silent_iff hpg hreplies pgPort seg h hgood) hstart noneWhileOpen_nil segs
  rw [List.nil_append] at hexact
  refine ⟨fun h => hexact.mp h.silent, fun h => ⟨hexact.mpr h, ?_⟩⟩
  have hsilent := hexact.mpr h
  have hstops : StopsWithAccept (run (connStep pg pgPort) (Connection.new stats client, m₀) segs).1
      (run (connStep pg pgPort) (Connection.new stats client, m₀) segs).2 :=
    run_invariant (connStep pg pgPort) (fun _ => StopsWithAccept)
      ⟨sided_new stats client, noneWhileOpen_nil, by simp⟩
      (fun _ _ _ seg h => stopsWithAccept_step hpg.consumes pgPort seg h) segs
  intro pre o mid a post heq ho hmid ha x hx
  rcases List.mem_append.mp hx with hx | hx
  · exact (heq ▸ hsilent).between ho (fun y hy => by simp [hmid y hy]) x hx
  · obtain ⟨before, after, rfl⟩ := List.append_of_mem hx
    exact hstops.2.1 (pre ++ o :: (mid ++ a :: before)) x after (by rw [heq]; simp)
      ⟨pre ++ o :: mid, a, before, by simp, ha, by simp⟩

/-- A request, an accept captured behind the first bytes of the TLS handshake, and more of these. -/
def acceptedCapture : List TcpSegment :=
  [clientSegment 1 NegotiationRequest.ssl.wire, clientSegment 9 [0x16, 0x03, 0x01],
    serverSegment 7 [0x53], clientSegment 12 [0x02, 0x00]]

theorem heldBack_iff_accepted : HeldBack
    (run (connStep framed 5432) (Connection.new 1 noClient, Metrics.withLimits 10) acceptedCapture).2 :=
  (heldBack_iff framed framed_lawful.toStepwise framed_replies 5432 1 noClient (Metrics.withLimits 10)
    acceptedCapture).mpr
    ⟨fun _ hawaits => absurd hawaits (by decide), fun _ _ _ => by decide,
      fun _ _ hside => absurd hside (by decide), fun henc => absurd henc (by decide), trivial⟩

/-- The server's refusal is captured behind the Startup that the client sends upon it. -/
def startupBeforeRefusal : List TcpSegment :=
  [clientSegment 1 NegotiationRequest.ssl.wire, clientSegment 9 [0, 0, 0, 9, 0, 3, 0, 0, 0],
    serverSegment 7 [refuseByte]]

/-- The Startup is decoded before the refusal. -/
theorem startup_decoded_early :
    (run (connStep framed 5432) (Connection.new 1 noClient, Metrics.withLimits 10) startupBeforeRefusal).2
        = [.message ⟨.client, noClient⟩ (.emit "SSLRequest" "(awaiting server reply)" none) 8,
          .message ⟨.client, noClient⟩ (.emit "Startup" "protocol 3.0" none) 9,
          .message ⟨.server, noClient⟩ (.emit "SslResponse" "refuse (continuing in cleartext)" none) 1] ∧
      ¬HeldBack (run (connStep framed 5432) (Connection.new 1 noClient, Metrics.withLimits 10)
        startupBeforeRefusal).2 := by
  refine ⟨by decide, ?_⟩
  intro h
  exact h.silent [_] _ [_] rfl ⟨[], _, [], rfl, by decide, by simp⟩ rfl

end Tapgres.Flow
