import Tapgres.Decode.Messages
import Tapgres.Flow.Accounting
import Tapgres.Flow.InOrder
import Tapgres.Pgwire.Framed

/-!
# A capture joined in mid-connection

`Direction::feed` anchors at the first data it sees where the SYN was missed, but the decode context is
that of a connection which has yet to start: the client's direction awaits a Startup that was sent before
the capture began.

* `joined_unstarted` — whatever arrives, the first record of the client is that of an opening message;
* `joined_decoded_iff` — so a capture that joins in mid-connection decodes both sides to the messages sent
  exactly if the client sends none.
-/

namespace Tapgres.Flow

open Tapgres.Net Tapgres.Pgwire Tapgres.Decode Tapgres.State Tapgres.Lib.Run

/-- A capture that starts behind the startup phase, between two messages of either side: no SYN is seen
first, and complete messages of a session follow, typed ones from the client. -/
structure Joined (pg : Decoder) (pgPort : UInt16) (client : List (Bytes × FrontendMessage))
    (server : List (Bytes × BackendMessage)) (segs : List TcpSegment) : Prop where
  midway : ∀ seg ∈ segs.head?, seg.syn = false
  frontend : ∀ m ∈ client, pg.decodeFrontend m.1 sessionCtx = (.ok (some m.2), [])
  typed : ∀ m ∈ client, m.2.isTyped = true
  backend : ∀ m ∈ server, pg.decodeBackend m.1 sessionCtx = (.ok (some m.2), [])
  clientInOrder : InOrder none (segmentsOf pgPort .client segs) (wiresOf client)
  serverInOrder : InOrder none (segmentsOf pgPort .server segs) (wiresOf server)

/-- Each side has reported just these messages, and nothing failed to decode. -/
def ReportedAsSent (pg : Decoder) (client : List FrontendMessage) (server : List BackendMessage)
    (events : List Event) : Prop :=
  recordsOf .client events = frontendRecords client ∧
    recordsOf .server events = backendRecords pg none server ∧ ∀ e ∈ events, e.isDecodeError = false

/-! ### The client's side -/

/-- A segment leaves a client that has reported no typed message first as one. -/
theorem handle_unstarted {pg : Decoder} (hpg : pg.Consumes) (hstart : pg.StartsUp) (pgPort : UInt16)
    {conn : Connection} (hsided : conn.Sided) (m : Metrics) (seg : TcpSegment) {past : List Event}
    (h : Unstarted (recordsOf .client past) conn.client.ctx) :
    Unstarted (recordsOf .client (past ++ (conn.handle pg pgPort m seg).2.2))
      (conn.handle pg pgPort m seg).1.client.ctx := by
  cases henc : conn.encrypted with
  | true =>
    rw [handle_encrypted pg pgPort m seg henc, List.append_nil]
    exact h
  | false =>
    have hrole := fed_role hsided pgPort seg
    rw [(handle_frame pg pgPort conn m seg henc).2.2.2, recordsOf_append]
    cases hside : segmentRole seg pgPort with
    | client =>
      rw [hside] at hrole
      have hctx : (conn.fed pgPort seg).ctx = conn.client.ctx := by
        rw [fed_ctx, hside]
        rfl
      rw [(handle_client_side pg m henc hside).1]
      exact h.append fun hawaiting => drain_unstarted hpg hstart hrole (hctx ▸ hawaiting)
    | server =>
      rw [hside] at hrole
      rw [(handle_server_side pg m henc hside).1]
      have hof := (drain_account hpg (conn.fed pgPort seg)).ofRole
      rw [hrole] at hof
      rw [recordsOf_other (by decide) hof, List.append_nil]
      exact h

/-- **The first record of a client is that of an opening message**, whatever is captured. -/
theorem joined_unstarted {pg : Decoder} (hpg : pg.Consumes) (hstart : pg.StartsUp) (pgPort : UInt16)
    (stats : ConnId) (client : SocketAddr) (m₀ : Metrics) (segs : List TcpSegment) :
    Unstarted
      (recordsOf .client (run (connStep pg pgPort) (Connection.new stats client, m₀) segs).2)
      (run (connStep pg pgPort) (Connection.new stats client, m₀) segs).1.1.client.ctx := by
  refine (run_invariant (connStep pg pgPort)
    (fun _ s out => s.1.Sided ∧ Unstarted (recordsOf .client out) s.1.client.ctx)
    ⟨sided_new stats client, .inl ⟨rfl, rfl⟩⟩ ?_ segs).2
  rintro _ ⟨conn, m⟩ out seg ⟨hsided, h⟩
  exact ⟨(handle_spec hpg pgPort hsided m seg).sided, handle_unstarted hpg hstart pgPort hsided m seg h⟩

/-- So a client that sends a typed message first is not reported as it should be. -/
theorem typed_not_reported {pg : Decoder} (hpg : pg.Consumes) (hstart : pg.StartsUp) (pgPort : UInt16)
    (stats : ConnId) (client : SocketAddr) (m₀ : Metrics) (segs : List TcpSegment) {m : FrontendMessage}
    (hm : m.isTyped = true) (ms : List FrontendMessage) :
    recordsOf .client (run (connStep pg pgPort) (Connection.new stats client, m₀) segs).2
      ≠ frontendRecords (m :: ms) := by
  intro heq
  obtain ⟨record, hone, hkind⟩ :=
    handleFrontend_typed hm (d := Direction.new .client noClient) rfl {} 0
  rw [frontendRecords, List.flatMap_cons, hone, List.singleton_append] at heq
  have h := joined_unstarted hpg hstart pgPort stats client m₀ segs
  rw [heq] at h
  rcases h with ⟨hnil, _⟩ | ⟨record', rest, hcons, hopening⟩
  · cases hnil
  · obtain ⟨rfl, _⟩ := List.cons.inj hcons
    exact hkind hopening

/-! ### Both sides -/

/-- The streams of the two sides. -/
def bothStreams (client server : Bytes) : Role → Bytes
  | .client => client
  | .server => server

/-- A server is reported as it should be when its client sends nothing. -/
theorem server_reported {pg : Decoder} (hpg : pg.Lawful) {pgPort : UInt16} (stats : ConnId)
    (client : SocketAddr) (m₀ : Metrics) {server : List (Bytes × BackendMessage)} {segs : List TcpSegment}
    (h : Joined pg pgPort [] server segs) :
    ReportedAsSent pg [] (server.map Prod.snd)
      (run (connStep pg pgPort) (Connection.new stats client, m₀) segs).2 := by
  have hcut : ∀ role, InOrder none (segmentsOf pgPort role segs) (bothStreams [] (wiresOf server) role) := by
    intro role
    cases role
    · exact h.clientInOrder
    · exact h.serverInOrder
  have hdir := new_dir stats client
  have hstart := tracks_new hpg.toStepwise stats client
  have hsession : InSession (Direction.new .server client) := ⟨rfl, rfl⟩
  have hsmooth : ∀ role, Smooth pg (Direction.new role client) (bothStreams [] (wiresOf server) role) := by
    intro role
    cases role with
    | client =>
      intro P hP
      obtain rfl := List.prefix_nil.mp hP
      exact driesUp_of_quiet hpg.consumes (empty_quiet hpg.idles rfl)
    | server => exact session_smooth hpg hsession (wires_session h.backend)
  have hrun := inOrder_run hpg.consumes pgPort segs (Connection.new stats client) m₀
    (fun role => by rw [hdir]; rfl) (bothStreams [] (wiresOf server)) fun role => by rw [hdir]; exact hcut role
  obtain ⟨conn', m', events, hrun', htracks, _⟩ := arrivals_track hpg.consumes (fun _ => rfl) hsmooth
    (arrivalsOf pgPort segs) (Connection.new stats client) m₀ m₀ [] (fun _ => []) hstart rfl
    (Counted.refl stats m₀) fun role => (hcut role).bytesOf.symm
  rw [show (Connection.new stats client).forget = Connection.new stats client from rfl, hrun'] at hrun
  obtain rfl := (Prod.mk.inj hrun).2
  rw [List.nil_append] at htracks
  refine ⟨?_, ?_, htracks.clean⟩
  · rw [htracks.records .client, show bothStreams [] (wiresOf server) .client = [] from rfl,
      whole_of_quiet hpg.consumes (empty_quiet hpg.idles rfl)]
    rfl
  · rw [htracks.records .server]
    exact whole_records hpg h.backend rfl hsession

/-- **A capture joined in mid-connection is decoded as it was sent exactly if the client sends nothing.** -/
theorem joined_decoded_iff (pg : Decoder) (hpg : pg.Lawful) (hstart : pg.StartsUp) (pgPort : UInt16)
    (stats : ConnId) (client : SocketAddr) (m₀ : Metrics) (frontend : List (Bytes × FrontendMessage))
    (backend : List (Bytes × BackendMessage)) (segs : List TcpSegment)
    (h : Joined pg pgPort frontend backend segs) :
    ReportedAsSent pg (frontend.map Prod.snd) (backend.map Prod.snd)
        (run (connStep pg pgPort) (Connection.new stats client, m₀) segs).2 ↔ frontend = [] := by
  constructor
  · rintro ⟨hclient, _⟩
    cases frontend with
    | nil => rfl
    | cons m ms =>
      exact absurd hclient (typed_not_reported hpg.consumes hstart pgPort stats client m₀ segs
        (h.typed m List.mem_cons_self) _)
  · rintro rfl
    exact server_reported hpg stats client m₀ h

/-- A server that gets ready, in two pieces. -/
def readyCapture : List TcpSegment := [serverSegment 7 [0x5a, 0, 0], serverSegment 10 [0, 5, 0x49]]

theorem readyCapture_joined :
    Joined framed 5432 [] [([0x5a, 0, 0, 0, 5, 0x49], .readyForQuery .idle)] readyCapture where
  midway := by decide
  frontend := by simp
  typed := by simp
  backend := by
    rintro m hm
    obtain rfl := List.mem_singleton.mp hm
    decide
  clientInOrder := .nil none
  serverInOrder := by
    show InOrder none readyCapture ([0x5a, 0, 0] ++ ([0, 5, 0x49] ++ []))
    exact .data rfl (by decide) (.inl rfl) (.data rfl (by decide) (.inr rfl) (.nil _))

theorem joined_decoded_iff_ready :
    ReportedAsSent framed [] [.readyForQuery .idle]
      (run (connStep framed 5432) (Connection.new 1 noClient, Metrics.withLimits 10) readyCapture).2 :=
  (joined_decoded_iff framed framed_lawful framed_startsUp 5432 1 noClient (Metrics.withLimits 10) [] _
    readyCapture readyCapture_joined).mpr rfl

/-- A client that goes on with a `Sync`. -/
def syncCapture : List TcpSegment := [clientSegment 7 [0x53, 0, 0, 0, 4]]

theorem syncCapture_joined : Joined framed 5432 [([0x53, 0, 0, 0, 4], .sync)] [] syncCapture where
  midway := by decide
  frontend := by
    rintro m hm
    obtain rfl := List.mem_singleton.mp hm
    decide
  typed := by
    rintro m hm
    obtain rfl := List.mem_singleton.mp hm
    rfl
  backend := by simp
  clientInOrder := .data rfl (by decide) (.inl rfl) (.nil _)
  serverInOrder := .nil none

/-- It is not decoded. -/
theorem joined_sync_lost :
    Joined framed 5432 [([0x53, 0, 0, 0, 4], .sync)] [] syncCapture ∧
      ¬ReportedAsSent framed [.sync] []
        (run (connStep framed 5432) (Connection.new 1 noClient, Metrics.withLimits 10) syncCapture).2 :=
  ⟨syncCapture_joined, fun h => typed_not_reported framed_consumes framed_startsUp 5432 1 noClient
    (Metrics.withLimits 10) syncCapture rfl [] h.1⟩

end Tapgres.Flow
