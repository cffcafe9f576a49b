import Tapgres.Decode.Streams
import Tapgres.Proxy.Relay

/-!
# How the proxy opens a connection

`handle_connection` of `proxy.rs` up to the relay: the first eight bytes of the client decide whether it is
a cancel request, asks for TLS or for GSS encryption, or starts in the clear.  The byte streams inside TLS
are the two sides' plaintext; connecting, and the TLS handshakes themselves, are taken to succeed.

* `handleConnection_gss`, `handleConnection_ssl`, `handleConnection_startup` — what each opening leads to;
* `answers_iff` — every request is answered by the proxy exactly when there was none but one SSLRequest, or
  but one GssEncRequest before a Startup in the clear.
-/

namespace Tapgres.Proxy

open Relation (ReflTransGen)
open Tapgres.Net Tapgres.Pgwire Tapgres.Decode Tapgres.Flow Tapgres.State

/-- `CANCEL_MAGIC` -/
def cancelMagic : Bytes := [0x04, 0xd2, 0x16, 0x2e]

/-- `SSL_REQUEST`, with which the upstream server is probed for TLS. -/
def sslRequest : Bytes := [0x00, 0x00, 0x00, 0x08, 0x04, 0xd2, 0x16, 0x2f]

/-- The byte `'S'`. -/
def acceptByte : UInt8 := 0x53

/-- `ProxyStream`, without the stream. -/
inductive ProxyStream where
  | plain
  | tls
  deriving DecidableEq, Repr

/-- The state of a connection when its relay begins. -/
structure Opened where
  /-- What the proxy itself has written to the client. -/
  replies : Bytes
  client : ProxyStream
  /-- What the proxy itself has written to the server. -/
  probe : Bytes
  server : ProxyStream
  /-- What has been read of the client's stream and written upstream. -/
  initial : Bytes
  /-- What the client has sent in the clear and the proxy has not read. -/
  unread : Bytes
  deriving DecidableEq, Repr

inductive Handled where
  /-- The client sent fewer than eight bytes. -/
  | nothing
  /-- A cancel request: its head has been written upstream, the rest is copied. -/
  | cancel (head unread : Bytes)
  | relay (opened : Opened)
  deriving DecidableEq, Repr

/-- `sent` is what the client sends in the clear; `reply` is the server's to the probe, or the end of its
stream. -/
def handleConnection (noUpstreamTls : Bool) (reply : Option UInt8) (sent : Bytes) : Handled :=
  if sent.length < 8 then .nothing
  else
    let head := sent.take 8
    let body := head.drop 4
    if body = cancelMagic then .cancel head (sent.drop 8)
    else
      let clientTls : Bool := body = sslMagic
      let (replies, initial) : Bytes × Bytes :=
        if clientTls then ([acceptByte], [])
        -- GSS is not spoken here; refuse, so that the client falls back to cleartext
        else if body = gssMagic then ([refuseByte], [])
        else ([], head)
      .relay
        { replies, initial, unread := sent.drop 8
          client := if clientTls then .tls else .plain
          probe := if noUpstreamTls then [] else sslRequest
          server := if !noUpstreamTls && reply = some acceptByte then .tls else .plain }

/-- What the client's pump reads, when the client sends `inside` within TLS. -/
def Opened.plaintext (opened : Opened) (inside : Bytes) : Bytes :=
  match opened.client with
  | .plain => opened.unread
  | .tls => inside

/-! ### The openings -/

theorem handleConnection_code {noUpstreamTls : Bool} {reply : Option UInt8} {head rest : Bytes}
    (hhead : head.length = 8) :
    handleConnection noUpstreamTls reply (head ++ rest)
      = if packetCode head = cancelMagic then .cancel head rest
        else
          .relay
            { replies := if packetCode head = sslMagic then [acceptByte]
                else if packetCode head = gssMagic then [refuseByte] else []
              initial := if packetCode head = sslMagic ∨ packetCode head = gssMagic then [] else head
              unread := rest
              client := if packetCode head = sslMagic then .tls else .plain
              probe := if noUpstreamTls then [] else sslRequest
              server := if !noUpstreamTls && reply = some acceptByte then .tls else .plain } := by
  have htake : (head ++ rest).take 8 = head := by rw [← hhead, List.take_left]
  have hdrop : (head ++ rest).drop 8 = rest := by rw [← hhead, List.drop_left]
  have hcode : head.drop 4 = packetCode head := by
    rw [packetCode, List.take_of_length_le (by rw [List.length_drop]; omega)]
  rw [handleConnection, if_neg (by rw [List.length_append]; omega), htake, hdrop]
  simp only [hcode]
  by_cases hcancel : packetCode head = cancelMagic
  · simp only [hcancel, if_true]
  · by_cases hssl : packetCode head = sslMagic
    · simp [hssl]
    · by_cases hgss : packetCode head = gssMagic
      · have hnotSsl : gssMagic ≠ sslMagic := by decide
        have hnotCancel : gssMagic ≠ cancelMagic := by decide
        simp [hgss, hnotSsl, hnotCancel]
      · simp [hcancel, hssl, hgss]

/-- How a client opens its session: it asks for GSS encryption so many times, and then starts its session
in the clear, or inside TLS after an SSLRequest. -/
structure Opening where
  gssRounds : ℕ
  tls : Bool
  session : Bytes

/-- What it sends in the clear. -/
def Opening.sent (o : Opening) : Bytes :=
  (List.replicate o.gssRounds NegotiationRequest.gss.wire).flatten
    ++ if o.tls then NegotiationRequest.ssl.wire else o.session

/-- What it sends within TLS. -/
def Opening.inside (o : Opening) : Bytes := if o.tls then o.session else []

/-- The session begins with a Startup. -/
def BeginsWithStartup (S : Bytes) : Prop :=
  ∃ startup rest, S = startup ++ rest ∧ 8 ≤ startup.length ∧ packetCode startup ≠ cancelMagic ∧
    packetCode startup ≠ sslMagic ∧ packetCode startup ≠ gssMagic

/-- The proxy has answered the client's requests itself, and both the stream written upstream and the one
its client decoder reads are the client's session. -/
structure Answers (pg : Decoder) (o : Opening) (opened : Opened) : Prop where
  replies : opened.replies = List.replicate o.gssRounds refuseByte ++ if o.tls then [acceptByte] else []
  transport : opened.client = if o.tls then .tls else .plain
  stream : opened.initial ++ opened.plaintext o.inside = o.session
  forwarded : ∀ stats client metrics r,
    ReflTransGen (RelayStep pg stats) (Relay.start client metrics opened.initial) r →
    (r.legs .client).sent <+: opened.initial ++ opened.plaintext o.inside →
    (r.legs .client).written <+: o.session ∧ (r.legs .client).taken <+: o.session

/-- What the client's leg writes and reads begins what the client sends. -/
theorem forwarded_of_stream {pg : Decoder} (hpg : pg.Consumes) {o : Opening} {opened : Opened}
    (hstream : opened.initial ++ opened.plaintext o.inside = o.session) {stats : ConnId}
    {client : SocketAddr} {metrics : Metrics} {r : Relay}
    (hreach : ReflTransGen (RelayStep pg stats) (Relay.start client metrics opened.initial) r)
    (hsent : (r.legs .client).sent <+: opened.initial ++ opened.plaintext o.inside) :
    (r.legs .client).written <+: o.session ∧ (r.legs .client).taken <+: o.session := by
  rw [hstream] at hsent
  exact ⟨(relay_ok hpg hreach .client).written_begins.trans hsent, (List.prefix_append ..).trans hsent⟩

/-- A GssEncRequest is refused, and whatever follows is taken for the session. -/
theorem handleConnection_gss (noUpstreamTls : Bool) (reply : Option UInt8) (rest : Bytes) :
    ∃ opened, handleConnection noUpstreamTls reply (NegotiationRequest.gss.wire ++ rest) = .relay opened ∧
      opened.replies = [refuseByte] ∧ opened.client = .plain ∧ opened.initial = [] ∧
      opened.unread = rest := by
  rw [handleConnection_code rfl]
  exact ⟨_, if_neg (by decide), rfl, rfl, rfl, rfl⟩

/-- An SSLRequest is accepted. -/
theorem handleConnection_ssl (noUpstreamTls : Bool) (reply : Option UInt8) (rest : Bytes) :
    ∃ opened, handleConnection noUpstreamTls reply (NegotiationRequest.ssl.wire ++ rest) = .relay opened ∧
      opened.replies = [acceptByte] ∧ opened.client = .tls ∧ opened.initial = [] := by
  rw [handleConnection_code rfl]
  exact ⟨_, if_neg (by decide), rfl, rfl, rfl⟩

/-- A Startup in the clear is not answered; its first eight bytes have been read. -/
theorem handleConnection_startup (noUpstreamTls : Bool) (reply : Option UInt8) {S : Bytes}
    (hS : BeginsWithStartup S) :
    ∃ opened, handleConnection noUpstreamTls reply S = .relay opened ∧ opened.replies = [] ∧
      opened.client = .plain ∧ opened.initial ++ opened.unread = S := by
  obtain ⟨startup, rest, rfl, hlong, hcancel, hssl, hgss⟩ := hS
  have hsplit : startup ++ rest = startup.take 8 ++ (startup.drop 8 ++ rest) := by
    rw [← List.append_assoc, List.take_append_drop]
  have hlen : (startup.take 8).length = 8 := by rw [List.length_take]; omega
  have hcode : packetCode (startup.take 8) = packetCode startup := by
    rw [← packetCode_append (by omega) (startup.drop 8), List.take_append_drop]
  rw [hsplit, handleConnection_code hlen, hcode, if_neg hcancel]
  refine ⟨_, rfl, ?_, ?_, ?_⟩
  · simp [hssl, hgss]
  · simp [hssl]
  · simp [hssl, hgss]

/-- **The proxy answers every request itself** exactly when the client asked for TLS or started at once, or
asked for GSS encryption once and then started in the clear. -/
theorem answers_iff (pg : Decoder) (hpg : pg.Consumes) (noUpstreamTls : Bool) (reply : Option UInt8)
    (o : Opening) (hsession : BeginsWithStartup o.session) :
    (∃ opened, handleConnection noUpstreamTls reply o.sent = .relay opened ∧ Answers pg o opened) ↔
      o.gssRounds = 0 ∨ o.gssRounds = 1 ∧ o.tls = false := by
  obtain ⟨rounds, tls, session⟩ := o
  cases rounds with
  | zero =>
    refine iff_of_true ?_ (.inl rfl)
    cases tls with
    | true =>
      obtain ⟨opened, hopened, hreplies, hclient, hinitial⟩ :=
        handleConnection_ssl noUpstreamTls reply []
      have hstream : opened.initial ++ opened.plaintext session = session := by
        rw [hinitial, Opened.plaintext, hclient]
        rfl
      exact ⟨opened, hopened, hreplies, hclient, hstream,
        fun _ _ _ _ hreach hsent => forwarded_of_stream (o := ⟨0, true, session⟩) hpg hstream hreach hsent⟩
    | false =>
      obtain ⟨opened, hopened, hreplies, hclient, hall⟩ :=
        handleConnection_startup noUpstreamTls reply hsession
      have hstream : opened.initial ++ opened.plaintext [] = session := by
        rw [Opened.plaintext, hclient]
        exact hall
      exact ⟨opened, hopened, hreplies, hclient, hstream,
        fun _ _ _ _ hreach hsent => forwarded_of_stream (o := ⟨0, false, session⟩) hpg hstream hreach hsent⟩
  | succ n =>
    obtain ⟨opened, hopened, hreplies, hclient, hinitial, hunread⟩ :=
      handleConnection_gss noUpstreamTls reply (Opening.sent ⟨n, tls, session⟩)
    have hsent : Opening.sent ⟨n + 1, tls, session⟩
        = NegotiationRequest.gss.wire ++ Opening.sent ⟨n, tls, session⟩ := by
      rw [Opening.sent, List.replicate_succ, List.flatten_cons, List.append_assoc]
      rfl
    rw [hsent, hopened]
    constructor
    · rintro ⟨_, hsame, hanswers⟩
      cases hsame
      have hlen := congrArg List.length (hreplies.symm.trans hanswers.replies)
      cases tls <;> simp at hlen
      exact .inr ⟨by rw [hlen], rfl⟩
    · rintro (hzero | ⟨hone, htls⟩)
      · cases hzero
      · obtain rfl : n = 0 := by simpa using hone
        obtain rfl : tls = false := htls
        have hstream : opened.initial ++ opened.plaintext [] = session := by
          rw [hinitial, Opened.plaintext, hclient, hunread]
          rfl
        exact ⟨opened, rfl, hreplies, hclient, hstream,
          fun _ _ _ _ hreach hsent => forwarded_of_stream (o := ⟨1, false, session⟩) hpg hstream hreach hsent⟩

/-- A Startup with nothing in it, and a Sync. -/
def startedSession : Bytes := [0, 0, 0, 9, 0, 3, 0, 0, 0] ++ [0x53, 0, 0, 0, 4]

theorem startedSession_begins : BeginsWithStartup startedSession :=
  ⟨[0, 0, 0, 9, 0, 3, 0, 0, 0], [0x53, 0, 0, 0, 4], rfl, by decide, by decide, by decide, by decide⟩

theorem answers_iff_refused : ∃ opened,
    handleConnection true none (Opening.sent ⟨1, false, startedSession⟩) = .relay opened ∧
      Answers framed ⟨1, false, startedSession⟩ opened :=
  (answers_iff framed framed_lawful.consumes true none ⟨1, false, startedSession⟩ startedSession_begins).mpr
    (.inr ⟨rfl, rfl⟩)

/-- **A request passed on**: after the refusal of GSS the client falls back to TLS, and its SSLRequest goes
upstream as the beginning of its session. -/
theorem sslRequest_forwarded :
    BeginsWithStartup startedSession ∧
      ∃ opened, handleConnection true none (Opening.sent ⟨1, true, startedSession⟩) = .relay opened ∧
        opened.initial ++ opened.plaintext startedSession = NegotiationRequest.ssl.wire ∧
        ¬Answers framed ⟨1, true, startedSession⟩ opened := by
  obtain ⟨opened, hopened, _, hclient, hinitial, hunread⟩ :=
    handleConnection_gss true none (Opening.sent ⟨0, true, startedSession⟩)
  have hstream : opened.initial ++ opened.plaintext startedSession = NegotiationRequest.ssl.wire := by
    rw [hinitial, Opened.plaintext, hclient]
    exact hunread
  refine ⟨startedSession_begins, opened, hopened, hstream, ?_⟩
  intro h
  exact absurd (hstream.symm.trans h.stream) (by decide)

end Tapgres.Proxy
