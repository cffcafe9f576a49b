import Tapgres.Decode.Accept
import Tapgres.Decode.Pieces

/-!
# Streams of well-formed messages

A session, seen from one side, is a concatenation of messages, perhaps with the beginning of one more
behind them; the client's starts with its Startup.  Such streams are smooth (`Decode.Pieces`): however
much of one has arrived, a drain decodes the messages that are complete and waits for the rest.

* `session_turn` — a message of the session goes round, and leaves the direction in the session;
* `session_turns` — however much of a session has arrived, its messages are decoded one by one;
* `fresh_smooth` — so is the client's stream behind the peek for a request, and `startup_smooth` where
  the SSL flag was cleared from the start;
* `stream_smooth` — either way, and on either side, the report is the same.
-/

namespace Tapgres.Decode

open Tapgres.Net Tapgres.Pgwire Tapgres.Flow Tapgres.Lib.Loop
open Relation (ReflTransGen)

/-! ### Streams -/

/-- The flags in a session, and before its Startup. -/
def sessionCtx : DecodeContext := { awaitingFrontendSsl := false, awaitingFrontendStartup := false }

def startupCtx : DecodeContext := { awaitingFrontendSsl := false }

/-- pgwire decodes a message of this side from the buffer. -/
def Reads (pg : Decoder) : Role → DecodeContext → Bytes → Bytes → Prop
  | .client, ctx, buf, rest => ∃ m, pg.decodeFrontend buf ctx = (.ok (some m), rest)
  | .server, ctx, buf, rest => ∃ m, pg.decodeBackend buf ctx = (.ok (some m), rest)

/-- The bytes of messages of a session, with an incomplete one perhaps behind them. -/
inductive IsSession (pg : Decoder) (role : Role) : Bytes → Prop
  | nil : IsSession pg role []
  | tail (begun more : Bytes) (hmore : more ≠ []) (hreads : Reads pg role sessionCtx (begun ++ more) []) :
      IsSession pg role begun
  | message (wire S : Bytes) (hreads : Reads pg role sessionCtx wire []) (hS : IsSession pg role S) :
      IsSession pg role (wire ++ S)

/-- The bytes of a Startup: it has a protocol version, which is no request's code, and at least the
terminator of its parameters behind it. -/
structure IsStartup (pg : Decoder) (wire : Bytes) : Prop where
  reads : ∃ s, pg.decodeFrontend wire startupCtx = (.ok (some (.startup s)), [])
  long : 8 < wire.length
  notSsl : packetCode wire ≠ sslMagic
  notGss : packetCode wire ≠ gssMagic

/-- What the client of a cleartext session sends. -/
def IsClientStream (pg : Decoder) (S : Bytes) : Prop :=
  ∃ wire session, IsStartup pg wire ∧ IsSession pg .client session ∧ S = wire ++ session

/-- The direction decodes the messages of a session. -/
def InSession (d : Direction) : Prop :=
  match d.role with
  | .client => d.ctx = sessionCtx
  | .server => d.ctx.awaitingBackendSslResponse = false ∧ d.ctx.awaitingBackendGssResponse = false

/-! ### A turn in a session -/

/-- The flags after a message of the client's session. -/
def startedCtx (ctx : DecodeContext) : FrontendMessage → DecodeContext
  | .startup _ => { ctx with awaitingFrontendStartup := false }
  | _ => ctx

/-- A client's message other than a request is counted, and draining goes on. -/
theorem handleFrontend_plain {m : FrontendMessage} (hm : ∀ r, m ≠ .sslNegotiation r) (d : Direction)
    (outcome : DrainOutcome) (n : ℕ) :
    (handleFrontend d m outcome n).more = true ∧
      (handleFrontend d m outcome n).outcome = outcome.count n ∧
      (handleFrontend d m outcome n).dir = { d with ctx := startedCtx d.ctx m } := by
  cases m with
  | sslNegotiation r => exact absurd rfl (hm r)
  | _ => exact ⟨rfl, rfl, rfl⟩

/-- A server's message other than a negotiation answer is counted, and changes no flag. -/
theorem handleBackend_plain (pg : Decoder) {m : BackendMessage} (hssl : ∀ s, m ≠ .sslResponse s)
    (hgss : ∀ s, m ≠ .gssEncResponse s) (d : Direction) (outcome : DrainOutcome) (n : ℕ) :
    (handleBackend pg d m outcome n).outcome = outcome.count n ∧
      (handleBackend pg d m outcome n).dir.ctx = d.ctx := by
  rw [handleBackend_ctx]
  cases m with
  | sslResponse s => exact absurd rfl (hssl s)
  | gssEncResponse s => exact absurd rfl (hgss s)
  | dataRow r =>
    rw [handleBackend]
    cases d.rowDesc.isSome <;> exact ⟨rfl, rfl⟩
  | _ => exact ⟨rfl, rfl⟩

/-- The part of a drain's state that a session leaves alone. -/
structure SameWait (s s' : Draining) : Prop where
  role : s'.dir.role = s.dir.role
  encrypted : s'.outcome.encrypted = s.outcome.encrypted
  wait : s'.outcome.serverNegotiationWait = s.outcome.serverNegotiationWait

/-- A turn of the client loop that decodes a message other than a request. -/
theorem clientTurn_plain (pg : Decoder) {s : Draining} {m : FrontendMessage} {rest : Bytes}
    (hm : ∀ r, m ≠ .sslNegotiation r)
    (hdec : pg.decodeFrontend s.dir.rxbuf s.dir.ctx = (.ok (some m), rest)) :
    ∃ s', clientTurn pg s = .inl s' ∧ SameWait s s' ∧ s'.dir.rxbuf = rest ∧
      s'.dir.ctx = startedCtx s.dir.ctx m := by
  obtain ⟨hmore, houtcome, hdir⟩ := handleFrontend_plain hm { s.dir with rxbuf := rest } s.outcome
    (s.dir.rxbuf.length - rest.length)
  rw [clientTurn, drainTurn_some hdec, Handled.next, if_pos hmore, houtcome, hdir]
  exact ⟨_, rfl, ⟨rfl, rfl, rfl⟩, rfl, rfl⟩

/-- A turn of the server loop that decodes a message other than an answer. -/
theorem serverTurn_plain (pg : Decoder) {s : Draining} {m : BackendMessage} {rest : Bytes}
    (hssl : ∀ a, m ≠ .sslResponse a) (hgss : ∀ a, m ≠ .gssEncResponse a)
    (hdec : pg.decodeBackend s.dir.rxbuf s.dir.ctx = (.ok (some m), rest)) :
    ∃ s', serverTurn pg s = .inl s' ∧ SameWait s s' ∧ s'.dir.rxbuf = rest ∧ s'.dir.ctx = s.dir.ctx := by
  obtain ⟨hmore, _, hone⟩ := handleBackend_one pg m { s.dir with rxbuf := rest } s.outcome
    (s.dir.rxbuf.length - rest.length)
  obtain ⟨houtcome, hctx⟩ := handleBackend_plain pg hssl hgss { s.dir with rxbuf := rest } s.outcome
    (s.dir.rxbuf.length - rest.length)
  rw [serverTurn, drainTurn_some hdec, Handled.next, if_pos hmore, houtcome]
  exact ⟨_, rfl, ⟨hone.role, rfl, rfl⟩, hone.rxbuf, hctx⟩

/-- A beginning of two pieces is a proper beginning of the first, or the first with a beginning of the
second behind it. -/
theorem prefix_append_cases {P w S : Bytes} (h : P <+: w ++ S) :
    (∃ more, more ≠ [] ∧ P ++ more = w) ∨ ∃ P', P' <+: S ∧ P = w ++ P' := by
  rcases List.prefix_or_prefix_of_prefix h (List.prefix_append w S) with ⟨more, rfl⟩ | ⟨P', rfl⟩
  · by_cases hmore : more = []
    · subst hmore
      exact .inr ⟨[], List.nil_prefix, by simp⟩
    · exact .inl ⟨more, hmore, rfl⟩
  · exact .inr ⟨P', (List.prefix_append_right_inj w).mp h, rfl⟩

theorem empty_quiet {pg : Decoder} (hpg : pg.Idles) {d : Direction} (hempty : d.rxbuf = []) : Quiet pg d := by
  rw [Quiet, hempty]
  cases d.role with
  | client => exact hpg.frontend _
  | server => exact hpg.backend _

section Session

variable {pg : Decoder} (hpg : pg.Lawful)
include hpg

/-- The backend decodes in any context as in a session, while no answer is awaited. -/
theorem backend_in_session {d : Direction} (hd : InSession d)
    (hrole : d.role = .server) (buf : Bytes) :
    pg.decodeBackend buf d.ctx = pg.decodeBackend buf sessionCtx := by
  rw [InSession, hrole] at hd
  exact hpg.negotiates.backendFlags buf _ _ hd.1 hd.2

/-- **A message of the session** goes round and leaves the direction in the session. -/
theorem session_turn {role : Role} {s : Draining} {rest : Bytes} (hrole : s.dir.role = role)
    (hsession : InSession s.dir) (hreads : Reads pg role sessionCtx s.dir.rxbuf rest) :
    ∃ s', roleTurn pg role s = .inl s' ∧ SameWait s s' ∧ s'.dir.rxbuf = rest ∧ InSession s'.dir := by
  cases role with
  | client =>
    have hctx : s.dir.ctx = sessionCtx := by
      rwa [InSession, hrole] at hsession
    obtain ⟨m, hdec⟩ := hreads
    -- a request is recognised only while the SSL flag is set
    have hm : ∀ r, m ≠ .sslNegotiation r := by
      rintro r rfl
      have := hpg.negotiates.request _ _ _ _ hdec
      cases this
    obtain ⟨s', hturn, hsame, hrx, hctx'⟩ := clientTurn_plain pg hm (hctx.symm ▸ hdec)
    refine ⟨s', hturn, hsame, hrx, ?_⟩
    rw [InSession, hsame.role, hrole]
    show s'.dir.ctx = sessionCtx
    rw [hctx', hctx]
    cases m <;> rfl
  | server =>
    obtain ⟨m, hdec⟩ := hreads
    rw [← backend_in_session hpg hsession hrole] at hdec
    have hflags := hsession
    rw [InSession, hrole] at hflags
    have hssl : ∀ a, m ≠ .sslResponse a := by
      rintro a rfl
      rw [hpg.negotiates.sslAnswer _ _ _ _ hdec] at hflags
      cases hflags.1
    have hgss : ∀ a, m ≠ .gssEncResponse a := by
      rintro a rfl
      rw [hpg.negotiates.gssAnswer _ _ _ _ hdec] at hflags
      cases hflags.2
    obtain ⟨s', hturn, hsame, hrx, hctx'⟩ := serverTurn_plain pg hssl hgss hdec
    refine ⟨s', hturn, hsame, hrx, ?_⟩
    rw [InSession, hsame.role, hrole]
    show s'.dir.ctx.awaitingBackendSslResponse = false ∧ s'.dir.ctx.awaitingBackendGssResponse = false
    rw [hctx']
    exact hflags

/-- The beginning of a message of the session keeps a direction quiet. -/
theorem begun_quiet {d : Direction} {more : Bytes} (hsession : InSession d) (hmore : more ≠ [])
    (hreads : Reads pg d.role sessionCtx (d.rxbuf ++ more) []) : Quiet pg d := by
  rw [Quiet]
  cases hrole : d.role with
  | client =>
    rw [hrole] at hreads
    rw [InSession, hrole] at hsession
    obtain ⟨m, hdec⟩ := hreads
    rw [hsession]
    exact hpg.waits.frontend _ _ _ _ hmore hdec
  | server =>
    rw [hrole] at hreads
    obtain ⟨m, hdec⟩ := hreads
    rw [← backend_in_session hpg hsession hrole] at hdec
    exact hpg.waits.backend _ _ _ _ hmore hdec

/-- A message is decoded off the front of what has arrived behind it. -/
theorem Reads.append {role : Role} {ctx : DecodeContext} {wire : Bytes}
    (h : Reads pg role ctx wire []) (more : Bytes) : Reads pg role ctx (wire ++ more) more := by
  cases role with
  | client =>
    obtain ⟨m, hdec⟩ := h
    exact ⟨m, hpg.appends.frontend _ _ _ more hdec⟩
  | server =>
    obtain ⟨m, hdec⟩ := h
    exact ⟨m, hpg.appends.backend _ _ _ more hdec⟩

/-- It is decoded whatever lies behind it. -/
theorem session_steady {role : Role} {d : Direction} {wire left : Bytes} (hrole : d.role = role)
    (hsession : InSession d) (hreads : Reads pg role sessionCtx wire []) (hrx : d.rxbuf = wire ++ left) :
    Steady pg role d := by
  cases role with
  | client =>
    obtain ⟨message, hdec⟩ := hreads
    rw [InSession, hrole] at hsession
    intro m rest hfirst more
    rw [hrx, hsession, hpg.appends.frontend _ _ _ left hdec] at hfirst
    cases hfirst
    rw [hrx, hsession, List.append_assoc, hpg.appends.frontend _ _ _ (left ++ more) hdec]
  | server =>
    obtain ⟨message, hdec⟩ := hreads
    intro m rest hfirst more
    rw [hrx, backend_in_session hpg hsession hrole, hpg.appends.backend _ _ _ left hdec] at hfirst
    cases hfirst
    rw [hrx, backend_in_session hpg hsession hrole, List.append_assoc,
      hpg.appends.backend _ _ _ (left ++ more) hdec]

/-- **However much of a session has arrived**, a drain goes round until pgwire waits for the rest. -/
theorem session_turns {role : Role} {S : Bytes} (hS : IsSession pg role S) :
    ∀ s : Draining, s.dir.rxbuf <+: S → s.dir.role = role → InSession s.dir →
      ∃ r, ReflTransGen (SteadyTurns pg role) s r ∧ Quiet pg r.dir ∧ SameWait s r := by
  induction hS with
  | nil =>
    intro s hP _ _
    exact ⟨s, .refl, empty_quiet hpg.idles (List.prefix_nil.mp hP), ⟨rfl, rfl, rfl⟩⟩
  | tail begun more hmore hreads =>
    rintro s ⟨left, rfl⟩ rfl hsession
    have hleft : left ++ more ≠ [] := by simp [hmore]
    refine ⟨s, .refl, begun_quiet hpg hsession hleft ?_, ⟨rfl, rfl, rfl⟩⟩
    rwa [← List.append_assoc]
  | message wire S hreads _ ih =>
    intro s hP hrole hsession
    rcases prefix_append_cases hP with ⟨more, hmore, hwire⟩ | ⟨P', hP', hrx⟩
    · -- part of the first message
      subst hrole
      exact ⟨s, .refl, begun_quiet hpg hsession hmore (hwire ▸ hreads), ⟨rfl, rfl, rfl⟩⟩
    · -- the first message, and then the rest
      have hsteady := session_steady hpg hrole hsession hreads hrx
      have hfirst := Reads.append hpg hreads P'
      rw [← hrx] at hfirst
      obtain ⟨s', hturn, hsame, hrx', hsession'⟩ := session_turn hpg hrole hsession hfirst
      obtain ⟨r, hturns, hquiet, hsame'⟩ := ih s' (hrx'.symm ▸ hP') (hsame.role.trans hrole) hsession'
      exact ⟨r, .head ⟨hturn, hsteady⟩ hturns, hquiet, ⟨hsame'.role.trans hsame.role,
        hsame'.encrypted.trans hsame.encrypted, hsame'.wait.trans hsame.wait⟩⟩

/-- A session is smooth. -/
theorem session_smooth {d : Direction} (hsession : InSession d) {S : Bytes}
    (hS : IsSession pg d.role S) : Smooth pg d S := by
  intro P hP
  have hsession' : InSession { d with rxbuf := P } := hsession
  obtain ⟨r, hturns, hquiet, hsame⟩ :=
    session_turns hpg hS ⟨{ d with rxbuf := P }, {}, []⟩ hP rfl hsession'
  exact driesUp_of_turns hpg.consumes hturns hquiet hsame.encrypted hsame.wait

/-! ### The client's stream -/

/-- A client that has been found to ask for no encryption decodes its Startup, and then its session. -/
theorem startup_smooth {d : Direction} (hrole : d.role = .client) (hctx : d.ctx = startupCtx) {S : Bytes}
    (hS : IsClientStream pg S) : Smooth pg d S := by
  obtain ⟨wire, session, ⟨⟨s, hdec⟩, _, _, _⟩, hsession, rfl⟩ := hS
  intro P hP
  rcases prefix_append_cases hP with ⟨more, hmore, hwire⟩ | ⟨P', hP', rfl⟩
  · rw [← hwire] at hdec
    apply driesUp_of_quiet hpg.consumes
    rw [Quiet]
    simp only [hrole, hctx]
    exact hpg.waits.frontend _ _ _ _ hmore hdec
  · have hfirst := hpg.appends.frontend _ _ _ P' hdec
    have hsteady : Steady pg .client { d with rxbuf := wire ++ P' } := by
      intro m rest hm more
      rw [hctx, hfirst] at hm
      cases hm
      rw [hctx, List.append_assoc, hpg.appends.frontend _ _ _ (P' ++ more) hdec]
    rw [← hctx] at hfirst
    obtain ⟨s', hturn, hsame, hrx, hctx'⟩ :=
      clientTurn_plain pg (s := ⟨{ d with rxbuf := wire ++ P' }, {}, []⟩) (m := .startup s)
        (fun _ hssl => by cases hssl) hfirst
    have hrole' : s'.dir.role = .client := hsame.role.trans hrole
    have hin : InSession s'.dir := by
      rw [InSession, hrole']
      show s'.dir.ctx = sessionCtx
      rw [hctx']
      show startedCtx d.ctx _ = sessionCtx
      rw [hctx]
      rfl
    obtain ⟨r, hturns, hquiet, hsame'⟩ := session_turns hpg hsession s' (hrx.symm ▸ hP') hrole' hin
    refine driesUp_of_turns hpg.consumes (r := r) ?_ hquiet (hsame'.encrypted.trans hsame.encrypted)
      (hsame'.wait.trans hsame.wait)
    rw [show SteadyTurns pg d.role = SteadyTurns pg .client by rw [hrole]]
    exact .head ⟨hturn, hsteady⟩ hturns

/-- Eight bytes, or fewer, are not yet a Startup. -/
theorem startup_begun {d : Direction} (hrole : d.role = .client) (hctx : d.ctx = startupCtx) {S P : Bytes}
    (hS : IsClientStream pg S) (hP : P <+: S) (hshort : P.length ≤ 8) :
    Quiet pg { d with rxbuf := P } := by
  obtain ⟨wire, session, ⟨⟨s, hdec⟩, hlong, _, _⟩, hsession, rfl⟩ := hS
  rcases prefix_append_cases hP with ⟨more, hmore, hwire⟩ | ⟨P', hP', rfl⟩
  · rw [← hwire] at hdec
    rw [Quiet]
    simp only [hrole, hctx]
    exact hpg.waits.frontend _ _ _ _ hmore hdec
  · rw [List.length_append] at hshort
    omega

/-- The peek: a fresh client that has sent eight bytes of a Startup goes on as one that asked for nothing. -/
theorem fresh_peek {d : Direction} (hctx : d.ctx = {}) {S P : Bytes}
    (hS : IsClientStream pg S) (hP : P <+: S) (hlong : 8 ≤ P.length) :
    SteadyTurns pg .client ⟨{ d with rxbuf := P }, {}, []⟩ ⟨{ d with ctx := startupCtx, rxbuf := P }, {}, []⟩ := by
  obtain ⟨wire, session, ⟨_, hlen, hssl, hgss⟩, _, rfl⟩ := hS
  obtain ⟨left, hleft⟩ := hP
  have hcode : packetCode P = packetCode wire := by
    rw [← packetCode_append hlong left, hleft, packetCode_append (by omega)]
  have hpeek : ∀ more, pg.decodeFrontend (P ++ more) d.ctx = (.ok (some (.sslNegotiation .none)), P ++ more) := by
    intro more
    have hcode' := packetCode_append hlong more
    exact hpg.negotiates.peek _ _ (by rw [hctx]) (by rw [List.length_append]; omega)
      (by rw [hcode', hcode]; exact hssl) (by rw [hcode', hcode]; exact hgss)
  have hdec := hpeek []
  rw [List.append_nil] at hdec
  constructor
  · show clientTurn pg _ = _
    rw [clientTurn, drainTurn_some (s := ⟨{ d with rxbuf := P }, {}, []⟩) hdec]
    rw [handleFrontend_peek rfl, Handled.next]
    simp [hctx, startupCtx]
  · intro m rest hm more
    rw [hdec] at hm
    cases hm
    exact hpeek more

/-- A fresh client waits for eight bytes, peeks, and decodes as one that asked for nothing. -/
theorem fresh_smooth {d : Direction} (hrole : d.role = .client) (hctx : d.ctx = {}) {S : Bytes}
    (hS : IsClientStream pg S) :
    Smooth pg d S ∧ whole pg d S = whole pg { d with ctx := startupCtx } S := by
  have hstartup : Smooth pg { d with ctx := startupCtx } S :=
    startup_smooth hpg (d := { d with ctx := startupCtx }) hrole rfl hS
  have hlong : ∀ P, P <+: S → 8 ≤ P.length →
      whole pg d P = whole pg { d with ctx := startupCtx } P ∧ DriesUp pg d P := by
    intro P hP hlen
    have hturn := fresh_peek hpg hctx hS hP hlen
    obtain ⟨hturns, hquiet, hclear, hunarmed⟩ := hstartup P hP
    have hturns' : ReflTransGen (SteadyTurns pg d.role) ⟨{ d with rxbuf := P }, {}, []⟩
        (whole pg { d with ctx := startupCtx } P) := by
      have hside : SteadyTurns pg d.role = SteadyTurns pg .client := by rw [hrole]
      rw [hside]
      exact .head hturn (hside ▸ hturns)
    exact ⟨whole_eq hpg.consumes (SteadyTurns.turns hturns') hquiet,
      driesUp_of_turns hpg.consumes hturns' hquiet hclear hunarmed⟩
  refine ⟨?_, ?_⟩
  · intro P hP
    by_cases hlen : P.length < 8
    · apply driesUp_of_quiet hpg.consumes
      rw [Quiet]
      simp only [hrole]
      exact hpg.negotiates.short _ _ (by rw [hctx]) hlen
    · exact (hlong P hP (by omega)).2
  · refine (hlong S (List.prefix_refl S) ?_).1
    obtain ⟨wire, session, hstart, _, rfl⟩ := hS
    have := hstart.long
    rw [List.length_append]
    omega

end Session

/-! ### Both sides, from either start -/

/-- What one side of a cleartext session sends. -/
def IsStream (pg : Decoder) : Role → Bytes → Prop
  | .client, S => IsClientStream pg S
  | .server, S => IsSession pg .server S

/-- The direction has decoded nothing yet, whether the SSL flag is still set or not. -/
structure Starts (d : Direction) : Prop where
  ctx : d.ctx = {} ∨ d.ctx = startupCtx
  rowDesc : d.rowDesc = none

/-- No client in particular. -/
def noClient : SocketAddr := ⟨.v4 0, 0⟩

/-- What one drain of a side's whole stream reports. -/
def streamReport (pg : Decoder) (role : Role) (S : Bytes) : Report :=
  (whole pg (Direction.forDecoding role noClient) S).report

theorem new_starts (role : Role) (client : SocketAddr) : Starts (Direction.new role client) :=
  ⟨.inl rfl, rfl⟩

theorem forDecoding_starts (role : Role) (client : SocketAddr) :
    Starts (Direction.forDecoding role client) :=
  ⟨.inr rfl, rfl⟩

/-- **A stream is smooth, and reported alike**, in every direction that starts. -/
theorem stream_smooth {pg : Decoder} (hpg : pg.Lawful) {role : Role} {d : Direction} (hrole : d.role = role)
    (hd : Starts d) {S : Bytes} (hS : IsStream pg role S) :
    Smooth pg d S ∧ (whole pg d S).report = streamReport pg role S := by
  have hlike : ∀ d', d'.role = role → Starts d' → d'.ctx = startupCtx ∨ role = .server →
      (whole pg d' S).report = streamReport pg role S := by
    intro d' hrole' hd' hctx
    refine report_alike hpg.consumes hpg.negotiates ⟨hrole', hd'.rowDesc, ?_, ?_⟩ S
    · rcases hd'.ctx with h | h <;> rw [h] <;> rfl
    · intro hclient
      rcases hctx with h | h
      · exact h
      · cases hclient.symm.trans h
  cases role with
  | client =>
    rcases hd.ctx with hctx | hctx
    · obtain ⟨hsmooth, hwhole⟩ := fresh_smooth hpg hrole hctx hS
      exact ⟨hsmooth, hwhole ▸ hlike { d with ctx := startupCtx } hrole ⟨.inr rfl, hd.rowDesc⟩ (.inl rfl)⟩
    · exact ⟨startup_smooth hpg hrole hctx hS, hlike d hrole hd (.inl hctx)⟩
  | server =>
    refine ⟨session_smooth hpg ?_ (hrole.symm ▸ hS), hlike d hrole hd (.inr rfl)⟩
    rw [InSession, hrole]
    rcases hd.ctx with hctx | hctx <;> rw [hctx] <;> exact ⟨rfl, rfl⟩

end Tapgres.Decode
