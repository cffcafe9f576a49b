import Tapgres.Decode.Streams

/-!
# The records of messages

What `handle_frontend` and `handle_backend` emit for a list of messages, and that a drain which stands in
a session emits just that.

* `frontendRecords`, `backendRecords` — the records of a client's and of a server's messages, the latter
  from the row description in force;
* `backend_turns` — a server direction in a session decodes complete messages to their records;
* `Unstarted` — a client direction that has not seen the Startup reports no typed message: its first
  record is that of a message a client may open the connection with.
-/

namespace Tapgres.Decode

open Tapgres.Net Tapgres.Pgwire Tapgres.Flow Tapgres.Lib.Loop
open Relation (ReflTransGen)

/-- The (kind, text, detail) of a record. -/
abbrev Record := String × String × Option EventDetail

/-! ### The records of a list of messages -/

/-- What a client's messages are reported as. -/
def frontendRecords (ms : List FrontendMessage) : List Record :=
  ms.flatMap fun m => recordsOf .client (handleFrontend (Direction.new .client noClient) m {} 0).events

/-- A server's message, handled under a row description. -/
def backendHandled (pg : Decoder) (rowDesc : Option (List FieldSummary)) (m : BackendMessage) : Handled :=
  handleBackend pg { Direction.new .server noClient with rowDesc := rowDesc } m {} 0

/-- What a server's messages are reported as: each by the row description that those before it leave. -/
def backendRecords (pg : Decoder) : Option (List FieldSummary) → List BackendMessage → List Record
  | _, [] => []
  | rowDesc, m :: ms =>
    recordsOf .server (backendHandled pg rowDesc m).events
      ++ backendRecords pg (backendHandled pg rowDesc m).dir.rowDesc ms

/-- The record of a backend message, and the row description it leaves, depend on the one in force. -/
theorem handleBackend_record (pg : Decoder) (m : BackendMessage) {d : Direction} (hrole : d.role = .server)
    (outcome : DrainOutcome) (n : ℕ) :
    recordsOf .server (handleBackend pg d m outcome n).events
        = recordsOf .server (backendHandled pg d.rowDesc m).events ∧
      (handleBackend pg d m outcome n).dir.rowDesc = (backendHandled pg d.rowDesc m).dir.rowDesc := by
  obtain ⟨role, client, nextSeq, ooo, rxbuf, ctx, rowDesc⟩ := d
  simp only at hrole
  subst hrole
  cases m with
  | dataRow r => cases rowDesc <;> exact ⟨rfl, rfl⟩
  | sslResponse s => cases s <;> exact ⟨rfl, rfl⟩
  | gssEncResponse s => cases s <;> exact ⟨rfl, rfl⟩
  | _ => exact ⟨rfl, rfl⟩

/-! ### A server's messages -/

/-- The bytes of messages. -/
def wiresOf {M : Type} (ms : List (Bytes × M)) : Bytes := ms.flatMap Prod.fst

/-- **A server direction in a session decodes complete messages to their records.** -/
theorem backend_turns {pg : Decoder} (hpg : pg.Lawful) {ms : List (Bytes × BackendMessage)}
    (hms : ∀ m ∈ ms, pg.decodeBackend m.1 sessionCtx = (.ok (some m.2), [])) {s : Draining}
    (hrole : s.dir.role = .server) (hsession : InSession s.dir) (hrx : s.dir.rxbuf = wiresOf ms) :
    ∃ r, ReflTransGen (Turns (roleTurn pg .server)) s r ∧ r.dir.role = .server ∧ r.dir.rxbuf = [] ∧
      recordsOf .server r.events
        = recordsOf .server s.events ++ backendRecords pg s.dir.rowDesc (ms.map Prod.snd) := by
  induction ms generalizing s with
  | nil => exact ⟨s, .refl, hrole, hrx, by simp [backendRecords]⟩
  | cons wm ms ih =>
    obtain ⟨wire, m⟩ := wm
    have hfirst := hpg.appends.backend _ _ _ (wiresOf ms) (hms _ List.mem_cons_self)
    rw [← backend_in_session hpg hsession hrole] at hfirst
    have hdec : pg.decodeBackend s.dir.rxbuf s.dir.ctx = (.ok (some m), wiresOf ms) := by
      rw [hrx]
      exact hfirst
    have hreads : Reads pg .server sessionCtx s.dir.rxbuf (wiresOf ms) :=
      ⟨m, by rw [← backend_in_session hpg hsession hrole]; exact hdec⟩
    obtain ⟨s', hturn, hsame, hrx', hsession'⟩ := session_turn hpg hrole hsession hreads
    -- the state after the turn is what handling `m` leaves
    obtain ⟨hmore, _⟩ := handleBackend_one pg m { s.dir with rxbuf := wiresOf ms } s.outcome
      (s.dir.rxbuf.length - (wiresOf ms).length)
    obtain ⟨hrecords, hrowDesc⟩ := handleBackend_record pg m
      (d := { s.dir with rxbuf := wiresOf ms }) hrole s.outcome (s.dir.rxbuf.length - (wiresOf ms).length)
    have hnext : drainTurn .server pg.decodeBackend (handleBackend pg) s = .inl s' := hturn
    rw [drainTurn_some hdec, Handled.next, if_pos hmore] at hnext
    obtain rfl := Sum.inl.inj hnext
    obtain ⟨r, hturns, hrole', hempty, hrest⟩ := ih (fun m hm => hms m (List.mem_cons_of_mem _ hm))
      (hsame.role.trans hrole) hsession' hrx'
    refine ⟨r, .head hturn hturns, hrole', hempty, ?_⟩
    rw [hrest, recordsOf_append, hrecords, hrowDesc, List.append_assoc]
    rfl

/-- One drain of them emits their records. -/
theorem whole_records {pg : Decoder} (hpg : pg.Lawful) {ms : List (Bytes × BackendMessage)}
    (hms : ∀ m ∈ ms, pg.decodeBackend m.1 sessionCtx = (.ok (some m.2), [])) {d : Direction}
    (hrole : d.role = .server) (hsession : InSession d) :
    recordsOf .server (whole pg d (wiresOf ms)).events
      = backendRecords pg d.rowDesc (ms.map Prod.snd) := by
  obtain ⟨r, hturns, hrole', hempty, hrecords⟩ := backend_turns hpg hms
    (s := ⟨{ d with rxbuf := wiresOf ms }, {}, []⟩) hrole hsession rfl
  rw [← hrole] at hturns
  rw [whole_eq hpg.consumes hturns (empty_quiet hpg.idles hempty), hrecords]
  rfl

/-- Complete messages make up a session. -/
theorem wires_session {pg : Decoder} {ms : List (Bytes × BackendMessage)}
    (hms : ∀ m ∈ ms, pg.decodeBackend m.1 sessionCtx = (.ok (some m.2), [])) :
    IsSession pg .server (wiresOf ms) := by
  induction ms with
  | nil => exact .nil
  | cons m ms ih =>
    exact .message m.1 (wiresOf ms) ⟨m.2, hms m List.mem_cons_self⟩
      (ih fun m' hm' => hms m' (List.mem_cons_of_mem _ hm'))

/-! ### A client that has not been seen to start -/

/-- The kinds of record that a message without a type byte is reported as. -/
def openingKinds : List String := ["SSLRequest", "GssEncRequest", "Startup", "CancelRequest"]

/-- A typed message is reported under a kind of its own. -/
theorem handleFrontend_typed {m : FrontendMessage} (hm : m.isTyped = true) {d : Direction}
    (hrole : d.role = .client) (outcome : DrainOutcome) (n : ℕ) :
    ∃ record, recordsOf .client (handleFrontend d m outcome n).events = [record] ∧
      record.1 ∉ openingKinds := by
  obtain ⟨role, client, nextSeq, ooo, rxbuf, ctx, rowDesc⟩ := d
  simp only at hrole
  subst hrole
  cases m with
  | sslNegotiation r => cases hm
  | startup s => cases hm
  | cancelRequest => cases hm
  | _ => exact ⟨_, rfl, by simp [openingKinds, Body.record]⟩

/-- A message without a type byte is reported under an opening kind, or not at all; then it leaves the
Startup awaited. -/
theorem handleFrontend_untyped {m : FrontendMessage} (hm : m.isTyped = false) {d : Direction}
    (hrole : d.role = .client) (outcome : DrainOutcome) (n : ℕ) :
    (recordsOf .client (handleFrontend d m outcome n).events = [] ∧
        (handleFrontend d m outcome n).dir.ctx.awaitingFrontendStartup = d.ctx.awaitingFrontendStartup) ∨
      ∃ record, recordsOf .client (handleFrontend d m outcome n).events = [record] ∧
        record.1 ∈ openingKinds := by
  obtain ⟨role, client, nextSeq, ooo, rxbuf, ctx, rowDesc⟩ := d
  simp only at hrole
  subst hrole
  cases m with
  | sslNegotiation r =>
    cases r with
    | none => exact .inl ⟨rfl, rfl⟩
    | _ => exact .inr ⟨_, rfl, by decide⟩
  | startup s => exact .inr ⟨_, rfl, by simp [openingKinds, Body.record]⟩
  | cancelRequest => exact .inr ⟨_, rfl, by decide⟩
  | _ => cases hm

/-- The client has reported nothing and awaits its Startup, or has reported an opening message first. -/
def Unstarted (records : List Record) (ctx : DecodeContext) : Prop :=
  (records = [] ∧ ctx.awaitingFrontendStartup = true) ∨
    ∃ record rest, records = record :: rest ∧ record.1 ∈ openingKinds

/-- What is reported behind what was reported before. -/
theorem Unstarted.append {before after : List Record} {ctx ctx' : DecodeContext}
    (h : Unstarted before ctx)
    (hafter : ctx.awaitingFrontendStartup = true → Unstarted after ctx') :
    Unstarted (before ++ after) ctx' := by
  rcases h with ⟨rfl, hctx⟩ | ⟨record, rest, rfl, hkind⟩
  · exact hafter hctx
  · exact .inr ⟨record, rest ++ after, rfl, hkind⟩

/-- A turn of the client loop reports an opening message first. -/
theorem clientTurn_unstarted {pg : Decoder} (hstart : pg.StartsUp) {s : Draining}
    (hrole : s.dir.role = .client) (h : Unstarted (recordsOf .client s.events) s.dir.ctx) :
    (clientTurn pg s).elim (fun s' => Unstarted (recordsOf .client s'.events) s'.dir.ctx)
      fun s' => Unstarted (recordsOf .client s'.events) s'.dir.ctx := by
  rw [clientTurn]
  rcases hdec : pg.decodeFrontend s.dir.rxbuf s.dir.ctx with ⟨e | _ | m, rest⟩
  · rw [drainTurn_error hdec]
    show Unstarted (recordsOf .client (s.events ++ _)) s.dir.ctx
    rw [recordsOf_append]
    exact h.append fun hctx => .inl ⟨rfl, hctx⟩
  · rw [drainTurn_none hdec]
    exact h
  · rw [drainTurn_some hdec]
    generalize hn : s.dir.rxbuf.length - rest.length = n
    have hnext : Unstarted (recordsOf .client (s.events
          ++ (handleFrontend { s.dir with rxbuf := rest } m s.outcome n).events))
        (handleFrontend { s.dir with rxbuf := rest } m s.outcome n).dir.ctx := by
      rw [recordsOf_append]
      apply h.append
      intro hctx
      rcases handleFrontend_untyped (hstart _ _ _ _ hctx hdec) (d := { s.dir with rxbuf := rest }) hrole
        s.outcome n with ⟨hnone, hkept⟩ | ⟨record, hone, hkind⟩
      · exact .inl ⟨hnone, hkept.trans hctx⟩
      · exact .inr ⟨record, [], hone, hkind⟩
    rw [Handled.next]
    split <;> exact hnext

/-- A drain of the client reports an opening message first. -/
theorem drain_unstarted {pg : Decoder} (hpg : pg.Consumes) (hstart : pg.StartsUp) {d : Direction}
    (hrole : d.role = .client) (hctx : d.ctx.awaitingFrontendStartup = true) :
    Unstarted (recordsOf .client (drainDirection pg d {}).events) (drainDirection pg d {}).dir.ctx := by
  refine drain_kept hpg (fun s => Unstarted (recordsOf .client s.events) s.dir.ctx) (.inl ⟨rfl, hctx⟩) ?_
  intro s hs h
  rw [show roleTurn pg d.role = clientTurn pg from by rw [hrole]; rfl]
  exact clientTurn_unstarted hstart (hs.trans hrole) h

end Tapgres.Decode
