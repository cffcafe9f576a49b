import Tapgres.Decode.Handle
import Mathlib.Algebra.BigOperators.Group.List.Basic

/-!
# What a drain does

Everything the rest of the development knows about a drain comes from three places:

* `handleFrontend_one`, `handleBackend_one` — every message but the peek is counted once and emits
  exactly one record;
* `turn_spec` — the four things a turn of the loop can do: find nothing, peek, take one message off the
  front of the buffer, fail and drop the buffer;
* `drain_ends`, `drain_account` — the loop ends on every buffer, and its counters, its records and the
  bytes of the buffer balance; `drain_kept` is the invariant rule.
-/

namespace Tapgres.Decode

open Tapgres.Net Tapgres.Pgwire Tapgres.Flow Tapgres.Lib.Loop

/-! ### One message -/

/-- The warning that the server accepted encryption. -/
def Body.isAccept : Body → Bool
  | .warn msg => msg == sslAcceptedText || msg == gssAcceptedText
  | .emit _ _ _ => false

/-- What handling one counted message does: one record, one message and `consumed` bytes more; the flow
state and the buffer are left alone, and the SSL-awaiting flag is not set again. -/
structure HandledOne (dir : Direction) (outcome : DrainOutcome) (consumed : ℕ) (body : Body)
    (h : Handled) : Prop where
  events : h.events = [.message (Direction.emitter dir) body consumed]
  msgs : h.outcome.msgs = outcome.msgs + 1
  bytes : h.outcome.bytes = outcome.bytes + consumed
  encrypted : h.outcome.encrypted = (outcome.encrypted || body.isAccept)
  role : h.dir.role = dir.role
  client : h.dir.client = dir.client
  nextSeq : h.dir.nextSeq = dir.nextSeq
  ooo : h.dir.ooo = dir.ooo
  rxbuf : h.dir.rxbuf = dir.rxbuf
  ssl : h.dir.ctx.awaitingFrontendSsl = true → dir.ctx.awaitingFrontendSsl = true

theorem handleFrontend_peek {msg : FrontendMessage} (hm : msg.isPeek = true) (dir : Direction)
    (outcome : DrainOutcome) (consumed : ℕ) :
    handleFrontend dir msg outcome consumed
      = ⟨{ dir with ctx := { dir.ctx with awaitingFrontendSsl := false } }, outcome, [], true⟩ := by
  cases msg with
  | sslNegotiation request =>
    cases request with
    | none => rfl
    | postgresSsl => cases hm
    | postgresGss => cases hm
  | _ => cases hm

theorem handleFrontend_one {msg : FrontendMessage} (hm : msg.isPeek = false) (dir : Direction)
    (outcome : DrainOutcome) (consumed : ℕ) :
    ∃ body, HandledOne dir outcome consumed body (handleFrontend dir msg outcome consumed) := by
  cases msg with
  | sslNegotiation request =>
    cases request with
    | none => cases hm
    | postgresSsl =>
      exact ⟨_, rfl, rfl, rfl, (Bool.or_false _).symm, rfl, rfl, rfl, rfl, rfl, fun h => by cases h⟩
    | postgresGss =>
      exact ⟨_, rfl, rfl, rfl, (Bool.or_false _).symm, rfl, rfl, rfl, rfl, rfl, fun h => by cases h⟩
  | _ => exact ⟨_, rfl, rfl, rfl, (Bool.or_false _).symm, rfl, rfl, rfl, rfl, rfl, id⟩

theorem handleBackend_one (pg : Decoder) (msg : BackendMessage) (dir : Direction)
    (outcome : DrainOutcome) (consumed : ℕ) :
    (handleBackend pg dir msg outcome consumed).more = true ∧
      ∃ body, HandledOne dir outcome consumed body (handleBackend pg dir msg outcome consumed) := by
  cases msg with
  | dataRow r =>
    rw [handleBackend]
    cases dir.rowDesc.isSome
    · exact ⟨rfl, _, rfl, rfl, rfl, (Bool.or_false _).symm, rfl, rfl, rfl, rfl, rfl, id⟩
    · exact ⟨rfl, _, rfl, rfl, rfl, (Bool.or_false _).symm, rfl, rfl, rfl, rfl, rfl, id⟩
  | sslResponse s =>
    cases s with
    | accept => exact ⟨rfl, _, rfl, rfl, rfl, by simp [handleBackend, Body.isAccept], rfl, rfl, rfl, rfl, rfl, id⟩
    | _ => exact ⟨rfl, _, rfl, rfl, rfl, (Bool.or_false _).symm, rfl, rfl, rfl, rfl, rfl, id⟩
  | gssEncResponse s =>
    cases s with
    | accept => exact ⟨rfl, _, rfl, rfl, rfl, by simp [handleBackend, Body.isAccept], rfl, rfl, rfl, rfl, rfl, id⟩
    | _ => exact ⟨rfl, _, rfl, rfl, rfl, (Bool.or_false _).symm, rfl, rfl, rfl, rfl, rfl, id⟩
  | _ => exact ⟨rfl, _, rfl, rfl, rfl, (Bool.or_false _).symm, rfl, rfl, rfl, rfl, rfl, id⟩

/-! ### One turn -/

/-- What a turn makes of a handled message. -/
def Handled.next (h : Handled) (events : List Event) : Draining ⊕ Draining :=
  if h.more then .inl ⟨h.dir, h.outcome, events ++ h.events⟩
  else .inr ⟨h.dir, h.outcome, events ++ h.events⟩

theorem drainTurn_some {M : Type} {role : Role} {decode : Bytes → DecodeContext → Decoded M}
    {handle : Direction → M → DrainOutcome → ℕ → Handled} {s : Draining} {m : M} {rest : Bytes}
    (h : decode s.dir.rxbuf s.dir.ctx = (.ok (some m), rest)) :
    drainTurn role decode handle s
      = (handle { s.dir with rxbuf := rest } m s.outcome
          (s.dir.rxbuf.length - rest.length)).next s.events := by
  rw [drainTurn, h]
  rfl

theorem drainTurn_none {M : Type} {role : Role} {decode : Bytes → DecodeContext → Decoded M}
    {handle : Direction → M → DrainOutcome → ℕ → Handled} {s : Draining} {rest : Bytes}
    (h : decode s.dir.rxbuf s.dir.ctx = (.ok none, rest)) :
    drainTurn role decode handle s = .inr { s with dir := { s.dir with rxbuf := rest } } := by
  rw [drainTurn, h]

theorem drainTurn_error {M : Type} {role : Role} {decode : Bytes → DecodeContext → Decoded M}
    {handle : Direction → M → DrainOutcome → ℕ → Handled} {s : Draining} {e : String} {rest : Bytes}
    (h : decode s.dir.rxbuf s.dir.ctx = (.error e, rest)) :
    drainTurn role decode handle s = .inr (decodeError role e rest s.dir.rxbuf.length s) := by
  rw [drainTurn, h]

/-- pgwire finds nothing to decode in the direction's buffer. -/
def Quiet (pg : Decoder) (d : Direction) : Prop :=
  match d.role with
  | .client => pg.decodeFrontend d.rxbuf d.ctx = (.ok none, d.rxbuf)
  | .server => pg.decodeBackend d.rxbuf d.ctx = (.ok none, d.rxbuf)

/-- The four things a turn of the drain loop can do. -/
inductive TurnSpec (pg : Decoder) (s : Draining) : Draining ⊕ Draining → Prop
  | idle (quiet : Quiet pg s.dir) : TurnSpec pg s (.inr s)
  | peek (client : s.dir.role = .client) (ssl : s.dir.ctx.awaitingFrontendSsl = true)
      (loud : ¬Quiet pg s.dir) :
      TurnSpec pg s
        (.inl { s with dir := { s.dir with ctx := { s.dir.ctx with awaitingFrontendSsl := false } } })
  | message (wire rest : Bytes) (body : Body) (h : Handled) (loud : ¬Quiet pg s.dir)
      (nonempty : wire ≠ []) (front : s.dir.rxbuf = wire ++ rest)
      (one : HandledOne { s.dir with rxbuf := rest } s.outcome wire.length body h)
      (server : s.dir.role = .server → h.more = true) :
      TurnSpec pg s (if h.more then .inl ⟨h.dir, h.outcome, s.events ++ h.events⟩
        else .inr ⟨h.dir, h.outcome, s.events ++ h.events⟩)
  | error (e : String) (rest : Bytes) (loud : ¬Quiet pg s.dir) :
      TurnSpec pg s (.inr (decodeError s.dir.role e rest s.dir.rxbuf.length s))

theorem clientTurn_spec {pg : Decoder} (hpg : pg.Consumes) (s : Draining) (hs : s.dir.role = .client) :
    TurnSpec pg s (clientTurn pg s) := by
  have hquiet : Quiet pg s.dir ↔ pg.decodeFrontend s.dir.rxbuf s.dir.ctx = (.ok none, s.dir.rxbuf) := by
    rw [Quiet, hs]
  rcases hdec : pg.decodeFrontend s.dir.rxbuf s.dir.ctx with ⟨e | _ | msg, rest⟩
  · have hloud : ¬Quiet pg s.dir := by
      rw [hquiet, hdec]
      simp
    have h : TurnSpec pg s _ := .error e rest hloud
    rw [hs] at h
    rwa [clientTurn, drainTurn_error hdec]
  · rw [clientTurn, drainTurn_none hdec]
    obtain rfl := hpg.frontend_none _ _ _ hdec
    exact .idle (hquiet.mpr hdec)
  · have hloud : ¬Quiet pg s.dir := by
      rw [hquiet, hdec]
      simp
    rw [clientTurn, drainTurn_some hdec]
    by_cases hpeek : msg.isPeek = true
    · obtain ⟨rfl, hssl⟩ := hpg.frontend_peek _ _ _ _ hdec hpeek
      rw [handleFrontend_peek hpeek, Handled.next, if_pos rfl, List.append_nil]
      exact .peek hs hssl hloud
    · obtain ⟨wire, hne, hfront⟩ := hpg.frontend_some _ _ _ _ hdec (by simpa using hpeek)
      have hlen : s.dir.rxbuf.length - rest.length = wire.length := by
        rw [hfront, List.length_append]
        omega
      rw [hlen]
      obtain ⟨body, hone⟩ := handleFrontend_one (by simpa using hpeek) { s.dir with rxbuf := rest }
        s.outcome wire.length
      exact .message wire rest body _ hloud hne hfront hone (by rw [hs]; simp)

theorem serverTurn_spec {pg : Decoder} (hpg : pg.Consumes) (s : Draining) (hs : s.dir.role = .server) :
    TurnSpec pg s (serverTurn pg s) := by
  have hquiet : Quiet pg s.dir ↔ pg.decodeBackend s.dir.rxbuf s.dir.ctx = (.ok none, s.dir.rxbuf) := by
    rw [Quiet, hs]
  rcases hdec : pg.decodeBackend s.dir.rxbuf s.dir.ctx with ⟨e | _ | msg, rest⟩
  · have hloud : ¬Quiet pg s.dir := by
      rw [hquiet, hdec]
      simp
    have h : TurnSpec pg s _ := .error e rest hloud
    rw [hs] at h
    rwa [serverTurn, drainTurn_error hdec]
  · rw [serverTurn, drainTurn_none hdec]
    obtain rfl := hpg.backend_none _ _ _ hdec
    exact .idle (hquiet.mpr hdec)
  · have hloud : ¬Quiet pg s.dir := by
      rw [hquiet, hdec]
      simp
    rw [serverTurn, drainTurn_some hdec]
    obtain ⟨wire, hne, hfront⟩ := hpg.backend_some _ _ _ _ hdec
    have hlen : s.dir.rxbuf.length - rest.length = wire.length := by
      rw [hfront, List.length_append]
      omega
    rw [hlen]
    obtain ⟨hmore, body, hone⟩ := handleBackend_one pg msg { s.dir with rxbuf := rest } s.outcome
      wire.length
    exact .message wire rest body _ hloud hne hfront hone fun _ => hmore

/-- **What a turn does**, for a lawful pgwire. -/
theorem turn_spec {pg : Decoder} (hpg : pg.Consumes) (s : Draining) :
    TurnSpec pg s (roleTurn pg s.dir.role s) := by
  cases hs : s.dir.role with
  | client => exact clientTurn_spec hpg s hs
  | server => exact serverTurn_spec hpg s hs

/-! ### Counting events -/

/-- An `Output::Message` record of this side. -/
def Event.isMessageOf (role : Role) : Event → Bool
  | .message emitter _ _ => emitter.role == role
  | _ => false

/-- The wire length of the message, if it is one of this side. -/
def Event.wireOf (role : Role) : Event → ℕ
  | .message emitter _ wire => if emitter.role = role then wire else 0
  | _ => 0

/-- The bytes a decode error of this side threw away. -/
def Event.lostOf (role : Role) : Event → ℕ
  | .decodeError r _ _ lost => if r = role then lost else 0
  | _ => 0

/-- The warning that the connection is now encrypted. -/
def Event.isAccept : Event → Bool
  | .message _ body _ => body.isAccept
  | _ => false

/-- What came out of `rxbuf`: a message, or a decode error. -/
def Event.isDecoded : Event → Bool
  | .message _ _ _ => true
  | .decodeError _ _ _ _ => true
  | _ => false

/-- How many message records of this side were emitted. -/
def messagesOf (role : Role) (es : List Event) : ℕ := es.countP (Event.isMessageOf role)

/-- The total wire length of the messages of this side. -/
def wireOf (role : Role) (es : List Event) : ℕ := (es.map (Event.wireOf role)).sum

/-- The bytes thrown away by decode errors of this side. -/
def lostOf (role : Role) (es : List Event) : ℕ := (es.map (Event.lostOf role)).sum

@[simp] theorem messagesOf_nil (role : Role) : messagesOf role [] = 0 := rfl
@[simp] theorem wireOf_nil (role : Role) : wireOf role [] = 0 := rfl
@[simp] theorem lostOf_nil (role : Role) : lostOf role [] = 0 := rfl

@[simp] theorem messagesOf_append (role : Role) (es fs : List Event) :
    messagesOf role (es ++ fs) = messagesOf role es + messagesOf role fs := List.countP_append

@[simp] theorem wireOf_append (role : Role) (es fs : List Event) :
    wireOf role (es ++ fs) = wireOf role es + wireOf role fs := by
  simp [wireOf]

@[simp] theorem lostOf_append (role : Role) (es fs : List Event) :
    lostOf role (es ++ fs) = lostOf role es + lostOf role fs := by
  simp [lostOf]

/-- Handling a message has emitted `n` records, all of them messages of this side, and counted as many
messages with their wire bytes. -/
def CountsItsRecords (dir : Direction) (outcome : DrainOutcome) (h : Handled) (n : ℕ) : Prop :=
  h.events.length = n ∧ messagesOf dir.role h.events = n ∧ h.outcome.msgs = outcome.msgs + n ∧
    h.outcome.bytes = outcome.bytes + wireOf dir.role h.events

theorem HandledOne.countsItsRecords {dir : Direction} {outcome : DrainOutcome} {consumed : ℕ}
    {body : Body} {h : Handled} (hh : HandledOne dir outcome consumed body h) :
    CountsItsRecords dir outcome h 1 := by
  refine ⟨by rw [hh.events]; rfl, ?_, hh.msgs, ?_⟩
  · simp [hh.events, messagesOf, Event.isMessageOf, Direction.emitter]
  · simp [hh.bytes, hh.events, wireOf, Event.wireOf, Direction.emitter]

/-- **One record for each message**: every frontend message but the peek, and every backend message. -/
theorem handled_countsItsRecords (pg : Decoder) (dir : Direction) (outcome : DrainOutcome)
    (consumed : ℕ) :
    (∀ msg, CountsItsRecords dir outcome (handleFrontend dir msg outcome consumed)
        (if msg.isPeek then 0 else 1)) ∧
      ∀ msg, CountsItsRecords dir outcome (handleBackend pg dir msg outcome consumed) 1 := by
  refine ⟨?_, ?_⟩
  · intro msg
    cases hpeek : msg.isPeek with
    | true =>
      rw [handleFrontend_peek hpeek]
      exact ⟨rfl, rfl, rfl, rfl⟩
    | false =>
      obtain ⟨body, hh⟩ := handleFrontend_one hpeek dir outcome consumed
      exact hh.countsItsRecords
  · intro msg
    obtain ⟨_, body, hh⟩ := handleBackend_one pg msg dir outcome consumed
    exact hh.countsItsRecords

/-! ### Whole drains -/

/-- The events of a drain of this side: its messages and its decode errors. -/
def Event.ofRole (role : Role) : Event → Prop
  | .message emitter _ _ => emitter.role = role
  | .decodeError r _ _ _ => r = role
  | _ => False

theorem messagesOf_other {role other : Role} (hne : role ≠ other) {es : List Event}
    (h : ∀ e ∈ es, e.ofRole role) : messagesOf other es = 0 := by
  rw [messagesOf, List.countP_eq_zero]
  intro e he
  have := h e he
  cases e with
  | message emitter body wire =>
    simp only [Event.ofRole] at this
    simpa [Event.isMessageOf, this] using hne
  | _ => simp [Event.isMessageOf]

theorem wireOf_other {role other : Role} (hne : role ≠ other) {es : List Event}
    (h : ∀ e ∈ es, e.ofRole role) : wireOf other es = 0 := by
  apply List.sum_eq_zero
  simp only [List.forall_mem_map]
  intro e he
  have := h e he
  cases e with
  | message emitter body wire =>
    simp only [Event.ofRole] at this
    simp [Event.wireOf, this, hne]
  | _ => rfl

theorem lostOf_other {role other : Role} (hne : role ≠ other) {es : List Event}
    (h : ∀ e ∈ es, e.ofRole role) : lostOf other es = 0 := by
  apply List.sum_eq_zero
  simp only [List.forall_mem_map]
  intro e he
  have := h e he
  cases e with
  | decodeError r left error lost =>
    simp only [Event.ofRole] at this
    simp [Event.lostOf, this, hne]
  | _ => rfl

/-- Records that are not there have no wire length. -/
theorem wireOf_of_no_messages {role : Role} {es : List Event} (h : messagesOf role es = 0) :
    wireOf role es = 0 := by
  apply List.sum_eq_zero
  simp only [List.forall_mem_map]
  intro e he
  have := List.countP_eq_zero.mp h e he
  cases e with
  | message emitter body wire =>
    rw [Event.isMessageOf, beq_iff_eq] at this
    exact if_neg this
  | _ => rfl

/-- The balance of a drain that began with `dir` and an empty outcome. -/
structure Accounted (dir : Direction) (s : Draining) : Prop where
  msgs : s.outcome.msgs = messagesOf dir.role s.events
  bytes : s.outcome.bytes = wireOf dir.role s.events
  balance : dir.rxbuf.length
    = s.dir.rxbuf.length + wireOf dir.role s.events + lostOf dir.role s.events
  ofRole : ∀ e ∈ s.events, e.ofRole dir.role
  encrypted : s.outcome.encrypted = s.events.any Event.isAccept
  role : s.dir.role = dir.role
  client : s.dir.client = dir.client
  nextSeq : s.dir.nextSeq = dir.nextSeq
  ooo : s.dir.ooo = dir.ooo

theorem accounted_start (dir : Direction) : Accounted dir ⟨dir, {}, []⟩ :=
  ⟨rfl, rfl, rfl, by simp, rfl, rfl, rfl, rfl, rfl⟩

theorem accounted_message {dir : Direction} {s : Draining} (hs : Accounted dir s) {wire rest : Bytes}
    {body : Body} {h : Handled} (hfront : s.dir.rxbuf = wire ++ rest)
    (hone : HandledOne { s.dir with rxbuf := rest } s.outcome wire.length body h) :
    Accounted dir ⟨h.dir, h.outcome, s.events ++ h.events⟩ := by
  have hrole : (Direction.emitter { s.dir with rxbuf := rest }).role = dir.role := hs.role
  have hlen := congrArg List.length hfront
  rw [List.length_append] at hlen
  have hmsg : messagesOf dir.role h.events = 1 := by
    simp [hone.events, messagesOf, Event.isMessageOf, hrole]
  have hwire : wireOf dir.role h.events = wire.length := by
    simp [hone.events, wireOf, Event.wireOf, hrole]
  have hlost : lostOf dir.role h.events = 0 := by
    simp [hone.events, lostOf, Event.lostOf]
  refine ⟨?_, ?_, ?_, ?_, ?_, hone.role.trans hs.role, hone.client.trans hs.client,
    hone.nextSeq.trans hs.nextSeq, hone.ooo.trans hs.ooo⟩
  · rw [hone.msgs, hs.msgs, messagesOf_append, hmsg]
  · rw [hone.bytes, hs.bytes, wireOf_append, hwire]
  · rw [hs.balance, hone.rxbuf, wireOf_append, lostOf_append, hwire, hlost]
    show s.dir.rxbuf.length + _ + _ = rest.length + _ + _
    omega
  · intro e he
    rw [List.mem_append, hone.events, List.mem_singleton] at he
    rcases he with he | rfl
    · exact hs.ofRole e he
    · exact hrole
  · rw [hone.encrypted, hs.encrypted, hone.events]
    simp [Event.isAccept]

theorem accounted_error {dir : Direction} {s : Draining} (hs : Accounted dir s) (e : String)
    (rest : Bytes) : Accounted dir (decodeError s.dir.role e rest s.dir.rxbuf.length s) := by
  refine ⟨?_, ?_, ?_, ?_, ?_, hs.role, hs.client, hs.nextSeq, hs.ooo⟩
  · simp [decodeError, hs.msgs, messagesOf, Event.isMessageOf]
  · simp [decodeError, hs.bytes, wireOf, Event.wireOf]
  · have hb := hs.balance
    simp [decodeError, wireOf, lostOf, Event.wireOf, Event.lostOf, hs.role] at hb ⊢
    omega
  · intro ev hev
    simp only [decodeError, List.mem_append, List.mem_singleton] at hev
    rcases hev with hev | rfl
    · exact hs.ofRole ev hev
    · exact hs.role
  · simp [decodeError, hs.encrypted, Event.isAccept]

/-- One turn keeps the balance, whether it comes round again or leaves the loop. -/
theorem accounted_turn {pg : Decoder} (hpg : pg.Consumes) {dir : Direction} {s : Draining}
    (hs : Accounted dir s) :
    (∀ s', roleTurn pg dir.role s = .inl s' → Accounted dir s') ∧
      (∀ s', roleTurn pg dir.role s = .inr s' → Accounted dir s') := by
  have hspec := turn_spec hpg s
  rw [hs.role] at hspec
  generalize roleTurn pg dir.role s = r at hspec
  cases hspec with
  | idle quiet => exact ⟨by simp, by simpa using hs⟩
  | peek client ssl loud =>
    refine ⟨?_, by simp⟩
    rintro s' ⟨⟩
    exact ⟨hs.msgs, hs.bytes, hs.balance, hs.ofRole, hs.encrypted, hs.role, hs.client, hs.nextSeq, hs.ooo⟩
  | message wire rest body h loud nonempty front one server =>
    have hacc := accounted_message hs front one
    cases h.more
    · exact ⟨by simp, by simpa using hacc⟩
    · exact ⟨by simpa using hacc, by simp⟩
  | error e rest loud => exact ⟨by simp, by simpa using accounted_error hs e rest⟩

/-- What a drain still has to do: a byte for each message, and one turn for the peek. -/
def drainMeasure (s : Draining) : ℕ :=
  s.dir.rxbuf.length + if s.dir.ctx.awaitingFrontendSsl then 1 else 0

/-- **The drain ends on every buffer**, within two turns more than there are bytes. -/
theorem drain_ends {pg : Decoder} (hpg : pg.Consumes) (dir : Direction) (outcome : DrainOutcome) :
    ∃ s, loop (roleTurn pg dir.role) (dir.rxbuf.length + 2) ⟨dir, outcome, []⟩ = some s := by
  refine ends_of_measure (fun s => s.dir.role = dir.role) drainMeasure ?_
    (dir.rxbuf.length + 2) ⟨dir, outcome, []⟩ rfl ?_
  · intro s s' hs hturn
    have hspec := turn_spec hpg s
    rw [hs] at hspec
    rw [hturn] at hspec
    generalize hr : (Sum.inl s' : Draining ⊕ Draining) = r at hspec
    cases hspec with
    | idle quiet => cases hr
    | peek client ssl loud =>
      cases hr
      exact ⟨hs, by simp [drainMeasure, ssl]⟩
    | message wire rest body h loud nonempty front one server =>
      have hwire := List.length_pos_iff.mpr nonempty
      have hlen := congrArg List.length front
      rw [List.length_append] at hlen
      cases hmore : h.more with
      | false => simp [hmore] at hr
      | true =>
        simp only [hmore, if_true, Sum.inl.injEq] at hr
        subst hr
        refine ⟨one.role.trans hs, ?_⟩
        have hrx : h.dir.rxbuf = rest := one.rxbuf
        have hssl := one.ssl
        simp only [drainMeasure, hrx]
        cases hflag : h.dir.ctx.awaitingFrontendSsl with
        | false => simp; omega
        | true => simp [show s.dir.ctx.awaitingFrontendSsl = true from hssl hflag]; omega
    | error e rest loud => cases hr
  · simp only [drainMeasure]
    split <;> omega

/-- The drain of a direction with a fresh outcome is where its loop ends. -/
theorem drainDirection_ends {pg : Decoder} (hpg : pg.Consumes) (dir : Direction) :
    Ends (roleTurn pg dir.role) ⟨dir, {}, []⟩ (drainDirection pg dir {}) := by
  obtain ⟨s, hs⟩ := drain_ends hpg dir {}
  refine ⟨dir.rxbuf.length + 2, ?_⟩
  simp [drainDirection, hs]

/-- **The drain balances.** -/
theorem drain_account {pg : Decoder} (hpg : pg.Consumes) (dir : Direction) :
    Accounted dir (drainDirection pg dir {}) :=
  Ends.invariant (Accounted dir) (Accounted dir) (fun _ _ hs => (accounted_turn hpg hs).1 _)
    (fun _ _ hs => (accounted_turn hpg hs).2 _) (accounted_start dir) (drainDirection_ends hpg dir)

/-- **The drain rule.**  What holds on entry and is kept by each turn of the side's loop holds of the
drain. -/
theorem drain_kept {pg : Decoder} (hpg : pg.Consumes) (Inv : Draining → Prop) {dir : Direction}
    (hstart : Inv ⟨dir, {}, []⟩)
    (hturn : ∀ s, s.dir.role = dir.role → Inv s → (roleTurn pg dir.role s).elim Inv Inv) :
    Inv (drainDirection pg dir {}) := by
  refine (Ends.kept (fun s => Accounted dir s ∧ Inv s) (fun s hs => ?_) ⟨accounted_start dir, hstart⟩
    (drainDirection_ends hpg dir)).2
  have hacc := accounted_turn hpg hs.1
  have hinv := hturn s hs.1.role hs.2
  cases ht : roleTurn pg dir.role s with
  | inl s' =>
    rw [ht] at hinv
    exact ⟨hacc.1 s' ht, hinv⟩
  | inr r =>
    rw [ht] at hinv
    exact ⟨hacc.2 r ht, hinv⟩

end Tapgres.Decode
