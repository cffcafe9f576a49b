import Tapgres.Decode.Streams

/-!
# Drains of the server while an answer is awaited

The server's flags say which one-byte answer is awaited, if any; the answer clears its flag.

* `drain_unawaited` — while none is awaited, a drain reports none, and awaits none afterwards;
* `drain_awaited` — while one is, the drain reports it first, or nothing that is one;
* `drain_silent` — a drain reports nothing exactly when pgwire finds nothing.
-/

namespace Tapgres.Decode

open Tapgres.Net Tapgres.Pgwire Tapgres.Flow Tapgres.Lib.Loop
open Relation (ReflTransGen)

/-! ### Answers -/

/-- The server's record of an answer: a warning, if it accepts. -/
def Event.isReply : Event → Bool
  | .message emitter (.warn _) _ => emitter.role == .server
  | .message emitter (.emit kind _ _) _ =>
    emitter.role == .server && (kind == "SslResponse" || kind == "GssEncResponse")
  | _ => false

/-- An answer is awaited from the server. -/
def AwaitsAnswer (ctx : DecodeContext) : Prop :=
  ctx.awaitingBackendSslResponse = true ∨ ctx.awaitingBackendGssResponse = true

instance (ctx : DecodeContext) : Decidable (AwaitsAnswer ctx) :=
  inferInstanceAs (Decidable (_ ∨ _))

/-- A backend message is reported as an answer exactly if it is one. -/
theorem handleBackend_reply (pg : Decoder) (m : BackendMessage) {d : Direction} (hrole : d.role = .server)
    (o : DrainOutcome) (n : ℕ) :
    ∃ e, (handleBackend pg d m o n).events = [e] ∧ e.isReply = m.isAnswer ∧
      (handleBackend pg d m o n).outcome.encrypted = (o.encrypted || m.isAccept) := by
  have hemitter : ∀ kind text detail, (kind == "SslResponse" || kind == "GssEncResponse") = false →
      Event.isReply (.message (Direction.emitter d) (.emit kind text detail) n) = false := by
    intro kind text detail hkind
    rw [Event.isReply, hkind, Bool.and_false]
  have hserver : ((Direction.emitter d).role == Role.server) = true := by
    simp [Direction.emitter, hrole]
  cases m with
  | dataRow r =>
    rw [handleBackend]
    cases d.rowDesc.isSome <;> exact ⟨_, rfl, hemitter _ _ _ (by decide), (Bool.or_false _).symm⟩
  | sslResponse s =>
    cases s with
    | accept => exact ⟨_, rfl, hserver, (Bool.or_true _).symm⟩
    | _ => exact ⟨_, rfl, (congrArg (· && _) hserver).trans (by decide), (Bool.or_false _).symm⟩
  | gssEncResponse s =>
    cases s with
    | accept => exact ⟨_, rfl, hserver, (Bool.or_true _).symm⟩
    | _ => exact ⟨_, rfl, (congrArg (· && _) hserver).trans (by decide), (Bool.or_false _).symm⟩
  | _ => exact ⟨_, rfl, hemitter _ _ _ (by decide), (Bool.or_false _).symm⟩

/-! ### No answer awaited -/

/-- The drain of a server from which no answer is awaited, and what it has reported since `before`. -/
structure Unawaited (encrypted : Bool) (before : List Event) (s : Draining) : Prop where
  role : s.dir.role = .server
  none : ¬AwaitsAnswer s.dir.ctx
  encrypted : s.outcome.encrypted = encrypted
  events : ∃ es, s.events = before ++ es ∧ ∀ e ∈ es, e.isReply = false

theorem Unawaited.start {s : Draining} (hrole : s.dir.role = .server) (hnone : ¬AwaitsAnswer s.dir.ctx) :
    Unawaited s.outcome.encrypted s.events s :=
  ⟨hrole, hnone, rfl, [], (List.append_nil _).symm, by simp⟩

section Server

variable {pg : Decoder} (hpg : pg.Stepwise)
include hpg

/-- An answer is decoded only while it is awaited. -/
theorem answer_awaited {buf rest : Bytes} {ctx : DecodeContext} {m : BackendMessage}
    (hdec : pg.decodeBackend buf ctx = (.ok (some m), rest)) (hm : m.isAnswer = true) :
    AwaitsAnswer ctx := by
  cases m with
  | sslResponse s => exact .inl (hpg.negotiates.sslAnswer _ _ _ _ hdec)
  | gssEncResponse s => exact .inr (hpg.negotiates.gssAnswer _ _ _ _ hdec)
  | _ => cases hm

omit hpg in
theorem ctxAfter_other {m : BackendMessage} (hm : m.isAnswer = false) (ctx : DecodeContext) :
    ctxAfter ctx m = ctx := by
  cases m with
  | sslResponse s => cases hm
  | gssEncResponse s => cases hm
  | _ => rfl

omit hpg in
theorem isAccept_of_isAnswer {m : BackendMessage} (hm : m.isAnswer = false) : m.isAccept = false := by
  cases m with
  | sslResponse s => cases hm
  | gssEncResponse s => cases hm
  | _ => rfl

/-- A turn of the server loop, no answer being awaited. -/
theorem serverTurn_unawaited {encrypted : Bool} {before : List Event} {s : Draining}
    (hs : Unawaited encrypted before s) :
    (serverTurn pg s).elim (Unawaited encrypted before) (Unawaited encrypted before) := by
  obtain ⟨es, hes, hreply⟩ := hs.events
  have hmore : ∀ e : Event, e.isReply = false →
      ∃ es', s.events ++ [e] = before ++ es' ∧ ∀ x ∈ es', x.isReply = false := by
    intro e he
    refine ⟨es ++ [e], by rw [hes, List.append_assoc], ?_⟩
    intro x hx
    rcases List.mem_append.mp hx with hx | hx
    · exact hreply x hx
    · rwa [List.mem_singleton.mp hx]
  rw [serverTurn]
  rcases hdec : pg.decodeBackend s.dir.rxbuf s.dir.ctx with ⟨e | _ | m, rest⟩
  · rw [drainTurn_error hdec]
    exact ⟨hs.role, hs.none, hs.encrypted, hmore _ rfl⟩
  · rw [drainTurn_none hdec]
    exact ⟨hs.role, hs.none, hs.encrypted, hs.events⟩
  · rw [drainTurn_some hdec]
    have hanswer : m.isAnswer = false := by
      by_contra h
      exact hs.none (answer_awaited hpg hdec (by simpa using h))
    generalize hn : s.dir.rxbuf.length - rest.length = n
    obtain ⟨hmore', _, hone⟩ := handleBackend_one pg m { s.dir with rxbuf := rest } s.outcome n
    obtain ⟨e, hevents, he, henc⟩ :=
      handleBackend_reply pg m (d := { s.dir with rxbuf := rest }) hs.role s.outcome n
    have hctx := handleBackend_ctx pg m { s.dir with rxbuf := rest } s.outcome n
    rw [ctxAfter_other hanswer] at hctx
    rw [Handled.next, if_pos hmore', hevents]
    refine ⟨hone.role.trans hs.role, ?_, ?_, hmore e (he.trans hanswer)⟩
    · rw [hctx]
      exact hs.none
    · show (handleBackend pg _ m s.outcome n).outcome.encrypted = encrypted
      rw [henc, isAccept_of_isAnswer hanswer, Bool.or_false, hs.encrypted]

/-- The rest of a drain, from where no answer is awaited. -/
theorem ends_unawaited {encrypted : Bool} {before : List Event} {s r : Draining}
    (hs : Unawaited encrypted before s) (h : Ends (serverTurn pg) s r) : Unawaited encrypted before r :=
  Ends.kept _ (fun _ => serverTurn_unawaited hpg) hs h

/-- **While no answer is awaited**, a drain of the server reports none. -/
theorem drain_unawaited {d : Direction} (hrole : d.role = .server) (hnone : ¬AwaitsAnswer d.ctx) :
    Unawaited false [] (drainDirection pg d {}) := by
  have hends := drainDirection_ends hpg.consumes d
  rw [show roleTurn pg d.role = serverTurn pg from by rw [hrole]; rfl] at hends
  exact ends_unawaited hpg (Unawaited.start (s := ⟨d, {}, []⟩) hrole hnone) hends

/-- **While an answer is awaited**, a drain of the server reports it first, and awaits none behind it, or
pgwire decodes nothing, and it is awaited as before. -/
theorem drain_awaited (hreplies : pg.Replies) {d : Direction} (hrole : d.role = .server)
    (hawaits : AwaitsAnswer d.ctx)
    (hone : ¬(d.ctx.awaitingBackendSslResponse = true ∧ d.ctx.awaitingBackendGssResponse = true)) :
    ((∀ m rest, pg.decodeBackend d.rxbuf d.ctx ≠ (.ok (some m), rest)) ∧
        (drainDirection pg d {}).dir.ctx = d.ctx ∧ (drainDirection pg d {}).outcome.encrypted = false ∧
        ∀ e ∈ (drainDirection pg d {}).events, e.isReply = false) ∨
      ∃ m rest e, pg.decodeBackend d.rxbuf d.ctx = (.ok (some m), rest) ∧ e.isReply = true ∧
        Unawaited m.isAccept [e] (drainDirection pg d {}) := by
  have hends := drainDirection_ends hpg.consumes d
  rw [show roleTurn pg d.role = serverTurn pg from by rw [hrole]; rfl] at hends
  rcases hdec : pg.decodeBackend d.rxbuf d.ctx with ⟨e | _ | m, rest⟩
  · have hturn : serverTurn pg ⟨d, {}, []⟩ = _ :=
      drainTurn_error (s := ⟨d, {}, []⟩) hdec
    rw [hends.unique (.exit hturn)]
    exact .inl ⟨by simp, rfl, rfl, by simp [decodeError, Event.isReply]⟩
  · have hturn : serverTurn pg ⟨d, {}, []⟩ = _ :=
      drainTurn_none (s := ⟨d, {}, []⟩) hdec
    rw [hends.unique (.exit hturn)]
    exact .inl ⟨by simp, rfl, rfl, by simp⟩
  · right
    have hanswer := hreplies _ _ _ _ hawaits hdec
    have hturn : serverTurn pg ⟨d, {}, []⟩ = _ :=
      drainTurn_some (s := ⟨d, {}, []⟩) hdec
    obtain ⟨hmore, _, hkept⟩ :=
      handleBackend_one pg m { d with rxbuf := rest } {} (d.rxbuf.length - rest.length)
    obtain ⟨e, hevents, he, henc⟩ := handleBackend_reply pg m (d := { d with rxbuf := rest }) hrole {}
      (d.rxbuf.length - rest.length)
    have hctx := handleBackend_ctx pg m { d with rxbuf := rest } {} (d.rxbuf.length - rest.length)
    rw [Handled.next, if_pos hmore] at hturn
    -- the answer clears the one flag that is set
    have hnone : ¬AwaitsAnswer (ctxAfter d.ctx m) := by
      cases m with
      | sslResponse s =>
        have hssl := hpg.negotiates.sslAnswer _ _ _ _ hdec
        exact fun h => hone ⟨hssl, h.resolve_left Bool.false_ne_true⟩
      | gssEncResponse s =>
        have hgss := hpg.negotiates.gssAnswer _ _ _ _ hdec
        exact fun h => hone ⟨h.resolve_right Bool.false_ne_true, hgss⟩
      | _ => cases hanswer
    refine ⟨m, rest, e, rfl, he.trans hanswer, ?_⟩
    refine ends_unawaited hpg ?_ (hends.after (.single hturn))
    exact ⟨hkept.role.trans hrole, by rw [hctx]; exact hnone, by rw [henc]; rfl, [], by simp [hevents], by simp⟩

end Server

/-! ### Drains that report nothing -/

/-- **A drain reports nothing exactly when pgwire finds nothing**, where no peek is to be made. -/
theorem drain_silent {pg : Decoder} (hpg : pg.Consumes) {d : Direction}
    (hssl : d.role = .client → d.ctx.awaitingFrontendSsl = false) :
    (drainDirection pg d {}).events = [] ↔ Quiet pg d := by
  constructor
  · intro hsilent
    by_contra hloud
    -- the first turn reports something, and the others keep it
    have hturn : ∀ s : Draining, s.dir.role = d.role → s.dir = d ∨ s.events ≠ [] →
        (roleTurn pg d.role s).elim (fun t => t.dir.role = d.role ∧ t.events ≠ []) (·.events ≠ []) := by
      intro s hs hspoken
      have hspec := turn_spec hpg s
      rw [hs] at hspec
      generalize roleTurn pg d.role s = t at hspec
      have hsame : Quiet pg s.dir → s.events ≠ [] := fun hquiet =>
        hspoken.resolve_left fun hd => hloud (hd ▸ hquiet)
      cases hspec with
      | idle quiet => exact hsame quiet
      | peek client ssl _ =>
        refine ⟨hs, hspoken.resolve_left fun hd => ?_⟩
        rw [hd, hssl (hs.symm.trans client)] at ssl
        cases ssl
      | message _ _ _ h _ _ _ one _ =>
        have hne : s.events ++ h.events ≠ [] := by
          rw [one.events]
          exact List.append_ne_nil_of_right_ne_nil _ (by simp)
        split
        · exact ⟨one.role.trans hs, hne⟩
        · exact hne
      | error _ _ _ => exact List.append_ne_nil_of_right_ne_nil _ (by simp)
    refine Ends.invariant (fun s => s.dir.role = d.role ∧ (s.dir = d ∨ s.events ≠ [])) (·.events ≠ [])
      (fun s t hs ht => ?_) (fun s r hs hr => ?_) ⟨rfl, .inl rfl⟩ (drainDirection_ends hpg d) hsilent
    · have := hturn s hs.1 hs.2
      rw [ht] at this
      exact ⟨this.1, .inr this.2⟩
    · have := hturn s hs.1 hs.2
      rwa [hr] at this
  · intro hquiet
    have h := whole_of_quiet hpg (d := d) (S := d.rxbuf) hquiet
    rw [whole] at h
    exact congrArg Draining.events h

end Tapgres.Decode
