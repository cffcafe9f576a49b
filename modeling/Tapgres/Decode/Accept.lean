import Tapgres.Decode.Drain

/-!
# Drains in which the server accepts encryption

The server loop of `drain_direction` does not look at `outcome.encrypted` again once it has set it: it
goes round as long as pgwire decodes something.  So what is emitted behind an accepted negotiation
depends on the bytes behind the accept byte alone:

* `serverTurn_cases` — a turn of the server loop, in terms of what pgwire decodes;
* `drain_silent_iff` — a server drain emits nothing behind an accept exactly when pgwire decodes nothing
  from the bytes behind it.
-/

namespace Tapgres.Decode

open Tapgres.Net Tapgres.Pgwire Tapgres.Flow Tapgres.Lib.Loop

/-! ### The server loop -/

/-- The flags after a backend message: a negotiation answer is one-shot. -/
def ctxAfter (ctx : DecodeContext) : BackendMessage → DecodeContext
  | .sslResponse _ => { ctx with awaitingBackendSslResponse := false }
  | .gssEncResponse _ => { ctx with awaitingBackendGssResponse := false }
  | _ => ctx

theorem handleBackend_ctx (pg : Decoder) (msg : BackendMessage) (dir : Direction)
    (outcome : DrainOutcome) (consumed : ℕ) :
    (handleBackend pg dir msg outcome consumed).dir.ctx = ctxAfter dir.ctx msg := by
  cases msg with
  | dataRow r =>
    rw [handleBackend]
    cases dir.rowDesc.isSome <;> rfl
  | sslResponse s => cases s <;> rfl
  | gssEncResponse s => cases s <;> rfl
  | _ => rfl

/-- The record of a backend message is the warning exactly for an accepting answer. -/
theorem handleBackend_accept (pg : Decoder) (msg : BackendMessage) (dir : Direction)
    (outcome : DrainOutcome) (consumed : ℕ) :
    ∃ e, (handleBackend pg dir msg outcome consumed).events = [e] ∧ e.isAccept = msg.isAccept ∧
      e.isDecoded = true := by
  cases msg with
  | dataRow r =>
    rw [handleBackend]
    cases dir.rowDesc.isSome <;> exact ⟨_, rfl, rfl, rfl⟩
  | sslResponse s =>
    cases s with
    | accept => exact ⟨_, rfl, by simp [Event.isAccept, Body.isAccept, BackendMessage.isAccept], rfl⟩
    | _ => exact ⟨_, rfl, rfl, rfl⟩
  | gssEncResponse s =>
    cases s with
    | accept => exact ⟨_, rfl, by simp [Event.isAccept, Body.isAccept, BackendMessage.isAccept], rfl⟩
    | _ => exact ⟨_, rfl, rfl, rfl⟩
  | _ => exact ⟨_, rfl, rfl, rfl⟩

/-- A turn of the server loop: nothing decodes, a message does, or the decode fails. -/
inductive ServerTurn (pg : Decoder) (s : Draining) : Draining ⊕ Draining → Prop
  | idle (hdec : pg.decodeBackend s.dir.rxbuf s.dir.ctx = (.ok none, s.dir.rxbuf)) :
      ServerTurn pg s (.inr s)
  | message (m : BackendMessage) (rest : Bytes) (e : Event) (s' : Draining)
      (hdec : pg.decodeBackend s.dir.rxbuf s.dir.ctx = (.ok (some m), rest))
      (rxbuf : s'.dir.rxbuf = rest) (ctx : s'.dir.ctx = ctxAfter s.dir.ctx m)
      (events : s'.events = s.events ++ [e]) (accept : e.isAccept = m.isAccept)
      (decoded : e.isDecoded = true) : ServerTurn pg s (.inl s')
  | error (msg : String) (rest : Bytes) (e : Event) (s' : Draining)
      (hdec : pg.decodeBackend s.dir.rxbuf s.dir.ctx = (.error msg, rest))
      (events : s'.events = s.events ++ [e]) (decoded : e.isDecoded = true) : ServerTurn pg s (.inr s')

theorem serverTurn_cases {pg : Decoder} (hpg : pg.Consumes) (s : Draining) :
    ServerTurn pg s (serverTurn pg s) := by
  rcases hdec : pg.decodeBackend s.dir.rxbuf s.dir.ctx with ⟨msg | _ | m, rest⟩
  · rw [serverTurn, drainTurn_error hdec]
    exact .error msg rest _ _ hdec rfl rfl
  · rw [serverTurn, drainTurn_none hdec]
    obtain rfl := hpg.backend_none _ _ _ hdec
    exact .idle hdec
  · obtain ⟨hmore, _, hone⟩ := handleBackend_one pg m { s.dir with rxbuf := rest } s.outcome
      (s.dir.rxbuf.length - rest.length)
    obtain ⟨e, he, haccept, hdecoded⟩ := handleBackend_accept pg m { s.dir with rxbuf := rest } s.outcome
      (s.dir.rxbuf.length - rest.length)
    have hctx := handleBackend_ctx pg m { s.dir with rxbuf := rest } s.outcome
      (s.dir.rxbuf.length - rest.length)
    rw [serverTurn, drainTurn_some hdec, Handled.next, if_pos hmore]
    exact .message m rest e _ hdec hone.rxbuf hctx (by rw [he]) haccept hdecoded

/-! ### Behind an accept -/

/-- What lies behind the messages at the front of the buffer, with the flags they leave. -/
inductive Behind (pg : Decoder) (buf : Bytes) (ctx : DecodeContext) : Bytes → DecodeContext → Prop
  | front : Behind pg buf ctx buf ctx
  | next {mid rest : Bytes} {ctx' : DecodeContext} {m : BackendMessage} (h : Behind pg buf ctx mid ctx')
      (hdec : pg.decodeBackend mid ctx' = (.ok (some m), rest)) :
      Behind pg buf ctx rest (ctxAfter ctx' m)

/-- Behind an accepting answer in the buffer, pgwire decodes nothing: the bytes there, if any, are the
beginning of something. -/
def NothingBehindAccept (pg : Decoder) (buf : Bytes) (ctx : DecodeContext) : Prop :=
  ∀ mid ctx' m rest, Behind pg buf ctx mid ctx' → pg.decodeBackend mid ctx' = (.ok (some m), rest) →
    m.isAccept = true → pg.decodeBackend rest (ctxAfter ctx' m) = (.ok none, rest)

/-- A buffer from which pgwire decodes at most one message has nothing behind an accept. -/
theorem nothingBehind_of_last {pg : Decoder} {buf rest : Bytes} {ctx : DecodeContext}
    {m : Option BackendMessage} (hdec : pg.decodeBackend buf ctx = (.ok m, rest))
    (hlast : ∀ msg, m = some msg → pg.decodeBackend rest (ctxAfter ctx msg) = (.ok none, rest)) :
    NothingBehindAccept pg buf ctx := by
  have hbehind : ∀ mid ctx', Behind pg buf ctx mid ctx' →
      (mid = buf ∧ ctx' = ctx) ∨ pg.decodeBackend mid ctx' = (.ok none, mid) := by
    intro mid ctx' h
    induction h with
    | front => exact .inl ⟨rfl, rfl⟩
    | next _ hdec' ih =>
      rcases ih with ⟨rfl, rfl⟩ | hquiet
      · cases hdec.symm.trans hdec'
        exact .inr (hlast _ rfl)
      · cases hquiet.symm.trans hdec'
  intro mid ctx' msg rest' h hdec' _
  rcases hbehind mid ctx' h with ⟨rfl, rfl⟩ | hquiet
  · cases hdec.symm.trans hdec'
    exact hlast _ rfl
  · cases hquiet.symm.trans hdec'

/-- Nothing is decoded after an accept. -/
def Silenced (e e' : Event) : Prop := e.isAccept = true → e'.isDecoded = false

/-- The state of the server loop while it keeps silent behind an accept. -/
structure KeepsSilent (pg : Decoder) (dir : Direction) (s : Draining) : Prop where
  behind : Behind pg dir.rxbuf dir.ctx s.dir.rxbuf s.dir.ctx
  silent : s.events.Pairwise Silenced
  quiet : (∃ e ∈ s.events, e.isAccept = true) →
    pg.decodeBackend s.dir.rxbuf s.dir.ctx = (.ok none, s.dir.rxbuf)

/-- An event may follow events none of which is an accept. -/
theorem silenced_snoc {es : List Event} (h : es.Pairwise Silenced) (hno : ¬∃ e ∈ es, e.isAccept = true)
    (e' : Event) : (es ++ [e']).Pairwise Silenced := by
  rw [List.pairwise_append]
  refine ⟨h, List.pairwise_singleton _ _, ?_⟩
  intro e he _ _ haccept
  exact absurd ⟨e, he, haccept⟩ hno

theorem serverTurn_silent {pg : Decoder} (hpg : pg.Consumes) {dir : Direction}
    (hbehind : NothingBehindAccept pg dir.rxbuf dir.ctx) {s : Draining} (hs : KeepsSilent pg dir s) :
    (∀ s', serverTurn pg s = .inl s' → KeepsSilent pg dir s') ∧
      ∀ s', serverTurn pg s = .inr s' → s'.events.Pairwise Silenced := by
  have hturn := serverTurn_cases hpg s
  generalize serverTurn pg s = r at hturn
  cases hturn with
  | idle hdec => exact ⟨by simp, by rintro s' ⟨⟩; exact hs.silent⟩
  | message m rest e s' hdec hrx hctx hevents haccept hdecoded =>
    refine ⟨?_, by simp⟩
    rintro _ ⟨⟩
    have hno : ¬∃ e ∈ s.events, e.isAccept = true := by
      intro h
      rw [hs.quiet h] at hdec
      cases hdec
    refine ⟨?_, ?_, ?_⟩
    · rw [hrx, hctx]
      exact .next hs.behind hdec
    · rw [hevents]
      exact silenced_snoc hs.silent hno e
    · rw [hevents]
      rintro ⟨e', he', hacc⟩
      rcases List.mem_append.mp he' with hold | hnew
      · exact absurd ⟨e', hold, hacc⟩ hno
      · rw [List.mem_singleton.mp hnew, haccept] at hacc
        rw [hrx, hctx]
        exact hbehind _ _ _ _ hs.behind hdec hacc
  | error msg rest e s' hdec hevents hdecoded =>
    refine ⟨by simp, ?_⟩
    rintro _ ⟨⟩
    have hno : ¬∃ e ∈ s.events, e.isAccept = true := by
      intro h
      rw [hs.quiet h] at hdec
      cases hdec
    rw [hevents]
    exact silenced_snoc hs.silent hno e

/-- Messages at the front of the buffer are decoded by as many turns. -/
theorem turns_of_behind {pg : Decoder} (hpg : pg.Consumes) {dir : Direction} {mid : Bytes}
    {ctx' : DecodeContext} (h : Behind pg dir.rxbuf dir.ctx mid ctx') :
    ∃ s, Relation.ReflTransGen (Turns (serverTurn pg)) ⟨dir, {}, []⟩ s ∧ s.dir.rxbuf = mid ∧
      s.dir.ctx = ctx' := by
  induction h with
  | front => exact ⟨_, .refl, rfl, rfl⟩
  | next _ hdec ih =>
    obtain ⟨s, hreach, rfl, rfl⟩ := ih
    have hturn := serverTurn_cases hpg s
    generalize hr : serverTurn pg s = r at hturn
    cases hturn with
    | idle hdec' => cases hdec.symm.trans hdec'
    | message m rest e s' hdec' hrx hctx _ _ _ =>
      cases hdec.symm.trans hdec'
      exact ⟨s', hreach.tail hr, hrx, hctx⟩
    | error msg rest e s' hdec' _ _ => cases hdec.symm.trans hdec'

/-- The events of a loop only grow. -/
theorem serverEnds_grows {pg : Decoder} (hpg : pg.Consumes) {s r : Draining}
    (h : Ends (serverTurn pg) s r) : s.events <+: r.events := by
  refine Ends.invariant (fun t : Draining => s.events <+: t.events)
    (fun t : Draining => s.events <+: t.events) ?_ ?_ (List.prefix_refl _) h
  · intro t t' ht hturn
    have hcases := serverTurn_cases hpg t
    rw [hturn] at hcases
    cases hcases with
    | message m rest e _ _ _ _ hevents _ _ => exact ht.trans ⟨[e], hevents.symm⟩
  · intro t t' ht hturn
    have hcases := serverTurn_cases hpg t
    rw [hturn] at hcases
    cases hcases with
    | idle _ => exact ht
    | error msg rest e _ _ hevents _ => exact ht.trans ⟨[e], hevents.symm⟩

/-- Where something can be decoded, something more is emitted. -/
theorem serverEnds_loud {pg : Decoder} (hpg : pg.Consumes) {s r : Draining}
    (h : Ends (serverTurn pg) s r)
    (hloud : pg.decodeBackend s.dir.rxbuf s.dir.ctx ≠ (.ok none, s.dir.rxbuf)) :
    ∃ e, e.isDecoded = true ∧ s.events ++ [e] <+: r.events := by
  have hcases := serverTurn_cases hpg s
  generalize ht : serverTurn pg s = t at hcases
  cases hcases with
  | idle hdec => exact absurd hdec hloud
  | message m rest e s' _ _ _ hevents _ hdecoded =>
    have hgrow := serverEnds_grows hpg (h.after (.single ht))
    exact ⟨e, hdecoded, hevents ▸ hgrow⟩
  | error msg rest e s' _ hevents hdecoded =>
    obtain rfl := h.unique (.exit ht)
    exact ⟨e, hdecoded, hevents ▸ List.prefix_refl _⟩

/-- **A server drain is silent behind an accept exactly when nothing decodes there.** -/
theorem drain_silent_iff {pg : Decoder} (hpg : pg.Consumes) {dir : Direction}
    (hrole : dir.role = .server) :
    (drainDirection pg dir {}).events.Pairwise Silenced ↔
      NothingBehindAccept pg dir.rxbuf dir.ctx := by
  have hends := drainDirection_ends hpg dir
  rw [hrole] at hends
  change Ends (serverTurn pg) _ _ at hends
  constructor
  · intro hsilent mid ctx' m rest hbehind hdec haccept
    by_contra hloud
    obtain ⟨s, hreach, rfl, rfl⟩ := turns_of_behind hpg hbehind
    have hcases := serverTurn_cases hpg s
    generalize ht : serverTurn pg s = t at hcases
    cases hcases with
    | idle hdec' => cases hdec.symm.trans hdec'
    | error msg rest e s' hdec' _ _ => cases hdec.symm.trans hdec'
    | message m' rest' e s' hdec' hrx hctx hevents hacc _ =>
      cases hdec.symm.trans hdec'
      rw [← hrx, ← hctx] at hloud
      obtain ⟨e', hdecoded, hpre⟩ := serverEnds_loud hpg (hends.after (hreach.tail ht)) hloud
      rw [hevents] at hpre
      have hpair := hsilent.sublist hpre.sublist
      rw [List.pairwise_append] at hpair
      have := hpair.2.2 e (by simp) e' (by simp) (hacc.trans haccept)
      rw [hdecoded] at this
      cases this
  · intro hbehind
    exact Ends.invariant (KeepsSilent pg dir) (fun r => r.events.Pairwise Silenced)
      (fun s s' hs => (serverTurn_silent hpg hbehind hs).1 s')
      (fun s r hs => (serverTurn_silent hpg hbehind hs).2 r)
      ⟨.front, .nil, by simp⟩ hends

/-! ### The client side -/

theorem handleFrontend_no_accept (dir : Direction) (msg : FrontendMessage) (outcome : DrainOutcome)
    (consumed : ℕ) : ∀ e ∈ (handleFrontend dir msg outcome consumed).events, e.isAccept = false := by
  cases msg with
  | sslNegotiation request => cases request <;> simp [handleFrontend, Event.isAccept, Body.isAccept]
  | _ => simp [handleFrontend, Event.isAccept, Body.isAccept]

/-- A client drain never accepts encryption. -/
theorem client_drain_no_accept {pg : Decoder} (hpg : pg.Consumes) {dir : Direction}
    (hrole : dir.role = .client) : ∀ e ∈ (drainDirection pg dir {}).events, e.isAccept = false := by
  have hends := drainDirection_ends hpg dir
  rw [hrole] at hends
  change Ends (clientTurn pg) _ _ at hends
  have hturn : ∀ s, (∀ e ∈ s.events, e.isAccept = false) →
      (∀ s', clientTurn pg s = .inl s' → ∀ e ∈ s'.events, e.isAccept = false) ∧
        ∀ s', clientTurn pg s = .inr s' → ∀ e ∈ s'.events, e.isAccept = false := by
    intro s hs
    have hmsg : ∀ rest msg n, ∀ e ∈ s.events ++ (handleFrontend { s.dir with rxbuf := rest } msg
        s.outcome n).events, e.isAccept = false := by
      intro rest msg n e he
      rcases List.mem_append.mp he with he | he
      · exact hs e he
      · exact handleFrontend_no_accept _ _ _ _ e he
    rcases hdec : pg.decodeFrontend s.dir.rxbuf s.dir.ctx with ⟨msg | _ | msg, rest⟩
    · rw [clientTurn, drainTurn_error hdec]
      refine ⟨by simp, ?_⟩
      rintro _ ⟨⟩ e he
      rcases List.mem_append.mp he with he | he
      · exact hs e he
      · rw [List.mem_singleton.mp he]
        rfl
    · rw [clientTurn, drainTurn_none hdec]
      exact ⟨by simp, by rintro _ ⟨⟩; exact hs⟩
    · rw [clientTurn, drainTurn_some hdec, Handled.next]
      split
      · exact ⟨by rintro _ ⟨⟩; exact hmsg _ _ _, by simp⟩
      · exact ⟨by simp, by rintro _ ⟨⟩; exact hmsg _ _ _⟩
  exact Ends.invariant (fun s : Draining => ∀ e ∈ s.events, e.isAccept = false)
    (fun s : Draining => ∀ e ∈ s.events, e.isAccept = false)
    (fun s s' hs => (hturn s hs).1 s') (fun s r hs => (hturn s hs).2 r) (by simp) hends

end Tapgres.Decode
