import Tapgres.Decode.Streams

/-!
# What is decoded of a secret

The messages of the password family are reported by their lengths only.  Two streams of a client are the
same up to their secrets when they are made of messages of the same lengths, equal ones but for the secret
of a password message, with the same bytes behind them (`Veiled`).

* `formatPmf_sameShape`, `handleFrontend_sameMessage` — what is reported of a message does not depend on
  its secret;
* `clientTurn_veiled` — two drains over such streams go through the same turns;
* `drain_veiled` — so they emit the same events, however much of the streams has arrived.
-/

namespace Tapgres.Decode

open Tapgres.Net Tapgres.Pgwire Tapgres.Flow Tapgres.Lib.Loop

/-! ### Messages that differ in their secrets -/

/-- Messages of the password family that differ at most in their secrets: of one kind, with secrets of one
length. -/
inductive SameShape : PasswordMessageFamily → PasswordMessageFamily → Prop
  | password {p p' : String} (h : p.utf8ByteSize = p'.utf8ByteSize) : SameShape (.password p) (.password p')
  | saslInitialResponse {authMethod : String} {data data' : Option Bytes}
      (h : data.map List.length = data'.map List.length) :
      SameShape (.saslInitialResponse authMethod data) (.saslInitialResponse authMethod data')
  | saslResponse {data data' : Bytes} (h : data.length = data'.length) :
      SameShape (.saslResponse data) (.saslResponse data')
  | raw {bytes bytes' : Bytes} (h : bytes.length = bytes'.length) : SameShape (.raw bytes) (.raw bytes')
  | other : SameShape .other .other

theorem formatPmf_sameShape {p p' : PasswordMessageFamily} (h : SameShape p p') :
    formatPmf p = formatPmf p' := by
  cases h with
  | other => rfl
  | _ h =>
    delta formatPmf
    dsimp only
    rw [h]

/-- Equal messages, or messages of the password family that differ in their secrets. -/
inductive SameMessage : FrontendMessage → FrontendMessage → Prop
  | refl (m : FrontendMessage) : SameMessage m m
  | secret {p p' : PasswordMessageFamily} (h : SameShape p p') :
      SameMessage (.passwordMessageFamily p) (.passwordMessageFamily p')

theorem SameMessage.startedCtx {m m' : FrontendMessage} (h : SameMessage m m') (ctx : DecodeContext) :
    startedCtx ctx m = startedCtx ctx m' := by
  cases h <;> rfl

theorem SameMessage.sslNegotiation {m m' : FrontendMessage} (h : SameMessage m m')
    (hm : ∀ r, m ≠ .sslNegotiation r) : ∀ r, m' ≠ .sslNegotiation r := by
  cases h with
  | refl => exact hm
  | secret => exact fun r hr => (by cases hr)

/-- **What is emitted of a message does not depend on its secret**, nor on the bytes behind it. -/
theorem handleFrontend_sameMessage {m m' : FrontendMessage} (h : SameMessage m m') (d : Direction)
    (buf buf' : Bytes) (outcome : DrainOutcome) (n : ℕ) :
    (handleFrontend { d with rxbuf := buf' } m' outcome n).events
      = (handleFrontend { d with rxbuf := buf } m outcome n).events := by
  cases h with
  | secret h =>
    show [Event.message _ (.emit "AuthData" (formatPmf _) none) n] = [.message _ (.emit "AuthData" (formatPmf _) none) n]
    rw [formatPmf_sameShape h]
    rfl
  | refl =>
    cases m with
    | sslNegotiation r => cases r <;> rfl
    | _ => rfl

/-! ### Streams that differ in their secrets -/

/-- Two streams of a client, the same up to their secrets: messages of the same lengths, equal ones but for
the secrets, and then the same bytes. -/
inductive Veiled (pg : Decoder) : DecodeContext → Bytes → Bytes → Prop
  | same (ctx : DecodeContext) (S : Bytes) : Veiled pg ctx S S
  | message {ctx : DecodeContext} {wire wire' S S' : Bytes} {m m' : FrontendMessage}
      (hlength : wire.length = wire'.length)
      (hdec : pg.decodeFrontend wire ctx = (.ok (some m), []))
      (hdec' : pg.decodeFrontend wire' ctx = (.ok (some m'), []))
      (hsame : SameMessage m m') (hrest : Veiled pg (startedCtx ctx m) S S') :
      Veiled pg ctx (wire ++ S) (wire' ++ S')

theorem Veiled.length {pg : Decoder} {ctx : DecodeContext} {S S' : Bytes} (h : Veiled pg ctx S S') :
    S.length = S'.length := by
  induction h with
  | same => rfl
  | message hlength _ _ _ _ ih => rw [List.length_append, List.length_append, hlength, ih]

/-- Two directions over such streams, of which `F` and `F'` have still to arrive. -/
structure SameView (pg : Decoder) (F F' : Bytes) (d d' : Direction) : Prop where
  dir : d' = { d with rxbuf := d'.rxbuf }
  length : d.rxbuf.length = d'.rxbuf.length
  role : d.role = .client
  ssl : d.ctx.awaitingFrontendSsl = false
  veiled : Veiled pg d.ctx (d.rxbuf ++ F) (d'.rxbuf ++ F')

/-- Two drains that have emitted the same, over such directions. -/
structure SameDrain (pg : Decoder) (F F' : Bytes) (s s' : Draining) : Prop where
  view : SameView pg F F' s.dir s'.dir
  outcome : s'.outcome = s.outcome
  events : s'.events = s.events

/-- Two texts with the same pieces in front: what is behind the shorter piece. -/
theorem append_split {α : Type} {a b c d : List α} (h : a ++ b = c ++ d) (hle : a.length ≤ c.length) :
    ∃ mid, c = a ++ mid ∧ b = mid ++ d := by
  rcases List.append_eq_append_iff.mp h with ⟨mid, hc, hb⟩ | ⟨mid, ha, hd⟩
  · exact ⟨mid, hc, hb⟩
  · have hnil : mid = [] := by
      rw [ha, List.length_append] at hle
      exact List.length_eq_zero_iff.mp (by omega)
    subst hnil
    exact ⟨[], by simpa using ha.symm, by simpa using hd.symm⟩

theorem startedCtx_ssl (ctx : DecodeContext) (m : FrontendMessage) :
    (startedCtx ctx m).awaitingFrontendSsl = ctx.awaitingFrontendSsl := by
  cases m <;> rfl

section Drain

variable {pg : Decoder} (hpg : pg.Lawful) {F F' : Bytes}
include hpg

/-- A message that is decoded on either side goes round. -/
theorem clientTurn_message {s s' : Draining} {wire wire' S S' : Bytes} {m m' : FrontendMessage}
    (h : SameDrain pg F F' s s') (hlength : wire.length = wire'.length)
    (hdec : pg.decodeFrontend wire s.dir.ctx = (.ok (some m), []))
    (hdec' : pg.decodeFrontend wire' s.dir.ctx = (.ok (some m'), []))
    (hsame : SameMessage m m') (hrest : Veiled pg (startedCtx s.dir.ctx m) S S')
    {left left' : Bytes} (hbuf : s.dir.rxbuf = wire ++ left) (hbuf' : s'.dir.rxbuf = wire' ++ left')
    (hS : S = left ++ F) (hS' : S' = left' ++ F') :
    Sum.LiftRel (SameDrain pg F F') (SameDrain pg F F') (clientTurn pg s) (clientTurn pg s') := by
  have hboth := h.view.length
  obtain ⟨⟨hdir, _, hrole, hssl, _⟩, houtcome, hevents⟩ := h
  -- the flag for a request is not set, so neither message is one
  have hm : ∀ r, m ≠ .sslNegotiation r := by
    rintro r rfl
    rw [hpg.negotiates.request _ _ _ _ hdec] at hssl
    cases hssl
  have hfirst : pg.decodeFrontend s.dir.rxbuf s.dir.ctx = (.ok (some m), left) := by
    rw [hbuf, hpg.appends.frontend _ _ _ left hdec]
  have hsecond : pg.decodeFrontend s'.dir.rxbuf s'.dir.ctx = (.ok (some m'), left') := by
    rw [hbuf', hdir, hpg.appends.frontend _ _ _ left' hdec']
  have hconsumed : s.dir.rxbuf.length - left.length = wire.length := by
    rw [hbuf, List.length_append]
    omega
  have hconsumed' : s'.dir.rxbuf.length - left'.length = wire.length := by
    rw [hbuf', List.length_append, hlength]
    omega
  obtain ⟨hmore, hcount, hafter⟩ :=
    handleFrontend_plain hm { s.dir with rxbuf := left } s.outcome wire.length
  obtain ⟨hmore', hcount', hafter'⟩ := handleFrontend_plain (hsame.sslNegotiation hm)
    { s.dir with rxbuf := left' } s.outcome wire.length
  have hother : ({ s'.dir with rxbuf := left' } : Direction) = { s.dir with rxbuf := left' } := by
    rw [hdir]
  rw [clientTurn, drainTurn_some hfirst, drainTurn_some hsecond, hconsumed, hconsumed', hother, houtcome,
    Handled.next, Handled.next, if_pos hmore, if_pos hmore']
  have hlen : left.length = left'.length := by
    have hS := congrArg List.length hS
    have hS' := congrArg List.length hS'
    have hrest := hrest.length
    rw [List.length_append] at hS hS'
    rw [hbuf, hbuf', List.length_append, List.length_append] at hboth
    omega
  refine Sum.LiftRel.inl ⟨⟨?_, ?_, ?_, ?_, ?_⟩, ?_, ?_⟩
  · simp only [hafter, hafter', hsame.startedCtx]
  · simpa only [hafter, hafter'] using hlen
  · simpa only [hafter] using hrole
  · simpa only [hafter, startedCtx_ssl] using hssl
  · simpa only [hafter, hafter', ← hS, ← hS'] using hrest
  · simp only [hcount, hcount']
  · simp only [hevents, handleFrontend_sameMessage hsame s.dir left left']

/-- A message of which only a part has arrived is waited for. -/
theorem clientTurn_begun {s : Draining} {more : Bytes} {m : FrontendMessage} (hmore : more ≠ [])
    (hdec : pg.decodeFrontend (s.dir.rxbuf ++ more) s.dir.ctx = (.ok (some m), [])) :
    clientTurn pg s = .inr s := by
  rw [clientTurn, drainTurn_none (hpg.waits.frontend _ _ _ _ hmore hdec)]

/-- A turn over the same bytes. -/
theorem clientTurn_same {s : Draining} (hrole : s.dir.role = .client)
    (hssl : s.dir.ctx.awaitingFrontendSsl = false) :
    Sum.LiftRel (SameDrain pg F F) (SameDrain pg F F) (clientTurn pg s) (clientTurn pg s) := by
  have hrefl : ∀ t : Draining, t.dir.role = .client → t.dir.ctx.awaitingFrontendSsl = false →
      SameDrain pg F F t t :=
    fun t hrole hssl => ⟨⟨rfl, rfl, hrole, hssl, .same _ _⟩, rfl, rfl⟩
  have hspec := clientTurn_spec hpg.consumes s hrole
  generalize clientTurn pg s = next at hspec ⊢
  cases hspec with
  | idle => exact Sum.LiftRel.inr (hrefl s hrole hssl)
  | peek _ hpeek =>
    rw [hssl] at hpeek
    cases hpeek
  | message wire rest body after _ _ _ hone =>
    have hkept : SameDrain pg F F ⟨after.dir, after.outcome, s.events ++ after.events⟩
        ⟨after.dir, after.outcome, s.events ++ after.events⟩ := by
      refine hrefl _ (hone.role.trans hrole) ?_
      cases hflag : after.dir.ctx.awaitingFrontendSsl with
      | false => rfl
      | true =>
        have hset : s.dir.ctx.awaitingFrontendSsl = true := hone.ssl hflag
        rw [hssl] at hset
        cases hset
    by_cases hmore : after.more = true
    · rw [if_pos hmore]
      exact Sum.LiftRel.inl hkept
    · rw [if_neg hmore]
      exact Sum.LiftRel.inr hkept
  | error e rest => exact Sum.LiftRel.inr (hrefl _ hrole hssl)

/-- **Two drains go through the same turns.** -/
theorem clientTurn_veiled {s s' : Draining} (h : SameDrain pg F F' s s') :
    Sum.LiftRel (SameDrain pg F F') (SameDrain pg F F') (clientTurn pg s) (clientTurn pg s') := by
  have hveiled := h.view.veiled
  generalize hA : s.dir.rxbuf ++ F = A at hveiled
  generalize hA' : s'.dir.rxbuf ++ F' = A' at hveiled
  have hlength := h.view.length
  cases hveiled with
  | same =>
    obtain ⟨hbuf, hF⟩ := List.append_inj (hA.trans hA'.symm) hlength
    have hsame : s' = s := by
      obtain ⟨dir', outcome', events'⟩ := s'
      have hdir := h.view.dir
      have houtcome := h.outcome
      have hevents := h.events
      dsimp only at hdir houtcome hevents hbuf
      rw [hdir, houtcome, hevents, ← hbuf]
    rw [hsame, ← hF]
    exact clientTurn_same hpg h.view.role h.view.ssl
  | @message _ wire wire' S S' m m' hwires hdec hdec' hmessage hrest =>
    by_cases hle : wire.length ≤ s.dir.rxbuf.length
    · obtain ⟨left, hbuf, hS⟩ := append_split hA.symm hle
      obtain ⟨left', hbuf', hS'⟩ := append_split hA'.symm (by omega)
      exact clientTurn_message hpg h hwires hdec hdec' hmessage hrest hbuf hbuf' hS hS'
    · obtain ⟨more, hwire, _⟩ := append_split hA (by omega)
      obtain ⟨more', hwire', _⟩ := append_split hA' (by omega)
      have hmore : more ≠ [] := by
        rintro rfl
        rw [hwire, List.append_nil] at hle
        exact hle le_rfl
      have hmore' : more' ≠ [] := by
        rintro rfl
        rw [hwires, hlength, hwire', List.append_nil] at hle
        exact hle le_rfl
      rw [hwire] at hdec
      rw [hwire'] at hdec'
      have hctx : s'.dir.ctx = s.dir.ctx := by rw [h.view.dir]
      rw [clientTurn_begun hpg hmore hdec, clientTurn_begun hpg hmore' (hctx.symm ▸ hdec')]
      exact Sum.LiftRel.inr h

/-- **Two drains emit the same**, and leave the two directions as they should be. -/
theorem drain_veiled {d d' : Direction} (h : SameView pg F F' d d') :
    SameDrain pg F F' (drainDirection pg d {}) (drainDirection pg d' {}) := by
  have hrole' : d'.role = .client := by
    rw [h.dir]
    exact h.role
  have hends := drainDirection_ends hpg.consumes d
  have hends' := drainDirection_ends hpg.consumes d'
  rw [h.role] at hends
  rw [hrole'] at hends'
  obtain ⟨r, hr, hsame⟩ := Ends.related (SameDrain pg F F') (SameDrain pg F F')
    (fun s s' h => clientTurn_veiled hpg h) (show SameDrain pg F F' ⟨d, {}, []⟩ ⟨d', {}, []⟩ from ⟨h, rfl, rfl⟩)
    hends
  rwa [← hr.unique hends']

end Drain

end Tapgres.Decode
