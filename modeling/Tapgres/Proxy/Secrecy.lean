import Tapgres.Decode.Secrecy
import Tapgres.Proxy.Relay

/-!
# What the proxy shows of a secret

The relay between a client and a server, run twice: the second time the client sends another password of
the same length, and the server the same as before.

* `sent_grows` — what a peer has sent only grows;
* `relayStep_same` — a step of the first run is answered by one of the second, over as many bytes;
* `secrets_unseen` — so whatever order the steps are taken in, everything that is reported and counted of
  the first run is reported and counted of a run of the second.
-/

namespace Tapgres.Proxy

open Relation (ReflTransGen)
open Tapgres.Net Tapgres.Pgwire Tapgres.Decode Tapgres.Flow Tapgres.State

/-! ### Two relays side by side -/

/-- Two pumps at the same place, with as many bytes to write. -/
inductive SamePhase : Phase → Phase → Prop
  | reading : SamePhase .reading .reading
  | writing {left left' : Bytes} (h : left.length = left'.length) : SamePhase (.writing left) (.writing left')
  | finished : SamePhase .finished .finished
  | aborted : SamePhase .aborted .aborted

/-- The client's legs of two relays, when the client is to send `T` in all to the one and `T'` to the
other. -/
structure SameLeg (pg : Decoder) (T T' : Bytes) (leg leg' : Leg) : Prop where
  begins : leg.sent <+: T
  taken : leg'.taken = T'.take leg.taken.length
  unread : leg'.unread = (T'.drop leg.taken.length).take leg.unread.length
  closed : leg'.closed = leg.closed
  shut : leg'.shut = leg.shut
  written : leg'.written.length = leg.written.length
  role : leg'.pump.role = leg.pump.role
  phase : SamePhase leg.pump.phase leg'.pump.phase
  view : SameView pg (T.drop leg.taken.length) (T'.drop leg.taken.length) leg.pump.dir leg'.pump.dir

/-- Two relays that show the same. -/
structure SameRelay (pg : Decoder) (T T' : Bytes) (r r' : Relay) : Prop where
  client : SameLeg pg T T' (r.legs .client) (r'.legs .client)
  server : r'.legs .server = r.legs .server
  metrics : r'.metrics = r.metrics
  output : r'.output = r.output

variable {pg : Decoder} {T T' : Bytes} {stats : ConnId} {r r' after : Relay}

theorem SameRelay.setServer (h : SameRelay pg T T' r r') (leg : Leg) :
    SameRelay pg T T' (r.setLeg .server leg) (r'.setLeg .server leg) where
  client := by
    rw [setLeg_legs_of_ne r (by decide), setLeg_legs_of_ne r' (by decide)]
    exact h.client
  server := by rw [setLeg_legs_self, setLeg_legs_self]
  metrics := h.metrics
  output := h.output

theorem SameRelay.setClient (h : SameRelay pg T T' r r') {leg leg' : Leg} (hleg : SameLeg pg T T' leg leg') :
    SameRelay pg T T' (r.setLeg .client leg) (r'.setLeg .client leg') where
  client := by
    rw [setLeg_legs_self, setLeg_legs_self]
    exact hleg
  server := by
    rw [setLeg_legs_of_ne r (by decide), setLeg_legs_of_ne r' (by decide)]
    exact h.server
  metrics := h.metrics
  output := h.output

theorem SameRelay.report (h : SameRelay pg T T' r r') (metrics : Metrics) (events : List Event) :
    SameRelay pg T T' { r with metrics := metrics, output := r.output ++ events }
      { r' with metrics := metrics, output := r'.output ++ events } where
  client := h.client
  server := h.server
  metrics := rfl
  output := by rw [h.output]

/-! ### What is sent -/

/-- **What a peer has sent only grows.** -/
theorem sent_grows (hstep : RelayStep pg stats r after) (role : Role) :
    (r.legs role).sent <+: (after.legs role).sent := by
  -- every step changes one leg
  have hset : ∀ mine leg, (r.legs mine).sent <+: leg.sent →
      (r.legs role).sent <+: ((r.setLeg mine leg).legs role).sent := by
    intro mine leg hleg
    by_cases hr : role = mine
    · subst hr
      rwa [setLeg_legs_self]
    · rw [setLeg_legs_of_ne r hr]
  cases hstep with
  | send mine bytes hopen =>
    refine hset mine _ ⟨bytes, ?_⟩
    simp only [Leg.sent, List.append_assoc]
  | read mine chunk rest hphase hchunk hunread =>
    refine hset mine _ ⟨[], ?_⟩
    simp only [Leg.sent, hunread, List.append_assoc, List.append_nil]
  | close mine => exact hset mine _ (List.prefix_refl _)
  | eof mine => exact hset mine _ (List.prefix_refl _)
  | write mine => exact hset mine _ (List.prefix_refl _)
  | abort mine => exact hset mine _ (List.prefix_refl _)

/-! ### The steps of the client's leg -/

section Leg

variable {leg leg' : Leg}

theorem SameLeg.bounds (h : SameLeg pg T T' leg leg') :
    leg.taken.length + leg.unread.length ≤ T.length := by
  have hle := h.begins.length_le
  rwa [Leg.sent, List.length_append] at hle

/-- What is still unread has as many bytes on both sides. -/
theorem SameLeg.unread_length (hlen : T.length = T'.length) (h : SameLeg pg T T' leg leg') :
    leg'.unread.length = leg.unread.length := by
  have hbounds := h.bounds
  rw [h.unread, List.length_take, List.length_drop]
  omega

theorem SameLeg.send (h : SameLeg pg T T' leg leg') {bytes : Bytes} (hbegins : leg.sent ++ bytes <+: T) :
    SameLeg pg T T' { leg with unread := leg.unread ++ bytes }
      { leg' with unread := leg'.unread ++ (T'.drop leg.sent.length).take bytes.length } where
  begins := by
    show leg.taken ++ (leg.unread ++ bytes) <+: T
    rwa [← List.append_assoc]
  taken := h.taken
  unread := by
    show leg'.unread ++ _ = (T'.drop leg.taken.length).take (leg.unread ++ bytes).length
    rw [h.unread, List.length_append, List.take_add, List.drop_drop, Leg.sent, List.length_append]
  closed := h.closed
  shut := h.shut
  written := h.written
  role := h.role
  phase := h.phase
  view := h.view

/-- The chunk that is read, and what is left behind it. -/
theorem SameLeg.chunk (h : SameLeg pg T T' leg leg') {chunk rest : Bytes} (hunread : leg.unread = chunk ++ rest) :
    leg'.unread = (T'.drop leg.taken.length).take chunk.length
      ++ (T'.drop (leg.taken.length + chunk.length)).take rest.length := by
  rw [h.unread, hunread, List.length_append, List.take_add, List.drop_drop]

theorem read_chunk (p : Pump) (metrics : Metrics) {chunk : Bytes} (hchunk : chunk ≠ []) :
    p.read pg stats metrics chunk
      = let drained := drainDirection pg { p.dir with rxbuf := p.dir.rxbuf ++ chunk } {}
        ({ p with dir := drained.dir, phase := .writing chunk },
          if drained.outcome.msgs > 0 then
            metrics.recordMessages stats (trafficDirection p.role) drained.outcome.msgs drained.outcome.bytes
          else metrics,
          drained.events) := by
  rw [Pump.read, if_neg (by simpa using hchunk)]

/-- **A read** of as many bytes decodes to the same events. -/
theorem SameLeg.read (hpg : pg.Lawful) (hlen : T.length = T'.length) (h : SameLeg pg T T' leg leg')
    {chunk rest : Bytes} (hchunk : chunk ≠ []) (hunread : leg.unread = chunk ++ rest) (stats : ConnId)
    (metrics : Metrics) :
    let chunk' := (T'.drop leg.taken.length).take chunk.length
    let rest' := (T'.drop (leg.taken.length + chunk.length)).take rest.length
    SameLeg pg T T'
        { leg with
            taken := leg.taken ++ chunk, unread := rest, pump := (leg.pump.read pg stats metrics chunk).1 }
        { leg' with
            taken := leg'.taken ++ chunk', unread := rest'
            pump := (leg'.pump.read pg stats metrics chunk').1 } ∧
      (leg'.pump.read pg stats metrics chunk').2 = (leg.pump.read pg stats metrics chunk).2 := by
  intro chunk' rest'
  have hbounds := h.bounds
  rw [hunread, List.length_append] at hbounds
  have hchunkLen : chunk'.length = chunk.length := by
    rw [List.length_take, List.length_drop]
    omega
  have hchunk' : chunk' ≠ [] := by
    rw [← List.length_pos_iff, hchunkLen]
    exact List.length_pos_iff.mpr hchunk
  -- what is still to come, before the read and after it
  have hahead : T.drop leg.taken.length = chunk ++ T.drop (leg.taken.length + chunk.length) := by
    obtain ⟨later, hT⟩ := h.begins
    rw [Leg.sent, hunread, ← List.append_assoc, List.append_assoc] at hT
    rw [← List.drop_drop, ← hT, List.append_assoc, List.drop_left, List.drop_left]
  have hahead' : T'.drop leg.taken.length = chunk' ++ T'.drop (leg.taken.length + chunk.length) := by
    rw [← List.drop_drop, List.take_append_drop]
  have hview : SameView pg (T.drop (leg.taken.length + chunk.length))
      (T'.drop (leg.taken.length + chunk.length))
      { leg.pump.dir with rxbuf := leg.pump.dir.rxbuf ++ chunk }
      { leg'.pump.dir with rxbuf := leg'.pump.dir.rxbuf ++ chunk' } := by
    refine ⟨?_, ?_, h.view.role, h.view.ssl, ?_⟩
    · rw [h.view.dir]
    · rw [List.length_append, List.length_append, h.view.length, hchunkLen]
    · have hveiled := h.view.veiled
      rwa [hahead, hahead', ← List.append_assoc, ← List.append_assoc] at hveiled
  have hdrained := drain_veiled hpg hview
  rw [read_chunk _ _ hchunk, read_chunk _ _ hchunk']
  refine ⟨⟨?_, ?_, ?_, h.closed, h.shut, h.written, h.role, .writing hchunkLen.symm, ?_⟩, ?_⟩
  · have hbegins := h.begins
    rwa [Leg.sent, hunread, ← List.append_assoc] at hbegins
  · show leg'.taken ++ chunk' = T'.take (leg.taken ++ chunk).length
    rw [h.taken, List.length_append, List.take_add]
  · show rest' = (T'.drop (leg.taken ++ chunk).length).take rest.length
    rw [List.length_append]
  · show SameView pg (T.drop (leg.taken ++ chunk).length) (T'.drop (leg.taken ++ chunk).length) _ _
    rw [List.length_append]
    exact hdrained.view
  · dsimp only
    rw [hdrained.events, hdrained.outcome, h.role]

theorem SameLeg.write (h : SameLeg pg T T' leg leg') {left left' : Bytes} {n : ℕ}
    (hleft : left.length = left'.length) :
    SameLeg pg T T'
      { leg with pump := leg.pump.wrote left n, written := leg.written ++ left.take n }
      { leg' with pump := leg'.pump.wrote left' n, written := leg'.written ++ left'.take n } := by
  refine ⟨h.begins, h.taken, h.unread, h.closed, h.shut, ?_, h.role, ?_, h.view⟩
  · show (leg'.written ++ left'.take n).length = (leg.written ++ left.take n).length
    rw [List.length_append, List.length_append, List.length_take, List.length_take, h.written, hleft]
  · show SamePhase (if (left.drop n).isEmpty then .reading else .writing (left.drop n))
      (if (left'.drop n).isEmpty then .reading else .writing (left'.drop n))
    have hdrop : (left.drop n).length = (left'.drop n).length := by
      rw [List.length_drop, List.length_drop, hleft]
    have hempty : (left'.drop n).isEmpty = (left.drop n).isEmpty := by
      rw [Bool.eq_iff_iff, List.isEmpty_iff_length_eq_zero, List.isEmpty_iff_length_eq_zero, hdrop]
    rw [hempty]
    split
    · exact .reading
    · exact .writing hdrop

end Leg

/-! ### The steps of the relay -/

theorem SamePhase.reading_iff {phase phase' : Phase} (h : SamePhase phase phase') :
    phase' = .reading ↔ phase = .reading := by
  cases h <;> simp

theorem SamePhase.finished_iff {phase phase' : Phase} (h : SamePhase phase phase') :
    phase' = .finished ↔ phase = .finished := by
  cases h <;> simp

/-- **A step of the first relay is answered by one of the second**, as long as the client sends what it is
to send. -/
theorem relayStep_same (hpg : pg.Lawful) (hlen : T.length = T'.length) (h : SameRelay pg T T' r r')
    (hstep : RelayStep pg stats r after) (hbegins : (after.legs .client).sent <+: T) :
    ∃ after', RelayStep pg stats r' after' ∧ SameRelay pg T T' after after' := by
  have hclient := h.client
  have hserver := h.server
  cases hstep with
  | send role bytes hopen =>
    cases role with
    | client =>
      rw [setLeg_legs_self] at hbegins
      refine ⟨_, .send .client _ (hclient.closed.trans hopen), h.setClient (hclient.send ?_)⟩
      rw [Leg.sent, List.append_assoc]
      exact hbegins
    | server =>
      refine ⟨_, .send .server bytes (by rw [hserver]; exact hopen), ?_⟩
      rw [hserver]
      exact h.setServer _
  | close role hopen =>
    cases role with
    | client =>
      exact ⟨_, .close .client (hclient.closed.trans hopen), h.setClient
        ⟨hclient.begins, hclient.taken, hclient.unread, rfl, hclient.shut, hclient.written, hclient.role,
          hclient.phase, hclient.view⟩⟩
    | server =>
      refine ⟨_, .close .server (by rw [hserver]; exact hopen), ?_⟩
      rw [hserver]
      exact h.setServer _
  | read role chunk rest hphase hchunk hunread =>
    cases role with
    | client =>
      obtain ⟨hleg, hreport⟩ := hclient.read hpg hlen hchunk hunread stats r.metrics
      have hphase' := hclient.phase.reading_iff.mpr hphase
      refine ⟨_, .read .client _ _ hphase' ?_ (hclient.chunk hunread), ?_⟩
      · have hbounds := hclient.bounds
        rw [hunread, List.length_append] at hbounds
        have hpos := List.length_pos_iff.mpr hchunk
        rw [← List.length_pos_iff, List.length_take, List.length_drop]
        omega
      · rw [h.metrics, hreport]
        exact (h.setClient hleg).report _ _
    | server =>
      refine ⟨_, .read .server chunk rest (by rw [hserver]; exact hphase) hchunk
        (by rw [hserver]; exact hunread), ?_⟩
      rw [hserver, h.metrics]
      exact (h.setServer _).report _ _
  | eof role hphase hclosed hunread =>
    cases role with
    | client =>
      have hphase' := hclient.phase.reading_iff.mpr hphase
      have hunread' : (r'.legs .client).unread = [] := by
        rw [← List.length_eq_zero_iff, hclient.unread_length hlen, hunread]
        rfl
      exact ⟨_, .eof .client hphase' (hclient.closed.trans hclosed) hunread', h.setClient
        ⟨hclient.begins, hclient.taken, hclient.unread, hclient.closed, rfl, hclient.written, hclient.role,
          .finished, hclient.view⟩⟩
    | server =>
      refine ⟨_, .eof .server (by rw [hserver]; exact hphase) (by rw [hserver]; exact hclosed)
        (by rw [hserver]; exact hunread), ?_⟩
      rw [hserver]
      exact h.setServer _
  | write role left n hphase hn hle =>
    cases role with
    | client =>
      obtain ⟨left', hphase', hleft⟩ : ∃ left', (r'.legs .client).pump.phase = .writing left' ∧
          left.length = left'.length := by
        have hsame := hclient.phase
        rw [hphase] at hsame
        generalize (r'.legs .client).pump.phase = phase' at hsame
        cases hsame with
        | writing hleft => exact ⟨_, rfl, hleft⟩
      exact ⟨_, .write .client left' n hphase' hn (hleft ▸ hle), h.setClient (hclient.write hleft)⟩
    | server =>
      refine ⟨_, .write .server left n (by rw [hserver]; exact hphase) hn hle, ?_⟩
      rw [hserver]
      exact h.setServer _
  | abort role hother hphase =>
    cases role with
    | client =>
      have hother' : (r'.legs (other .client)).pump.phase = .finished := by
        show (r'.legs .server).pump.phase = .finished
        rw [hserver]
        exact hother
      exact ⟨_, .abort .client hother' (hclient.phase.finished_iff.not.mpr hphase), h.setClient
        ⟨hclient.begins, hclient.taken, hclient.unread, hclient.closed, hclient.shut, hclient.written,
          hclient.role, .aborted, hclient.view⟩⟩
    | server =>
      have hother' : (r'.legs (other .server)).pump.phase = .finished :=
        hclient.phase.finished_iff.mpr hother
      refine ⟨_, .abort .server hother' (by rw [hserver]; exact hphase), ?_⟩
      rw [hserver]
      exact h.setServer _

/-- The two relays as they start. -/
theorem start_same (hveiled : Veiled pg startupCtx T T') (client : SocketAddr) (metrics : Metrics) (n : ℕ) :
    SameRelay pg T T' (Relay.start client metrics (T.take n)) (Relay.start client metrics (T'.take n)) where
  client := by
    have hlen := hveiled.length
    refine ⟨?_, ?_, rfl, rfl, rfl, ?_, rfl, .reading, ⟨rfl, ?_, rfl, rfl, ?_⟩⟩
    · show T.take n ++ [] <+: T
      rw [List.append_nil]
      exact List.take_prefix n T
    · show T'.take n = T'.take (T.take n).length
      rw [List.length_take, hlen, ← List.take_eq_take_min]
    · show (T'.take n).length = (T.take n).length
      rw [List.length_take, List.length_take, hlen]
    · show (T.take n).length = (T'.take n).length
      rw [List.length_take, List.length_take, hlen]
    · show Veiled pg startupCtx ([] ++ T.take n ++ T.drop (T.take n).length)
        ([] ++ T'.take n ++ T'.drop (T.take n).length)
      have hall : ∀ S : Bytes, S.take n ++ S.drop (min n S.length) = S := by
        intro S
        rw [List.take_eq_take_min, List.take_append_drop]
      have hfirst := hall T
      have hsecond := hall T'
      rw [← hlen] at hsecond
      rwa [List.nil_append, List.nil_append, List.length_take, hfirst, hsecond]
  server := rfl
  metrics := rfl
  output := rfl

/-- **Nothing the proxy shows tells one password from another.**  Let a client send `T` in one run and `T'`
in another, streams that differ at most in the secrets of their password messages, and let the setup have
read `n` bytes of either.  Whatever the first run has come to, there is a second that has come to the same:
it has emitted the same records, counted the same, read and written as many bytes of the client's stream, and
done the same for the server. -/
theorem secrets_unseen (pg : Decoder) (hpg : pg.Lawful) (stats : ConnId) (client : SocketAddr)
    (metrics : Metrics) (T T' : Bytes) (hveiled : Veiled pg startupCtx T T') (n : ℕ) (r : Relay)
    (hreach : ReflTransGen (RelayStep pg stats) (Relay.start client metrics (T.take n)) r)
    (hbegins : (r.legs .client).sent <+: T) :
    ∃ r', ReflTransGen (RelayStep pg stats) (Relay.start client metrics (T'.take n)) r' ∧
      r'.output = r.output ∧ r'.metrics = r.metrics ∧ r'.legs .server = r.legs .server ∧
      (r'.legs .client).taken = T'.take (r.legs .client).taken.length ∧
      (r'.legs .client).written = T'.take (r.legs .client).written.length := by
  obtain ⟨r', hreach', hsame⟩ : ∃ r', ReflTransGen (RelayStep pg stats)
      (Relay.start client metrics (T'.take n)) r' ∧ SameRelay pg T T' r r' := by
    induction hreach with
    | refl => exact ⟨_, .refl, start_same hveiled client metrics n⟩
    | tail _ hstep ih =>
      obtain ⟨mid, hreach', hsame⟩ := ih ((sent_grows hstep .client).trans hbegins)
      obtain ⟨r', hstep', hsame'⟩ := relayStep_same hpg hveiled.length hsame hstep hbegins
      exact ⟨r', hreach'.tail hstep', hsame'⟩
  refine ⟨r', hreach', hsame.output, hsame.metrics, hsame.server, hsame.client.taken, ?_⟩
  -- what is written is a beginning of what was read
  have hbegins' := (relay_ok hpg.consumes hreach' .client).written_taken
  rw [hsame.client.taken] at hbegins'
  have hwritten := hbegins'.trans (List.take_prefix _ _)
  rw [List.prefix_iff_eq_take.mp hwritten, hsame.client.written]

/-! ### Two passwords -/

/-- A frontend decoder that knows the messages of the password family besides those of `framed`. -/
def parseAuth (packet : Bytes) : Except String FrontendMessage :=
  if packet.head? = some 0x70 then .ok (.passwordMessageFamily (.raw (packet.drop 5)))
  else parseFrontend packet

def authFrontend (buf : Bytes) (ctx : DecodeContext) : Decoded FrontendMessage :=
  if ctx.awaitingFrontendSsl || ctx.awaitingFrontendStartup then framedFrontend buf ctx
  else cut 1 parseAuth buf

def authFramed : Decoder := { framed with decodeFrontend := authFrontend }

theorem parseAuth_session {packet : Bytes} {m : FrontendMessage} (h : parseAuth packet = .ok m) :
    ∀ r, m ≠ .sslNegotiation r := by
  rw [parseAuth, parseFrontend] at h
  repeat' (split at h)
  all_goals cases h
  all_goals exact fun r hr => (by cases hr)

theorem isPeek_false {m : FrontendMessage} (h : ∀ r, m ≠ .sslNegotiation r) : m.isPeek = false := by
  cases m with
  | sslNegotiation r => exact absurd rfl (h r)
  | _ => rfl

/-- With these flags the decoder is that of `framed`, or cuts packets off the buffer. -/
theorem authFrontend_cases (ctx : DecodeContext) :
    (∀ buf, authFramed.decodeFrontend buf ctx = framed.decodeFrontend buf ctx) ∨
      (ctx.awaitingFrontendSsl = false ∧ ∀ buf, authFramed.decodeFrontend buf ctx = cut 1 parseAuth buf) := by
  by_cases hbefore : (ctx.awaitingFrontendSsl || ctx.awaitingFrontendStartup) = true
  · exact .inl fun buf => if_pos hbefore
  · refine .inr ⟨?_, fun buf => if_neg hbefore⟩
    rw [Bool.not_eq_true, Bool.or_eq_false_iff] at hbefore
    exact hbefore.1

theorem authFramed_consumes : authFramed.Consumes where
  frontend_none buf ctx rest h := by
    rcases authFrontend_cases ctx with hframed | ⟨_, hcut⟩
    · exact framed_consumes.frontend_none buf ctx rest (hframed buf ▸ h)
    · exact cut_none (hcut buf ▸ h)
  frontend_peek buf ctx m rest h hpeek := by
    rcases authFrontend_cases ctx with hframed | ⟨_, hcut⟩
    · exact framed_consumes.frontend_peek buf ctx m rest (hframed buf ▸ h) hpeek
    · rw [hcut] at h
      obtain ⟨_, _, _, _, hparse, _⟩ := cut_some h
      rw [isPeek_false (parseAuth_session hparse)] at hpeek
      cases hpeek
  frontend_some buf ctx m rest h hpeek := by
    rcases authFrontend_cases ctx with hframed | ⟨_, hcut⟩
    · exact framed_consumes.frontend_some buf ctx m rest (hframed buf ▸ h) hpeek
    · exact cut_front (hcut buf ▸ h)
  backend_none := framed_consumes.backend_none
  backend_some := framed_consumes.backend_some

theorem authFramed_lawful : authFramed.Lawful where
  consumes := authFramed_consumes
  appends :=
    { frontend := by
        intro wire ctx m more h
        rcases authFrontend_cases ctx with hframed | ⟨_, hcut⟩
        · rw [hframed] at h ⊢
          exact framed_appends.frontend wire ctx m more h
        · rw [hcut] at h ⊢
          exact cut_append more h
      backend := framed_appends.backend }
  idles :=
    { frontend := by
        intro ctx
        rcases authFrontend_cases ctx with hframed | ⟨_, hcut⟩
        · rw [hframed]
          exact framed_idles.frontend ctx
        · rw [hcut]
          rfl
      backend := framed_idles.backend }
  waits :=
    { frontend := by
        intro begun more ctx m hmore h
        rcases authFrontend_cases ctx with hframed | ⟨_, hcut⟩
        · rw [hframed] at h ⊢
          exact framed_waits.frontend begun more ctx m hmore h
        · rw [hcut] at h ⊢
          exact cut_begun hmore h
      backend := framed_waits.backend }
  negotiates :=
    { short := by
        intro buf ctx hssl hlen
        rcases authFrontend_cases ctx with hframed | ⟨hnone, _⟩
        · rw [hframed]
          exact framed_negotiates.short buf ctx hssl hlen
        · rw [hssl] at hnone
          cases hnone
      peek := by
        intro buf ctx hssl hlen hcode hcode'
        rcases authFrontend_cases ctx with hframed | ⟨hnone, _⟩
        · rw [hframed]
          exact framed_negotiates.peek buf ctx hssl hlen hcode hcode'
        · rw [hssl] at hnone
          cases hnone
      request := by
        intro buf ctx r rest h
        rcases authFrontend_cases ctx with hframed | ⟨_, hcut⟩
        · exact framed_negotiates.request buf ctx r rest (hframed buf ▸ h)
        · rw [hcut] at h
          obtain ⟨_, _, _, _, hparse, _⟩ := cut_some h
          exact absurd rfl (parseAuth_session hparse r)
      sslAnswer := framed_negotiates.sslAnswer
      gssAnswer := framed_negotiates.gssAnswer
      backendFlags := framed_negotiates.backendFlags }

/-- A Startup, then a password of four bytes. -/
def startupWire : Bytes := [0, 0, 0, 9, 0, 3, 0, 0, 0]

def passwordWire (password : Bytes) : Bytes := [0x70, 0, 0, 0, 8] ++ password

def withPassword (password : Bytes) : Bytes := startupWire ++ passwordWire password

set_option maxRecDepth 4000 in
theorem withPassword_veiled :
    Veiled authFramed startupCtx (withPassword [1, 2, 3, 4]) (withPassword [5, 6, 7, 8]) := by
  have hstartup : authFramed.decodeFrontend startupWire startupCtx
      = (.ok (some (.startup ⟨3, 0, []⟩)), []) := rfl
  have hfirst : authFramed.decodeFrontend (passwordWire [1, 2, 3, 4]) sessionCtx
      = (.ok (some (.passwordMessageFamily (.raw [1, 2, 3, 4]))), []) := rfl
  have hsecond : authFramed.decodeFrontend (passwordWire [5, 6, 7, 8]) sessionCtx
      = (.ok (some (.passwordMessageFamily (.raw [5, 6, 7, 8]))), []) := rfl
  have hpasswords : Veiled authFramed sessionCtx (passwordWire [1, 2, 3, 4] ++ [])
      (passwordWire [5, 6, 7, 8] ++ []) :=
    .message rfl hfirst hsecond (.secret (.raw rfl)) (.same _ _)
  exact .message rfl hstartup hstartup (.refl _) hpasswords

/-- What has been reported of one password is reported of another. -/
theorem secrets_unseen_raw : ∃ r r', ReflTransGen (RelayStep authFramed 1)
      (Relay.start ⟨.v4 0, 0⟩ (Metrics.withLimits 10) ((withPassword [1, 2, 3, 4]).take 8)) r ∧
    ReflTransGen (RelayStep authFramed 1)
      (Relay.start ⟨.v4 0, 0⟩ (Metrics.withLimits 10) ((withPassword [5, 6, 7, 8]).take 8)) r' ∧
    r.output.length = 2 ∧ r'.output = r.output ∧ r'.metrics = r.metrics := by
  have hstart := ReflTransGen.refl (r := RelayStep authFramed 1)
    (a := Relay.start ⟨.v4 0, 0⟩ (Metrics.withLimits 10) ((withPassword [1, 2, 3, 4]).take 8))
  have hsend := hstart.tail (.send .client ((withPassword [1, 2, 3, 4]).drop 8) rfl)
  have hread := hsend.tail (.read .client ((withPassword [1, 2, 3, 4]).drop 8) [] rfl (by decide) rfl)
  obtain ⟨r', hreach', houtput, hmetrics, _⟩ := secrets_unseen authFramed authFramed_lawful 1 ⟨.v4 0, 0⟩
    (Metrics.withLimits 10) _ _ withPassword_veiled 8 _ hread (List.prefix_refl (withPassword [1, 2, 3, 4]))
  exact ⟨_, r', hread, hreach', rfl, houtput, hmetrics⟩

end Tapgres.Proxy
