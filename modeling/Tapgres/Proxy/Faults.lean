import Tapgres.Lib.Simulation
import Tapgres.Proxy.Decoding

/-!
# I/O errors while a connection is relayed

`pump` of `proxy.rs` returns at the first read or write that fails, in whatever place it is then, and the
`select!` of `handle_connection` aborts the other pump.  `Proxy.Relay` has the relay without errors; here
either pump may fail at any of its awaits.

* `FaultyStep` — a step of the relay, an error, or the abort after one;
* `faulty_simulated` — an error adds nothing but an end: with the failed pump merely held still, the relay
  without errors does the same;
* `faulty_forwards` — so what is forwarded is a beginning of what was sent;
* `forwarded_reported` — and every message that has been forwarded has been reported.
-/

namespace Tapgres.Proxy

open Relation (ReflTransGen)
open Tapgres.Net Tapgres.Pgwire Tapgres.Decode Tapgres.Flow Tapgres.State Tapgres.Lib.Simulation

/-- A relay, with the pumps that have returned an error; such a pump runs no more. -/
structure FaultyRelay where
  relay : Relay
  failed : Role → Bool

def FaultyRelay.start (client : SocketAddr) (metrics : Metrics) (initial : Bytes) : FaultyRelay :=
  ⟨Relay.start client metrics initial, fun _ => false⟩

/-- The pump is at one of its awaits. -/
def Phase.running : Phase → Bool
  | .reading | .writing _ => true
  | .finished | .aborted => false

/-- The pump of this leg runs no more. -/
def Relay.stop (r : Relay) (role : Role) : Relay :=
  r.setLeg role { r.legs role with pump := { (r.legs role).pump with phase := .aborted } }

inductive FaultyStep (pg : Decoder) (stats : ConnId) (f : FaultyRelay) : FaultyRelay → Prop
  | step {r' : Relay} (hstep : RelayStep pg stats f.relay r') : FaultyStep pg stats f { f with relay := r' }
  /-- A read, or a write of which some bytes may have been written before, fails.  An error of `shutdown` is
  dropped by the source, and changes nothing here: the stream counts as shut. -/
  | fail (role : Role) (hrunning : (f.relay.legs role).pump.phase.running = true) :
      FaultyStep pg stats f ⟨f.relay.stop role, Function.update f.failed role true⟩
  /-- The other pump has returned an error. -/
  | abort (role : Role) (hother : f.failed (other role) = true)
      (hrunning : (f.relay.legs role).pump.phase.running = true) :
      FaultyStep pg stats f { f with relay := f.relay.stop role }

/-! ### An error adds nothing -/

/-- The relay stands where the other does, but for pumps that it has stopped. -/
structure Stopped (r r' : Relay) : Prop where
  leg : ∀ role, r.legs role = r'.legs role ∨
    r.legs role = { r'.legs role with pump := { (r'.legs role).pump with phase := .aborted } }
  metrics : r.metrics = r'.metrics
  output : r.output = r'.output

theorem Stopped.refl (r : Relay) : Stopped r r := ⟨fun _ => .inl rfl, rfl, rfl⟩

/-- The same change to a leg of both. -/
theorem Stopped.setLeg {r r' : Relay} (h : Stopped r r') (role : Role) {leg leg' : Leg}
    (hleg : leg = leg' ∨ leg = { leg' with pump := { leg'.pump with phase := .aborted } }) :
    Stopped (r.setLeg role leg) (r'.setLeg role leg') := by
  refine ⟨fun mine => ?_, h.metrics, h.output⟩
  by_cases hmine : mine = role
  · subst hmine
    rw [setLeg_legs_self, setLeg_legs_self]
    exact hleg
  · rw [setLeg_legs_of_ne r hmine, setLeg_legs_of_ne r' hmine]
    exact h.leg mine

/-- A pump is stopped in the one only. -/
theorem Stopped.stop {r r' : Relay} (h : Stopped r r') (role : Role) : Stopped (r.stop role) r' := by
  refine ⟨fun mine => ?_, h.metrics, h.output⟩
  by_cases hmine : mine = role
  · subst hmine
    rw [Relay.stop, setLeg_legs_self]
    rcases h.leg mine with hleg | hleg
    · rw [hleg]
      exact .inr rfl
    · rw [hleg]
      exact .inr rfl
  · rw [Relay.stop, setLeg_legs_of_ne r hmine]
    exact h.leg mine

/-- A leg whose pump does something is the same in both. -/
theorem Stopped.same {r r' : Relay} (h : Stopped r r') {role : Role}
    (hphase : (r.legs role).pump.phase ≠ .aborted) : r.legs role = r'.legs role := by
  rcases h.leg role with hleg | hleg
  · exact hleg
  · rw [hleg] at hphase
    exact absurd rfl hphase

/-- **Each step is answered**: a step of the relay by the same step, an error and the abort after it by
nothing. -/
theorem faulty_simulates (pg : Decoder) (stats : ConnId) :
    Simulates (FaultyStep pg stats) (RelayStep pg stats) fun f r => Stopped f.relay r := by
  intro f f' r h hstep
  cases hstep with
  | fail role _ => exact ⟨r, .refl, h.stop role⟩
  | abort role _ _ => exact ⟨r, .refl, h.stop role⟩
  | @step r' hstep =>
    cases hstep with
    | send role bytes hopen =>
      rcases h.leg role with hleg | hleg
      · refine ⟨_, .single (.send role bytes (by rw [← hleg]; exact hopen)), h.setLeg role (.inl ?_)⟩
        rw [hleg]
      · refine ⟨_, .single (.send role bytes (by rw [hleg] at hopen; exact hopen)), h.setLeg role (.inr ?_)⟩
        rw [hleg]
    | close role hopen =>
      rcases h.leg role with hleg | hleg
      · refine ⟨_, .single (.close role (by rw [← hleg]; exact hopen)), h.setLeg role (.inl ?_)⟩
        rw [hleg]
      · refine ⟨_, .single (.close role (by rw [hleg] at hopen; exact hopen)), h.setLeg role (.inr ?_)⟩
        rw [hleg]
    | read role chunk rest hphase hchunk hunread =>
      have hleg := h.same (by rw [hphase]; exact Phase.noConfusion : (f.relay.legs role).pump.phase ≠ .aborted)
      rw [hleg] at hphase hunread
      refine ⟨_, .single (.read role chunk rest hphase hchunk hunread), ?_⟩
      rw [hleg, h.metrics, h.output]
      exact ⟨fun mine => (h.setLeg role (.inl rfl)).leg mine, rfl, rfl⟩
    | eof role hphase hclosed hunread =>
      have hleg := h.same (by rw [hphase]; exact Phase.noConfusion : (f.relay.legs role).pump.phase ≠ .aborted)
      rw [hleg] at hphase hclosed hunread
      refine ⟨_, .single (.eof role hphase hclosed hunread), h.setLeg role (.inl ?_)⟩
      rw [hleg, h.metrics]
    | write role left n hphase hn hle =>
      have hleg := h.same (by rw [hphase]; exact Phase.noConfusion : (f.relay.legs role).pump.phase ≠ .aborted)
      rw [hleg] at hphase
      refine ⟨_, .single (.write role left n hphase hn hle), h.setLeg role (.inl ?_)⟩
      rw [hleg]
    | abort role hother hphase => exact ⟨r, .refl, h.stop role⟩

/-- **A relay with errors is one without**, of which some pumps have been held still. -/
theorem faulty_simulated {pg : Decoder} {stats : ConnId} {client : SocketAddr} {m₀ : Metrics} {initial : Bytes}
    {f : FaultyRelay}
    (hreach : ReflTransGen (FaultyStep pg stats) (FaultyRelay.start client m₀ initial) f) :
    ∃ r, ReflTransGen (RelayStep pg stats) (Relay.start client m₀ initial) r ∧ Stopped f.relay r :=
  (faulty_simulates pg stats).reach (Stopped.refl _) hreach

/-! ### What has been forwarded -/

/-- A stopped pump has forwarded what the other has, and has read what the other has. -/
theorem Stopped.bytes {r r' : Relay} (h : Stopped r r') (role : Role) :
    (r.legs role).taken = (r'.legs role).taken ∧ (r.legs role).unread = (r'.legs role).unread ∧
      (r.legs role).written = (r'.legs role).written := by
  rcases h.leg role with hleg | hleg
  · rw [hleg]
    exact ⟨rfl, rfl, rfl⟩
  · rw [hleg]
    exact ⟨rfl, rfl, rfl⟩

/-- Every pump that was stopped was stopped for a reason: its own error, or the return of the other. -/
def FaultyRelay.Reasoned (f : FaultyRelay) : Prop :=
  ∀ role, (f.relay.legs role).pump.phase = .aborted →
    f.failed role = true ∨ f.failed (other role) = true ∨
      (f.relay.legs (other role)).pump.phase = .finished

theorem other_ne (role : Role) : other role ≠ role := by cases role <;> decide

/-- A step of the relay changes one leg: it leaves the phase of the other, and its own phase changes to
`aborted` when the other pump is finished. -/
theorem relayStep_phase {pg : Decoder} {stats : ConnId} {r r' : Relay} (hstep : RelayStep pg stats r r')
    (role : Role) :
    (r'.legs role).pump.phase = (r.legs role).pump.phase ∨
      ((r.legs role).pump.phase.running = true ∧ (r'.legs role).pump.phase ≠ .aborted) ∨
      ((r.legs role).pump.phase ≠ .finished ∧ (r'.legs (other role)).pump.phase = .finished) := by
  have hset : ∀ mine leg, (mine = role → leg.pump.phase = (r.legs role).pump.phase ∨
      ((r.legs role).pump.phase.running = true ∧ leg.pump.phase ≠ .aborted) ∨
      ((r.legs role).pump.phase ≠ .finished ∧ (r.legs (other role)).pump.phase = .finished)) →
      ((r.setLeg mine leg).legs role).pump.phase = (r.legs role).pump.phase ∨
        ((r.legs role).pump.phase.running = true ∧ ((r.setLeg mine leg).legs role).pump.phase ≠ .aborted) ∨
        ((r.legs role).pump.phase ≠ .finished ∧
          ((r.setLeg mine leg).legs (other role)).pump.phase = .finished) := by
    intro mine leg hleg
    by_cases hmine : role = mine
    · subst hmine
      rw [setLeg_legs_self, setLeg_legs_of_ne r (other_ne role)]
      exact hleg rfl
    · rw [setLeg_legs_of_ne r hmine]
      exact .inl rfl
  cases hstep with
  | send mine bytes _ => exact hset mine _ fun h => .inl (by rw [h])
  | close mine _ => exact hset mine _ fun h => .inl (by rw [h])
  | read mine chunk rest hphase hchunk _ =>
    obtain ⟨_, hphase', _⟩ := read_some pg stats (r.legs mine).pump r.metrics hchunk
    refine hset mine _ fun h => .inr (.inl ⟨?_, ?_⟩)
    · rw [← h, hphase]
      rfl
    · show (Pump.read pg stats (r.legs mine).pump r.metrics chunk).1.phase ≠ .aborted
      rw [hphase']
      exact Phase.noConfusion
  | eof mine hphase _ _ =>
    refine hset mine _ fun h => .inr (.inl ⟨?_, Phase.noConfusion⟩)
    rw [← h, hphase]
    rfl
  | write mine left n hphase _ _ =>
    refine hset mine _ fun h => .inr (.inl ⟨?_, ?_⟩)
    · rw [← h, hphase]
      rfl
    · show (if (left.drop n).isEmpty then Phase.reading else .writing (left.drop n)) ≠ .aborted
      split <;> exact Phase.noConfusion
  | abort mine hother hphase =>
    refine hset mine _ fun h => .inr (.inr ?_)
    rw [← h]
    exact ⟨hphase, hother⟩

/-- A pump that has returned stays so. -/
theorem relayStep_finished {pg : Decoder} {stats : ConnId} {r r' : Relay} (hstep : RelayStep pg stats r r')
    {role : Role} (h : (r.legs role).pump.phase = .finished) : (r'.legs role).pump.phase = .finished := by
  rcases relayStep_phase hstep role with hsame | ⟨hrunning, _⟩ | ⟨hphase, _⟩
  · rw [hsame, h]
  · rw [h] at hrunning
    cases hrunning
  · exact absurd h hphase

theorem stop_legs_of_ne (r : Relay) {role mine : Role} (h : mine ≠ role) :
    (r.stop role).legs mine = r.legs mine := setLeg_legs_of_ne r h _

/-- To stop a pump that runs keeps every pump that runs no more. -/
theorem stop_finished {r : Relay} {role mine : Role} (hrunning : (r.legs role).pump.phase.running = true)
    (h : (r.legs mine).pump.phase = .finished) : ((r.stop role).legs mine).pump.phase = .finished := by
  by_cases hmine : mine = role
  · rw [← hmine, h] at hrunning
    cases hrunning
  · rw [stop_legs_of_ne r hmine, h]

/-- **One step keeps the reasons.** -/
theorem faultyStep_reasoned {pg : Decoder} {stats : ConnId} {f f' : FaultyRelay} (h : f.Reasoned)
    (hstep : FaultyStep pg stats f f') : f'.Reasoned := by
  intro role haborted
  cases hstep with
  | step hstep =>
    rcases relayStep_phase hstep role with hsame | ⟨_, hphase⟩ | ⟨_, hother⟩
    · rw [hsame] at haborted
      exact (h role haborted).imp_right (Or.imp_right (relayStep_finished hstep))
    · exact absurd haborted hphase
    · exact .inr (.inr hother)
  | fail mine hrunning =>
    by_cases hrole : role = mine
    · exact .inl (by rw [hrole]; exact Function.update_self ..)
    · by_cases hother : other role = mine
      · exact .inr (.inl (by rw [hother]; exact Function.update_self ..))
      · rw [stop_legs_of_ne f.relay hrole] at haborted
        rcases h role haborted with hfailed | hfailed | hfinished
        · exact .inl ((Function.update_of_ne hrole ..).trans hfailed)
        · exact .inr (.inl ((Function.update_of_ne hother ..).trans hfailed))
        · exact .inr (.inr (stop_finished hrunning hfinished))
  | abort mine hfailed hrunning =>
    by_cases hrole : role = mine
    · exact .inr (.inl (hrole ▸ hfailed))
    · rw [stop_legs_of_ne f.relay hrole] at haborted
      exact (h role haborted).imp_right (Or.imp_right (stop_finished hrunning))

theorem faulty_reasoned {pg : Decoder} {stats : ConnId} {client : SocketAddr} {m₀ : Metrics} {initial : Bytes}
    {f : FaultyRelay}
    (hreach : ReflTransGen (FaultyStep pg stats) (FaultyRelay.start client m₀ initial) f) : f.Reasoned := by
  induction hreach with
  | refl =>
    intro role haborted
    cases role <;> cases haborted
  | tail _ hstep ih => exact faultyStep_reasoned ih hstep

/-- **Whatever fails, what is forwarded is a beginning of what was sent**, and of what was read; and once
no pump runs, either one of them has forwarded all that its peer sent, or one has met an error. -/
theorem faulty_forwards (pg : Decoder) (hpg : pg.Consumes) (stats : ConnId) (client : SocketAddr)
    (m₀ : Metrics) (initial : Bytes) (f : FaultyRelay)
    (hreach : ReflTransGen (FaultyStep pg stats) (FaultyRelay.start client m₀ initial) f) :
    (∀ role, (f.relay.legs role).written <+: (f.relay.legs role).taken ∧
        (f.relay.legs role).written <+: (f.relay.legs role).sent) ∧
      ((∀ role, (f.relay.legs role).pump.phase.running = false) →
        (∃ role, f.failed role = true) ∨
          ∃ role, (f.relay.legs role).closed = true ∧ (f.relay.legs role).shut = true ∧
            (f.relay.legs role).written = (f.relay.legs role).sent) := by
  obtain ⟨r, hreach', hstopped⟩ := faulty_simulated hreach
  have hok := relay_ok hpg hreach'
  refine ⟨fun role => ?_, fun hover => ?_⟩
  · obtain ⟨htaken, hunread, hwritten⟩ := hstopped.bytes role
    rw [Leg.sent, htaken, hunread, hwritten]
    exact ⟨(hok role).written_taken, (hok role).written_begins⟩
  · have hreasoned := faulty_reasoned hreach
    by_cases hfinished : ∃ role, (f.relay.legs role).pump.phase = .finished
    · obtain ⟨role, hphase⟩ := hfinished
      have hleg := hstopped.same (by rw [hphase]; exact Phase.noConfusion : (f.relay.legs role).pump.phase ≠ .aborted)
      rw [hleg] at hphase
      obtain ⟨hclosed, _, hshut⟩ := (hok role).finished hphase
      exact .inr ⟨role, by rw [hleg]; exact hclosed, by rw [hleg]; exact hshut,
        by rw [hleg]; exact (hok role).written_all hphase⟩
    · have haborted : (f.relay.legs .client).pump.phase = .aborted := by
        have hrunning := hover .client
        cases hphase : (f.relay.legs .client).pump.phase with
        | reading =>
          rw [hphase] at hrunning
          cases hrunning
        | writing left =>
          rw [hphase] at hrunning
          cases hrunning
        | finished => exact absurd ⟨_, hphase⟩ hfinished
        | aborted => rfl
      rcases hreasoned .client haborted with hfailed | hfailed | hphase
      · exact .inl ⟨_, hfailed⟩
      · exact .inl ⟨_, hfailed⟩
      · exact absurd ⟨_, hphase⟩ hfinished

/-- A server's message of which the last byte is not written: the client has gone. -/
theorem faulty_forwards_reset : ∃ f, ReflTransGen (FaultyStep framed 1)
    (FaultyRelay.start noClient (Metrics.withLimits 10) []) f ∧
      (f.relay.legs .server).written = [0x5a, 0, 0, 0, 5] ∧ f.failed .server = true ∧
      (∀ role, (f.relay.legs role).written <+: (f.relay.legs role).taken ∧
        (f.relay.legs role).written <+: (f.relay.legs role).sent) ∧
      ((∃ role, f.failed role = true) ∨
        ∃ role, (f.relay.legs role).closed = true ∧ (f.relay.legs role).shut = true ∧
          (f.relay.legs role).written = (f.relay.legs role).sent) := by
  have hstart := ReflTransGen.refl (r := FaultyStep framed 1)
    (a := FaultyRelay.start noClient (Metrics.withLimits 10) [])
  have hsend := hstart.tail (.step (.send .server response rfl))
  have hread := hsend.tail (.step (.read .server response [] rfl (by decide) rfl))
  have hwrite := hread.tail (.step (.write .server response 5 rfl (by decide) (by decide)))
  have hfail := hwrite.tail (.fail .server rfl)
  have habort := hfail.tail (.abort .client rfl rfl)
  obtain ⟨hbegins, hover⟩ := faulty_forwards framed framed_lawful.consumes 1 noClient (Metrics.withLimits 10) []
    _ habort
  exact ⟨_, habort, rfl, rfl, hbegins, hover fun role => by cases role <;> rfl⟩

/-! ### What has been reported -/

/-- A drain of more of a smooth stream emits what the drain of less of it does, and more. -/
theorem whole_grows {pg : Decoder} (hpg : pg.Lawful) {d : Direction} {S P Q : Bytes} (hsmooth : Smooth pg d S)
    (hP : P <+: Q) (hQ : Q <+: S) : (whole pg d P).events <+: (whole pg d Q).events := by
  obtain ⟨more, rfl⟩ := hP
  obtain ⟨_, _, _, hmore⟩ := whole_append hpg.consumes
    (hsmooth P ((List.prefix_append ..).trans hQ)) more none
  exact ⟨_, hmore.symm⟩

/-- The proxy's direction reports a stream as one drain of it does, even a stream that is cut. -/
theorem forDecoding_report {pg : Decoder} (hpg : pg.Lawful) (role : Role) (client : SocketAddr) (S : Bytes) :
    (whole pg (Direction.forDecoding role client) S).report = streamReport pg role S := by
  have halike : Alike (Direction.forDecoding role noClient) (Direction.forDecoding role client) :=
    ⟨rfl, rfl, rfl, fun _ => rfl⟩
  exact report_alike hpg.consumes hpg.negotiates halike S

/-- What has been emitted of one side lies between what a drain of `less` reports and one of `more`. -/
structure Between (pg : Decoder) (role : Role) (less more : Bytes) (output : List Event) : Prop where
  recordsLess : (streamReport pg role less).records <+: recordsOf role output
  recordsMore : recordsOf role output <+: (streamReport pg role more).records
  msgsLess : (streamReport pg role less).msgs ≤ messagesOf role output
  msgsMore : messagesOf role output ≤ (streamReport pg role more).msgs

/-- **Nothing is forwarded unreported.**  Let the two streams be those of a cleartext session.  Whatever
fails and whenever, all that has been written to the other peer has been reported before, and nothing that
the stream does not report. -/
theorem forwarded_reported {pg : Decoder} (hpg : pg.Lawful) {stats : ConnId} {client : SocketAddr}
    {m₀ : Metrics} {initial : Bytes} (hshort : initial.length ≤ 8) {streams : Role → Bytes}
    (hstreams : ∀ role, IsStream pg role (streams role)) {f : FaultyRelay}
    (hreach : ReflTransGen (FaultyStep pg stats) (FaultyRelay.start client m₀ initial) f)
    (hbegun : ∀ role, (f.relay.legs role).taken <+: streams role) (role : Role) :
    Between pg role (f.relay.legs role).written (streams role) f.relay.output := by
  obtain ⟨r, hreach', hstopped⟩ := faulty_simulated hreach
  have hok := relay_ok hpg.consumes hreach'
  obtain ⟨htracks, _⟩ := relay_tracks hpg hshort hstreams hreach' fun role => by
    rw [Relay.taken, ← (hstopped.bytes role).1]
    exact hbegun role
  obtain ⟨htaken, _, hwritten⟩ := hstopped.bytes role
  have hsmooth := (stream_smooth hpg rfl (forDecoding_starts role client) (hstreams role)).1
  have hreport : ∀ S, (streamReport pg role S).records
        = recordsOf role (whole pg (Direction.forDecoding role client) S).events ∧
      (streamReport pg role S).msgs
        = messagesOf role (whole pg (Direction.forDecoding role client) S).events := fun S => by
    have haccount := drain_account hpg.consumes { Direction.forDecoding role client with rxbuf := S }
    rw [← forDecoding_report hpg role client S]
    refine ⟨?_, haccount.msgs⟩
    rw [Draining.report, show (whole pg (Direction.forDecoding role client) S).dir.role = role from haccount.role]
  have hbegun' : r.taken role <+: streams role := by
    rw [Relay.taken, ← htaken]
    exact hbegun role
  have hless := whole_grows hpg hsmooth (hok role).written_taken hbegun'
  have hmore := whole_grows hpg hsmooth hbegun' (List.prefix_refl _)
  rw [hstopped.output, hwritten]
  refine ⟨?_, ?_, ?_, ?_⟩
  · rw [htracks.records role, (hreport _).1]
    exact hless.filterMap _
  · rw [htracks.records role, (hreport _).1]
    exact hmore.filterMap _
  · rw [htracks.msgs role, (hreport _).2]
    exact hless.sublist.countP_le
  · rw [htracks.msgs role, (hreport _).2]
    exact hmore.sublist.countP_le

end Tapgres.Proxy
