import Mathlib.Logic.Relation
import Tapgres.Decode.Arrivals
import Tapgres.Flow.Connection
import Tapgres.Pgwire.Framed

/-!
# The relay phase of the proxy

`pump` of `proxy.rs` and the part of `handle_connection` that runs two of them.  Each pump reads from one
peer, decodes what it read, and writes it to the other; the peers, the two pumps and the abort of one
when the other is finished take their steps in any order.

* `Pump.read`, `Pump.wrote` — the loop of `pump`, cut at its awaits;
* `RelayStep` — one step of the relay or of a peer;
* `relay_ok` — what the pump of a leg has read is what has been written to the other peer, with the rest
  of one chunk perhaps still to be written;
* `terminated_forwards` — when the relay has ended, all that one peer sent has been forwarded, and of the
  other's stream some beginning.
-/

namespace Tapgres.Proxy

open Tapgres.Net Tapgres.Pgwire Tapgres.Decode Tapgres.Flow Tapgres.State

/-! ### A pump -/

/-- Where a pump's task stands: at its `read`, in `write_all` with bytes left to write, returned, or
aborted. -/
inductive Phase where
  | reading
  | writing (left : Bytes)
  | finished
  | aborted
  deriving DecidableEq, Repr

structure Pump where
  role : Role
  dir : Direction
  phase : Phase

/-- `pump` up to its loop; `initial` is its `prefix`, the bytes the caller already read. -/
def Pump.start (role : Role) (client : SocketAddr) (initial : Bytes) : Pump :=
  let dir := Direction.forDecoding role client
  { role, dir := { dir with rxbuf := dir.rxbuf ++ initial }, phase := .reading }

/-- A `read` has returned the bytes `chunk`: none at the end of the stream.  Fresh plaintext is decoded
and counted, and then forwarded untouched. -/
def Pump.read (pg : Decoder) (stats : ConnId) (p : Pump) (metrics : Metrics) (chunk : Bytes) :
    Pump × Metrics × List Event :=
  if chunk.isEmpty then ({ p with phase := .finished }, metrics, [])
  else
    let drained := drainDirection pg { p.dir with rxbuf := p.dir.rxbuf ++ chunk } {}
    let outcome := drained.outcome
    let metrics :=
      if outcome.msgs > 0 then
        metrics.recordMessages stats (trafficDirection p.role) outcome.msgs outcome.bytes
      else metrics
    ({ p with dir := drained.dir, phase := .writing chunk }, metrics, drained.events)

/-- `write_all` has written `n` of the bytes left. -/
def Pump.wrote (p : Pump) (left : Bytes) (n : ℕ) : Pump :=
  { p with phase := if (left.drop n).isEmpty then .reading else .writing (left.drop n) }

/-! ### Both legs -/

/-- The leg from one peer to the other. -/
structure Leg where
  /-- What the peer has sent and the proxy has read. -/
  taken : Bytes
  /-- What the peer has sent and the proxy has still to read. -/
  unread : Bytes
  /-- The peer has closed its sending direction. -/
  closed : Bool
  pump : Pump
  /-- What has been written to the other peer. -/
  written : Bytes
  /-- The stream to the other peer has been shut down. -/
  shut : Bool

def Leg.sent (leg : Leg) : Bytes := leg.taken ++ leg.unread

structure Relay where
  legs : Role → Leg
  metrics : Metrics
  output : List Event

/-- The relay as `handle_connection` starts it: the client's `initial` bytes have been read, and written
upstream. -/
def Relay.start (client : SocketAddr) (metrics : Metrics) (initial : Bytes) : Relay :=
  let leg (role : Role) (initial : Bytes) : Leg :=
    { taken := initial, unread := [], closed := false, pump := Pump.start role client initial
      written := initial, shut := false }
  { legs := fun role => match role with
      | .client => leg .client initial
      | .server => leg .server []
    metrics, output := [] }

def Relay.setLeg (r : Relay) (role : Role) (leg : Leg) : Relay :=
  { r with legs := Function.update r.legs role leg }

def other : Role → Role
  | .client => .server
  | .server => .client

/-- One step of a peer, of a pump, or of the `select!` over the two. -/
inductive RelayStep (pg : Decoder) (stats : ConnId) (r : Relay) : Relay → Prop
  | send (role : Role) (bytes : Bytes) (hopen : (r.legs role).closed = false) :
      RelayStep pg stats r
        (r.setLeg role { r.legs role with unread := (r.legs role).unread ++ bytes })
  | close (role : Role) (hopen : (r.legs role).closed = false) :
      RelayStep pg stats r (r.setLeg role { r.legs role with closed := true })
  | read (role : Role) (chunk rest : Bytes) (hphase : (r.legs role).pump.phase = .reading)
      (hchunk : chunk ≠ []) (hunread : (r.legs role).unread = chunk ++ rest) :
      RelayStep pg stats r
        { r.setLeg role { r.legs role with
            taken := (r.legs role).taken ++ chunk, unread := rest
            pump := ((r.legs role).pump.read pg stats r.metrics chunk).1 } with
          metrics := ((r.legs role).pump.read pg stats r.metrics chunk).2.1
          output := r.output ++ ((r.legs role).pump.read pg stats r.metrics chunk).2.2 }
  | eof (role : Role) (hphase : (r.legs role).pump.phase = .reading)
      (hclosed : (r.legs role).closed = true) (hunread : (r.legs role).unread = []) :
      RelayStep pg stats r
        (r.setLeg role { r.legs role with
          pump := ((r.legs role).pump.read pg stats r.metrics []).1, shut := true })
  | write (role : Role) (left : Bytes) (n : ℕ) (hphase : (r.legs role).pump.phase = .writing left)
      (hn : 0 < n) (hle : n ≤ left.length) :
      RelayStep pg stats r
        (r.setLeg role { r.legs role with
          pump := (r.legs role).pump.wrote left n, written := (r.legs role).written ++ left.take n })
  -- the pump of the other leg has returned
  | abort (role : Role) (hother : (r.legs (other role)).pump.phase = .finished)
      (hphase : (r.legs role).pump.phase ≠ .finished) :
      RelayStep pg stats r
        (r.setLeg role { r.legs role with pump := { (r.legs role).pump with phase := .aborted } })

/-! ### What has been forwarded -/

@[simp] theorem setLeg_legs_self (r : Relay) (role : Role) (leg : Leg) :
    (r.setLeg role leg).legs role = leg := Function.update_self ..

theorem setLeg_legs_of_ne (r : Relay) {role role' : Role} (h : role' ≠ role) (leg : Leg) :
    (r.setLeg role leg).legs role' = r.legs role' := Function.update_of_ne h ..

/-- How what a pump has written relates to what it has read. -/
def Forwarded (taken written : Bytes) : Phase → Prop
  | .reading => written = taken
  | .writing left => left ≠ [] ∧ written ++ left = taken
  | .finished => written = taken
  | .aborted => written <+: taken

/-- The invariant of a leg. -/
structure Leg.Ok (leg : Leg) (mine : Role) : Prop where
  role : leg.pump.role = mine
  dir : leg.pump.dir.role = mine
  forwarded : Forwarded leg.taken leg.written leg.pump.phase
  finished : leg.pump.phase = .finished → leg.closed = true ∧ leg.unread = [] ∧ leg.shut = true

theorem start_ok (client : SocketAddr) (metrics : Metrics) (initial : Bytes) (role : Role) :
    ((Relay.start client metrics initial).legs role).Ok role := by
  cases role <;> exact ⟨rfl, rfl, rfl, nofun⟩

/-- What a read of some bytes does to the pump. -/
theorem read_some (pg : Decoder) (stats : ConnId) (p : Pump) (metrics : Metrics) {chunk : Bytes}
    (hchunk : chunk ≠ []) :
    (p.read pg stats metrics chunk).1.role = p.role ∧
      (p.read pg stats metrics chunk).1.phase = .writing chunk ∧
      (p.read pg stats metrics chunk).1.dir
        = (drainDirection pg { p.dir with rxbuf := p.dir.rxbuf ++ chunk } {}).dir ∧
      (p.read pg stats metrics chunk).2.2
        = (drainDirection pg { p.dir with rxbuf := p.dir.rxbuf ++ chunk } {}).events := by
  rw [Pump.read, if_neg (by simpa using hchunk)]
  exact ⟨rfl, rfl, rfl, rfl⟩

/-- **One step keeps both legs.** -/
theorem relayStep_ok {pg : Decoder} (hpg : pg.Consumes) {stats : ConnId} {r r' : Relay}
    (h : ∀ role, (r.legs role).Ok role) (hstep : RelayStep pg stats r r') (role : Role) :
    (r'.legs role).Ok role := by
  -- every step changes one leg
  have hset : ∀ mine leg, leg.Ok mine → ((r.setLeg mine leg).legs role).Ok role := by
    intro mine leg hleg
    by_cases hr : role = mine
    · subst hr
      rwa [setLeg_legs_self]
    · rw [setLeg_legs_of_ne r hr]
      exact h role
  cases hstep with
  | send mine bytes hopen =>
    obtain ⟨hrole, hdir, hfwd, hfin⟩ := h mine
    refine hset mine _ ⟨hrole, hdir, hfwd, fun hphase => ?_⟩
    rw [(hfin hphase).1] at hopen
    cases hopen
  | close mine hopen =>
    obtain ⟨hrole, hdir, hfwd, hfin⟩ := h mine
    exact hset mine _ ⟨hrole, hdir, hfwd, fun hphase => ⟨rfl, (hfin hphase).2⟩⟩
  | read mine chunk rest hphase hchunk hunread =>
    obtain ⟨hrole, hdir, hfwd, hfin⟩ := h mine
    obtain ⟨hrole', hphase', hdir', _⟩ := read_some pg stats (r.legs mine).pump r.metrics hchunk
    rw [hphase] at hfwd
    refine hset mine _ ⟨hrole'.trans hrole, ?_, ?_, fun hfinished => ?_⟩
    · rw [hdir']
      exact (drain_account hpg _).role.trans hdir
    · show Forwarded _ _ (Pump.read pg stats (r.legs mine).pump r.metrics chunk).1.phase
      rw [hphase']
      exact ⟨hchunk, congrArg (· ++ chunk) hfwd⟩
    · cases hphase'.symm.trans hfinished
  | eof mine hphase hclosed hunread =>
    obtain ⟨hrole, hdir, hfwd, hfin⟩ := h mine
    rw [hphase] at hfwd
    exact hset mine _ ⟨hrole, hdir, hfwd, fun _ => ⟨hclosed, hunread, rfl⟩⟩
  | write mine left n hphase hn hle =>
    obtain ⟨hrole, hdir, hfwd, hfin⟩ := h mine
    rw [hphase] at hfwd
    obtain ⟨_, hleft⟩ := hfwd
    refine hset mine _ ⟨hrole, hdir, ?_, fun hfinished => ?_⟩
    · show Forwarded _ _ (if (left.drop n).isEmpty then .reading else .writing (left.drop n))
      split
      · rename_i hall
        have hdrop : left.drop n = [] := by simpa using hall
        show _ ++ left.take n = _
        rw [← hleft, ← List.append_nil (left.take n), ← hdrop, List.take_append_drop]
      · rename_i hmore
        refine ⟨by simpa using hmore, ?_⟩
        show (_ ++ left.take n) ++ left.drop n = _
        rw [List.append_assoc, List.take_append_drop, hleft]
    · change (if (left.drop n).isEmpty then Phase.reading else .writing (left.drop n)) = _ at hfinished
      split at hfinished <;> cases hfinished
  | abort mine hother hphase =>
    obtain ⟨hrole, hdir, hfwd, hfin⟩ := h mine
    refine hset mine _ ⟨hrole, hdir, ?_, nofun⟩
    show (r.legs mine).written <+: (r.legs mine).taken
    cases hp : (r.legs mine).pump.phase with
    | reading =>
      rw [hp] at hfwd
      exact hfwd ▸ List.prefix_refl _
    | writing left =>
      rw [hp] at hfwd
      exact ⟨left, hfwd.2⟩
    | finished => exact absurd hp hphase
    | aborted =>
      rw [hp] at hfwd
      exact hfwd

/-- **The legs, in every state of the relay.** -/
theorem relay_ok {pg : Decoder} (hpg : pg.Consumes) {stats : ConnId} {client : SocketAddr}
    {metrics : Metrics} {initial : Bytes} {r : Relay}
    (h : Relation.ReflTransGen (RelayStep pg stats) (Relay.start client metrics initial) r)
    (role : Role) : (r.legs role).Ok role := by
  induction h generalizing role with
  | refl => exact start_ok client metrics initial role
  | tail _ hstep ih => exact relayStep_ok hpg ih hstep role

/-! ### The end of the relay -/

/-- `select!` is through: one pump has returned, and the other has returned too or is aborted. -/
def Relay.Terminated (r : Relay) : Prop :=
  ∃ role, (r.legs role).pump.phase = .finished ∧
    ((r.legs (other role)).pump.phase = .finished ∨ (r.legs (other role)).pump.phase = .aborted)

/-- What has been written is a beginning of what has been read. -/
theorem Leg.Ok.written_taken {leg : Leg} {mine : Role} (h : leg.Ok mine) : leg.written <+: leg.taken := by
  have hforwarded := h.forwarded
  cases hphase : leg.pump.phase with
  | reading =>
    rw [hphase] at hforwarded
    exact hforwarded ▸ List.prefix_refl _
  | writing left =>
    rw [hphase] at hforwarded
    exact ⟨left, hforwarded.2⟩
  | finished =>
    rw [hphase] at hforwarded
    exact hforwarded ▸ List.prefix_refl _
  | aborted =>
    rw [hphase] at hforwarded
    exact hforwarded

/-- What has been written is a beginning of what has been sent. -/
theorem Leg.Ok.written_begins {leg : Leg} {mine : Role} (h : leg.Ok mine) : leg.written <+: leg.sent :=
  h.written_taken.trans (List.prefix_append ..)

/-- A pump that has returned has forwarded all that its peer sent. -/
theorem Leg.Ok.written_all {leg : Leg} {mine : Role} (h : leg.Ok mine)
    (hfinished : leg.pump.phase = .finished) : leg.written = leg.sent := by
  have hforwarded := h.forwarded
  rw [hfinished] at hforwarded
  rw [Leg.sent, (h.finished hfinished).2.1, List.append_nil]
  exact hforwarded

/-- **What a relay that has ended has forwarded.**  It ends as soon as one peer has closed and its pump has
returned: that peer's bytes have been written, in order and once, and of the other's a beginning. -/
theorem terminated_forwards (pg : Decoder) (hpg : pg.Consumes) (stats : ConnId) (client : SocketAddr)
    (metrics : Metrics) (initial : Bytes) (r : Relay)
    (hreach : Relation.ReflTransGen (RelayStep pg stats) (Relay.start client metrics initial) r)
    (hterminated : r.Terminated) :
    (∃ role, (r.legs role).closed = true ∧ (r.legs role).shut = true ∧
        (r.legs role).written = (r.legs role).sent) ∧
      ∀ role, (r.legs role).written <+: (r.legs role).sent := by
  have hok := relay_ok hpg hreach
  obtain ⟨role, hfinished, _⟩ := hterminated
  obtain ⟨hclosed, _, hshut⟩ := (hok role).finished hfinished
  exact ⟨⟨role, hclosed, hshut, (hok role).written_all hfinished⟩, fun role => (hok role).written_begins⟩

/-- The client's last request. -/
def lastRequest : Bytes := [0x53, 0, 0, 0, 4]

/-- The server's response to it. -/
def response : Bytes := [0x5a, 0, 0, 0, 5, 0x49]

/-- The client has sent its last request and closed its sending direction; the request is forwarded, and
the relay ends when the server responds. -/
theorem halfClosed_reachable : ∃ r, Relation.ReflTransGen (RelayStep framed 1)
    (Relay.start ⟨.v4 0, 0⟩ (Metrics.withLimits 10) []) r ∧ r.Terminated ∧
      (r.legs .client).written = lastRequest ∧ (r.legs .server).sent = response ∧
      (r.legs .server).closed = true ∧ (r.legs .server).written = [] := by
  have hstart := Relation.ReflTransGen.refl (r := RelayStep framed 1)
    (a := Relay.start ⟨.v4 0, 0⟩ (Metrics.withLimits 10) [])
  have hsend := hstart.tail (.send .client lastRequest rfl)
  have hread := hsend.tail (.read .client lastRequest [] rfl (by decide) rfl)
  have hwrite := hread.tail (.write .client lastRequest 5 rfl (by decide) (by decide))
  have hclose := hwrite.tail (.close .client rfl)
  have heof := hclose.tail (.eof .client rfl rfl rfl)
  have hresponse := heof.tail (.send .server response rfl)
  have hdone := hresponse.tail (.close .server rfl)
  have habort := hdone.tail (.abort .server rfl nofun)
  exact ⟨_, habort, ⟨.client, rfl, .inr rfl⟩, rfl, rfl, rfl, rfl⟩

/-- After the client's close alone, the relay has forwarded the request. -/
theorem terminated_forwards_request : ∃ r, Relation.ReflTransGen (RelayStep framed 1)
    (Relay.start ⟨.v4 0, 0⟩ (Metrics.withLimits 10) []) r ∧
      (∃ role, (r.legs role).closed = true ∧ (r.legs role).shut = true ∧
        (r.legs role).written = (r.legs role).sent) ∧
      ∀ role, (r.legs role).written <+: (r.legs role).sent := by
  obtain ⟨r, hreach, hterminated, _⟩ := halfClosed_reachable
  exact ⟨r, hreach, terminated_forwards framed framed_lawful.consumes 1 ⟨.v4 0, 0⟩ (Metrics.withLimits 10) []
    r hreach hterminated⟩

/-- **A response is lost**: the client closed its sending direction after its last request, the relay has
ended, and the server's response has not been written. -/
theorem response_lost : ∃ r, Relation.ReflTransGen (RelayStep framed 1)
    (Relay.start ⟨.v4 0, 0⟩ (Metrics.withLimits 10) []) r ∧ r.Terminated ∧
      (r.legs .server).closed = true ∧ (r.legs .server).written ≠ (r.legs .server).sent := by
  obtain ⟨r, hreach, hterminated, _, hsent, hclosed, hwritten⟩ := halfClosed_reachable
  exact ⟨r, hreach, hterminated, hclosed, by rw [hsent, hwritten]; decide⟩

end Tapgres.Proxy
