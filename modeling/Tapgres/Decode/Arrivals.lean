import Tapgres.Decode.Streams

/-!
# Bytes arriving on both sides

What the traffic sources have in common: bytes arrive on one side, are appended to its buffer, and the
buffer is drained.  `Arrival` is such a step, whichever source makes it, and `Tracks` the state of a
source while the two sides send smooth streams.

* `tracks_arrival` — an arrival keeps the state on track: each side stands where one drain of all its
  bytes so far would stand, and has emitted what that drain emits;
* `Tracks.reported` — so when the streams are complete, each side has reported what its stream reports.
-/

namespace Tapgres.Decode

open Tapgres.Net Tapgres.Pgwire Tapgres.Flow

/-- The direction with more bytes in its buffer, and its flow state moved on. -/
def Direction.arrived (d : Direction) (c : Bytes) (nextSeq : Option (BitVec 32)) : Direction :=
  { d with nextSeq := nextSeq, rxbuf := d.rxbuf ++ c }

/-- The bytes `c` arrive on the side `role`: it is drained, and the other side is left alone unless the
drain asks for a negotiation answer. -/
structure Arrival (pg : Decoder) (dirs dirs' : Role → Direction) (role : Role) (c : Bytes)
    (nextSeq : Option (BitVec 32)) (events : List Event) : Prop where
  events : events = (drainDirection pg (Direction.arrived (dirs role) c nextSeq) {}).events
  dir : dirs' role = (drainDirection pg (Direction.arrived (dirs role) c nextSeq) {}).dir
  other : (drainDirection pg (Direction.arrived (dirs role) c nextSeq) {}).outcome.serverNegotiationWait
    = .none → ∀ r, r ≠ role → dirs' r = dirs r

/-- Each side stands where one drain of its bytes so far, `P`, leaves a direction that started as `start`
says, and the events so far report of it what that drain reports. -/
structure Tracks (pg : Decoder) (start : Role → Direction) (P : Role → Bytes) (dirs : Role → Direction)
    (events : List Event) : Prop where
  dir : ∀ role, dirs role
    = { (whole pg (start role) (P role)).dir with nextSeq := (dirs role).nextSeq }
  records : ∀ role, recordsOf role events = recordsOf role (whole pg (start role) (P role)).events
  msgs : ∀ role, messagesOf role events = messagesOf role (whole pg (start role) (P role)).events
  bytes : ∀ role, wireOf role events = wireOf role (whole pg (start role) (P role)).events
  clean : ∀ e ∈ events, e.isDecodeError = false

theorem recordsOf_other {role other : Role} (hne : role ≠ other) {es : List Event}
    (h : ∀ e ∈ es, e.ofRole role) : recordsOf other es = [] := by
  rw [recordsOf, List.filterMap_eq_nil_iff]
  intro e he
  have := h e he
  cases e with
  | message emitter body wire =>
    simp only [Event.ofRole] at this
    simp [Event.recordOf, this, hne]
  | _ => rfl

section Arrivals

variable {pg : Decoder} (hpg : pg.Consumes) {start : Role → Direction}
include hpg

/-- Bytes from which pgwire decodes nothing may be in the buffers before the first drain. -/
theorem tracks_start {P : Role → Bytes} (hquiet : ∀ role, Quiet pg { start role with rxbuf := P role }) :
    Tracks pg start P (fun role => { start role with rxbuf := P role }) [] := by
  have hwhole : ∀ role, whole pg (start role) (P role) = ⟨{ start role with rxbuf := P role }, {}, []⟩ :=
    fun role => whole_of_quiet hpg (hquiet role)
  exact ⟨fun role => by rw [hwhole], fun role => by rw [hwhole], fun role => by rw [hwhole],
    fun role => by rw [hwhole], nofun⟩

omit hpg in
theorem Tracks.arrived {P : Role → Bytes} {dirs : Role → Direction} {past : List Event}
    (h : Tracks pg start P dirs past) (role : Role) (c : Bytes) (nextSeq : Option (BitVec 32)) :
    Direction.arrived (dirs role) c nextSeq = resumed pg (start role) (P role) c nextSeq := by
  rw [Direction.arrived, h.dir role]
  rfl

/-- While the stream is smooth, the drain of an arrival finds no encryption and asks for no answer. -/
theorem arrival_clear {P : Role → Bytes} {dirs : Role → Direction} {past : List Event}
    (h : Tracks pg start P dirs past) {role : Role} {c : Bytes} (nextSeq : Option (BitVec 32))
    (hbefore : DriesUp pg (start role) (P role)) (hafter : DriesUp pg (start role) (P role ++ c)) :
    (drainDirection pg (Direction.arrived (dirs role) c nextSeq) {}).outcome.encrypted = false ∧
      (drainDirection pg (Direction.arrived (dirs role) c nextSeq) {}).outcome.serverNegotiationWait
        = .none := by
  rw [h.arrived]
  obtain ⟨_, henc, hwait, _⟩ := whole_append hpg hbefore c nextSeq
  exact ⟨henc.trans hafter.clear, hwait.trans hafter.unarmed⟩

/-- **An arrival keeps the state on track.** -/
theorem tracks_arrival (hrole : ∀ role, (start role).role = role) {P : Role → Bytes}
    {dirs dirs' : Role → Direction} {past es : List Event} (h : Tracks pg start P dirs past)
    {role : Role} {c : Bytes} {nextSeq : Option (BitVec 32)}
    (hbefore : DriesUp pg (start role) (P role)) (hafter : DriesUp pg (start role) (P role ++ c))
    (harr : Arrival pg dirs dirs' role c nextSeq es) :
    Tracks pg start (Function.update P role (P role ++ c)) dirs' (past ++ es) := by
  obtain ⟨hevents, hdir, hother⟩ := harr
  rw [h.arrived] at hevents hdir hother
  obtain ⟨hdir', _, hwait, hmore⟩ := whole_append hpg hbefore c nextSeq
  have hof : ∀ e ∈ es, e.ofRole role := by
    have hacc := drain_account hpg (resumed pg (start role) (P role) c nextSeq)
    have hside : (resumed pg (start role) (P role) c nextSeq).role = role :=
      (drain_account hpg { start role with rxbuf := P role }).role.trans (hrole role)
    intro e he
    have hside' := hacc.ofRole e (hevents ▸ he)
    rwa [hside] at hside'
  rw [← hevents] at hmore
  have hclean : ∀ e ∈ past ++ es, e.isDecodeError = false := by
    intro e he
    rcases List.mem_append.mp he with he | he
    · exact h.clean e he
    · exact hafter.clean hpg e (hmore ▸ List.mem_append_right _ he)
  refine ⟨fun r => ?_, fun r => ?_, fun r => ?_, fun r => ?_, hclean⟩ <;> by_cases hr : r = role
  · subst hr
    rw [Function.update_self, hdir, hdir']
  · rw [Function.update_of_ne hr, hother (hwait.trans hafter.unarmed) r hr]
    exact h.dir r
  · subst hr
    rw [Function.update_self, hmore, recordsOf_append, recordsOf_append, h.records]
  · rw [Function.update_of_ne hr, recordsOf_append, recordsOf_other (Ne.symm hr) hof, h.records,
      List.append_nil]
  · subst hr
    rw [Function.update_self, hmore, messagesOf_append, messagesOf_append, h.msgs]
  · rw [Function.update_of_ne hr, messagesOf_append, messagesOf_other (Ne.symm hr) hof, h.msgs,
      Nat.add_zero]
  · subst hr
    rw [Function.update_self, hmore, wireOf_append, wireOf_append, h.bytes]
  · rw [Function.update_of_ne hr, wireOf_append, wireOf_other (Ne.symm hr) hof, h.bytes, Nat.add_zero]

end Arrivals

/-- **The report at the end**, of each side. -/
theorem Tracks.reported {pg : Decoder} (hpg : pg.Lawful) {start : Role → Direction}
    (hrole : ∀ role, (start role).role = role) (hstart : ∀ role, Starts (start role))
    {streams : Role → Bytes} (hstreams : ∀ role, IsStream pg role (streams role))
    {dirs : Role → Direction} {events : List Event} (h : Tracks pg start streams dirs events)
    (role : Role) :
    (⟨recordsOf role events, (dirs role).rowDesc, messagesOf role events, wireOf role events⟩ : Report)
      = streamReport pg role (streams role) := by
  rw [← (stream_smooth hpg (hrole role) (hstart role) (hstreams role)).2]
  have hacc := drain_account hpg.consumes { start role with rxbuf := streams role }
  rw [← whole] at hacc
  have hside : (whole pg (start role) (streams role)).dir.role = role := hacc.role.trans (hrole role)
  rw [Draining.report, h.records, h.msgs, h.bytes, hside, h.dir role, hacc.msgs, hacc.bytes]
  simp [hrole role]

end Tapgres.Decode
