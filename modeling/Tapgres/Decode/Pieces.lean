import Tapgres.Decode.Drain
import Tapgres.Lib.Run

/-!
# Decoding a stream in pieces

Both traffic sources append what arrives to `rxbuf` and drain.  Draining looks at the buffer and the
flags only, so on a stream of which no beginning makes it stop or fail, draining after every piece does
what one drain of the whole does.

* `drainTurn_carried` — a turn does not depend on the flow state, the client's address, what was emitted
  and counted before, or, when it decodes something that they do not change, on the bytes behind it;
* `whole_append` — one drain of two pieces is a drain of the first, then one of the second behind what
  the first has left;
* `report_alike` — what a drain reports does not depend on which source's direction it is.
-/

namespace Tapgres.Decode

open Tapgres.Net Tapgres.Pgwire Tapgres.Flow Tapgres.Lib.Loop Tapgres.Lib.Run
open Relation (ReflTransGen)

/-! ### What a turn does not depend on -/

/-- What surrounds a decode: the flow state, the client's address, the frontend's SSL flag, the bytes
behind those decoded, and what was counted and emitted before. -/
structure Surroundings where
  nextSeq : Option (BitVec 32)
  ooo : OooMap
  client : SocketAddr → SocketAddr
  ssl : Bool → Bool
  behind : Bytes
  msgs : ℕ
  bytes : ℕ
  events : List Event

def Surroundings.ctx (c : Surroundings) (ctx : DecodeContext) : DecodeContext :=
  { ctx with awaitingFrontendSsl := c.ssl ctx.awaitingFrontendSsl }

def Surroundings.dir (c : Surroundings) (d : Direction) : Direction :=
  { d with
    nextSeq := c.nextSeq, ooo := c.ooo, client := c.client d.client, ctx := c.ctx d.ctx
    rxbuf := d.rxbuf ++ c.behind }

def Surroundings.outcome (c : Surroundings) (o : DrainOutcome) : DrainOutcome :=
  { o with msgs := c.msgs + o.msgs, bytes := c.bytes + o.bytes }

/-- The same event, of a connection of another client. -/
def Event.relabel (client : SocketAddr → SocketAddr) : Event → Event
  | .message emitter body wire => .message { emitter with client := client emitter.client } body wire
  | e => e

theorem relabel_id : Event.relabel id = id := by
  funext e
  cases e <;> rfl

def Surroundings.handled (c : Surroundings) (h : Handled) : Handled :=
  ⟨c.dir h.dir, c.outcome h.outcome, h.events.map (Event.relabel c.client), h.more⟩

/-- The same state of a drain in other surroundings. -/
def Surroundings.carry (c : Surroundings) (s : Draining) : Draining :=
  ⟨c.dir s.dir, c.outcome s.outcome, c.events ++ s.events.map (Event.relabel c.client)⟩

theorem Surroundings.outcome_count (c : Surroundings) (o : DrainOutcome) (n : ℕ) :
    (c.outcome o).count n = c.outcome (o.count n) := by
  simp [Surroundings.outcome, DrainOutcome.count, Nat.add_assoc]

/-- pgwire decodes a side's messages alike in these surroundings. -/
def Surroundings.Unseen (c : Surroundings) (pg : Decoder) : Role → Prop
  | .client => c.ssl = id
  | .server => ∀ buf ctx, pg.decodeBackend buf (c.ctx ctx) = pg.decodeBackend buf ctx

theorem Surroundings.ctx_of_id {c : Surroundings} (h : c.ssl = id) (ctx : DecodeContext) :
    c.ctx ctx = ctx := by
  rw [Surroundings.ctx, h]
  rfl

theorem unseen_of_id (pg : Decoder) {c : Surroundings} (h : c.ssl = id) (role : Role) :
    c.Unseen pg role := by
  cases role with
  | client => exact h
  | server => exact fun buf ctx => by rw [c.ctx_of_id h]

theorem handleFrontend_carried {c : Surroundings} (hssl : c.ssl = id) (d : Direction)
    (m : FrontendMessage) (o : DrainOutcome) (n : ℕ) :
    handleFrontend (c.dir d) m (c.outcome o) n = c.handled (handleFrontend d m o n) := by
  obtain ⟨nextSeq, ooo, client, ssl, behind, msgs, bytes, events⟩ := c
  subst hssl
  cases m with
  | sslNegotiation request =>
    cases request <;> simp only [handleFrontend, Surroundings.outcome_count] <;> rfl
  | _ =>
    simp only [handleFrontend, Surroundings.outcome_count]
    rfl

theorem handleBackend_carried (pg : Decoder) (c : Surroundings) (d : Direction) (m : BackendMessage)
    (o : DrainOutcome) (n : ℕ) :
    handleBackend pg (c.dir d) m (c.outcome o) n = c.handled (handleBackend pg d m o n) := by
  cases m with
  | dataRow r =>
    have hdesc : (c.dir d).rowDesc = d.rowDesc := rfl
    simp only [handleBackend, c.outcome_count, hdesc]
    split <;> rfl
  | sslResponse answer =>
    cases answer <;> simp only [handleBackend, c.outcome_count] <;> rfl
  | gssEncResponse answer =>
    cases answer <;> simp only [handleBackend, c.outcome_count] <;> rfl
  | _ =>
    simp only [handleBackend, c.outcome_count]
    rfl

theorem next_carried (c : Surroundings) (h : Handled) (events : List Event) :
    (c.handled h).next (c.events ++ events.map (Event.relabel c.client))
      = (h.next events).map c.carry c.carry := by
  have hmore : (c.handled h).more = h.more := rfl
  rw [Handled.next, Handled.next, hmore]
  cases h.more <;>
    simp [Surroundings.carry, Surroundings.handled, List.append_assoc]

/-- A turn is the same turn in other surroundings; with bytes behind it if what it decodes is not changed by
them. -/
theorem drainTurn_carried {M : Type} {role : Role} {decode : Bytes → DecodeContext → Decoded M}
    {handle : Direction → M → DrainOutcome → ℕ → Handled} (c : Surroundings)
    (hunseen : ∀ buf ctx, decode buf (c.ctx ctx) = decode buf ctx)
    (hhandle : ∀ d m o n, handle (c.dir d) m (c.outcome o) n = c.handled (handle d m o n))
    (s : Draining)
    (hsteady : c.behind = [] ∨ ∀ m rest, decode s.dir.rxbuf s.dir.ctx = (.ok (some m), rest) →
      ∀ more, decode (s.dir.rxbuf ++ more) s.dir.ctx = (.ok (some m), rest ++ more)) :
    (∀ t, drainTurn role decode handle s = .inl t →
        drainTurn role decode handle (c.carry s) = .inl (c.carry t)) ∧
      (c.behind = [] → ∀ r, drainTurn role decode handle s = .inr r →
        drainTurn role decode handle (c.carry s) = .inr (c.carry r)) := by
  have hbuf : (c.carry s).dir.rxbuf = s.dir.rxbuf ++ c.behind := rfl
  have hctx : decode (c.carry s).dir.rxbuf (c.carry s).dir.ctx
      = decode (s.dir.rxbuf ++ c.behind) s.dir.ctx := hunseen _ _
  have happend : ∀ m rest, decode s.dir.rxbuf s.dir.ctx = (.ok (some m), rest) →
      decode (s.dir.rxbuf ++ c.behind) s.dir.ctx = (.ok (some m), rest ++ c.behind) := by
    intro m rest hdec
    rcases hsteady with hnil | hsteady
    · rw [hnil, List.append_nil, List.append_nil, hdec]
    · exact hsteady m rest hdec c.behind
  cases hdec : decode s.dir.rxbuf s.dir.ctx with
  | mk result rest =>
  rcases result with e | _ | m
  · rw [drainTurn_error hdec]
    refine ⟨fun t ht => absurd ht Sum.inr_ne_inl, ?_⟩
    intro hb r hr
    obtain rfl := Sum.inr.inj hr
    rw [drainTurn_error (hctx.trans (by rw [hb, List.append_nil, hdec]))]
    simp [Surroundings.carry, Surroundings.dir, decodeError, Event.relabel, hb]
  · rw [drainTurn_none hdec]
    refine ⟨fun t ht => absurd ht Sum.inr_ne_inl, ?_⟩
    intro hb r hr
    obtain rfl := Sum.inr.inj hr
    rw [drainTurn_none (hctx.trans (by rw [hb, List.append_nil, hdec]))]
    simp [Surroundings.carry, Surroundings.dir, hb]
  · have hdec' : decode (c.carry s).dir.rxbuf (c.carry s).dir.ctx
        = (.ok (some m), rest ++ c.behind) := hctx.trans (happend m rest hdec)
    have hlen : (c.carry s).dir.rxbuf.length - (rest ++ c.behind).length
        = s.dir.rxbuf.length - rest.length := by
      rw [hbuf, List.length_append, List.length_append]
      omega
    have hturn : drainTurn role decode handle (c.carry s)
        = (drainTurn role decode handle s).map c.carry c.carry := by
      rw [drainTurn_some hdec, drainTurn_some hdec', hlen, ← next_carried]
      exact congrArg (Handled.next · _) (hhandle { s.dir with rxbuf := rest } m s.outcome _)
    rw [hturn]
    exact ⟨fun t ht => by rw [ht]; rfl, fun _ r hr => by rw [hr]; rfl⟩

/-- What pgwire decodes from this side's buffer is not changed by bytes behind it. -/
def Steady (pg : Decoder) : Role → Direction → Prop
  | .client, d => ∀ m rest, pg.decodeFrontend d.rxbuf d.ctx = (.ok (some m), rest) →
      ∀ more, pg.decodeFrontend (d.rxbuf ++ more) d.ctx = (.ok (some m), rest ++ more)
  | .server, d => ∀ m rest, pg.decodeBackend d.rxbuf d.ctx = (.ok (some m), rest) →
      ∀ more, pg.decodeBackend (d.rxbuf ++ more) d.ctx = (.ok (some m), rest ++ more)

theorem roleTurn_carried {pg : Decoder} {role : Role} {c : Surroundings} (hunseen : c.Unseen pg role)
    {s : Draining} (hbehind : c.behind = [] ∨ Steady pg role s.dir) :
    (∀ t, roleTurn pg role s = .inl t → roleTurn pg role (c.carry s) = .inl (c.carry t)) ∧
      (c.behind = [] → ∀ r, roleTurn pg role s = .inr r →
        roleTurn pg role (c.carry s) = .inr (c.carry r)) := by
  cases role with
  | client =>
    exact drainTurn_carried c (fun buf ctx => by rw [c.ctx_of_id hunseen]) (handleFrontend_carried hunseen) s
      hbehind
  | server => exact drainTurn_carried c hunseen (handleBackend_carried pg c) s hbehind

/-- **A drain is the same drain in other surroundings**, as long as nothing new lies behind the bytes. -/
theorem ends_carried {pg : Decoder} {role : Role} {c : Surroundings} (hunseen : c.Unseen pg role)
    (hb : c.behind = []) {s r : Draining} (h : Ends (roleTurn pg role) s r) :
    Ends (roleTurn pg role) (c.carry s) (c.carry r) :=
  h.map (fun _ t => (roleTurn_carried hunseen (.inl hb)).1 t)
    (fun _ r => (roleTurn_carried hunseen (.inl hb)).2 hb r)

/-- A turn that comes round, and does so whatever lies behind the bytes. -/
def SteadyTurns (pg : Decoder) (role : Role) (s t : Draining) : Prop :=
  Turns (roleTurn pg role) s t ∧ Steady pg role s.dir

theorem SteadyTurns.turns {pg : Decoder} {role : Role} {s t : Draining}
    (h : ReflTransGen (SteadyTurns pg role) s t) : ReflTransGen (Turns (roleTurn pg role)) s t :=
  h.lift id fun _ _ hturn => hturn.1

/-- Such turns are made with more bytes behind. -/
theorem turns_carried {pg : Decoder} {role : Role} {c : Surroundings} (hunseen : c.Unseen pg role)
    {s t : Draining} (h : ReflTransGen (SteadyTurns pg role) s t) :
    ReflTransGen (Turns (roleTurn pg role)) (c.carry s) (c.carry t) :=
  h.lift c.carry fun _ t hturn => (roleTurn_carried hunseen (.inr hturn.2)).1 t hturn.1

/-! ### One drain of the whole -/

/-- One drain of the bytes `S`, with a fresh outcome. -/
def whole (pg : Decoder) (d : Direction) (S : Bytes) : Draining :=
  drainDirection pg { d with rxbuf := S } {}

/-- Draining `S` goes on until pgwire asks for more bytes, and nothing stops it before. -/
structure DriesUp (pg : Decoder) (d : Direction) (S : Bytes) : Prop where
  turns : ReflTransGen (SteadyTurns pg d.role) ⟨{ d with rxbuf := S }, {}, []⟩ (whole pg d S)
  quiet : Quiet pg (whole pg d S).dir
  clear : (whole pg d S).outcome.encrypted = false
  unarmed : (whole pg d S).outcome.serverNegotiationWait = .none

/-- A stream of which no beginning makes a drain stop or fail. -/
def Smooth (pg : Decoder) (d : Direction) (S : Bytes) : Prop := ∀ P, P <+: S → DriesUp pg d P

theorem roleTurn_quiet {pg : Decoder} (hpg : pg.Consumes) {s : Draining} (h : Quiet pg s.dir) :
    roleTurn pg s.dir.role s = .inr s := by
  have hspec := turn_spec hpg s
  generalize roleTurn pg s.dir.role s = r at hspec
  cases hspec with
  | idle _ => rfl
  | peek _ _ loud => exact absurd h loud
  | message _ _ _ _ loud _ _ _ _ => exact absurd h loud
  | error _ _ loud => exact absurd h loud

/-- A decode error. -/
def Event.isDecodeError : Event → Bool
  | .decodeError _ _ _ _ => true
  | _ => false

/-- Turns that come round keep the side, and report no error. -/
theorem turns_spec {pg : Decoder} (hpg : pg.Consumes) {role : Role} {s t : Draining}
    (h : ReflTransGen (Turns (roleTurn pg role)) s t) (hs : s.dir.role = role) :
    t.dir.role = role ∧ ∀ e ∈ t.events, e ∈ s.events ∨ e.isDecodeError = false := by
  induction h with
  | refl => exact ⟨hs, fun e he => .inl he⟩
  | @tail b c _ hturn ih =>
    obtain ⟨hrole, hevents⟩ := ih
    have hspec := turn_spec hpg b
    rw [hrole] at hspec
    rw [Turns] at hturn
    rw [hturn] at hspec
    generalize hr : (Sum.inl c : Draining ⊕ Draining) = r at hspec
    cases hspec with
    | idle _ => cases hr
    | peek _ _ _ =>
      cases hr
      exact ⟨hrole, hevents⟩
    | message wire rest body h _ _ _ one _ =>
      split at hr
      · cases hr
        refine ⟨one.role.trans hrole, ?_⟩
        intro e he
        rw [List.mem_append, one.events, List.mem_singleton] at he
        rcases he with he | rfl
        · exact hevents e he
        · exact .inr rfl
      · cases hr
    | error _ _ _ => cases hr

/-- Where turns lead to a state in which pgwire finds nothing, the drain ends there. -/
theorem whole_eq {pg : Decoder} (hpg : pg.Consumes) {d : Direction} {S : Bytes} {r : Draining}
    (h : ReflTransGen (Turns (roleTurn pg d.role)) ⟨{ d with rxbuf := S }, {}, []⟩ r)
    (hquiet : Quiet pg r.dir) : whole pg d S = r := by
  have hexit := roleTurn_quiet hpg hquiet
  rw [(turns_spec hpg h rfl).1] at hexit
  exact (drainDirection_ends hpg { d with rxbuf := S }).unique (.of_turns h (.exit hexit))

theorem driesUp_of_turns {pg : Decoder} (hpg : pg.Consumes) {d : Direction} {S : Bytes} {r : Draining}
    (h : ReflTransGen (SteadyTurns pg d.role) ⟨{ d with rxbuf := S }, {}, []⟩ r)
    (hquiet : Quiet pg r.dir) (hclear : r.outcome.encrypted = false)
    (hunarmed : r.outcome.serverNegotiationWait = .none) : DriesUp pg d S := by
  have heq := whole_eq hpg (SteadyTurns.turns h) hquiet
  exact ⟨heq ▸ h, heq ▸ hquiet, heq ▸ hclear, heq ▸ hunarmed⟩

/-- A drain that dries up has reported no error. -/
theorem DriesUp.clean {pg : Decoder} (hpg : pg.Consumes) {d : Direction} {S : Bytes}
    (h : DriesUp pg d S) : ∀ e ∈ (whole pg d S).events, e.isDecodeError = false := by
  intro e he
  rcases (turns_spec hpg (SteadyTurns.turns h.turns) rfl).2 e he with hnil | hclean
  · cases hnil
  · exact hclean

theorem driesUp_of_quiet {pg : Decoder} (hpg : pg.Consumes) {d : Direction} {S : Bytes}
    (h : Quiet pg { d with rxbuf := S }) : DriesUp pg d S :=
  driesUp_of_turns hpg .refl h rfl rfl

theorem whole_of_quiet {pg : Decoder} (hpg : pg.Consumes) {d : Direction} {S : Bytes}
    (h : Quiet pg { d with rxbuf := S }) : whole pg d S = ⟨{ d with rxbuf := S }, {}, []⟩ :=
  whole_eq hpg .refl h

/-! ### One piece -/

/-- The direction after the bytes `P` dried up, with `c` appended; the flow state may have moved on
meanwhile. -/
def resumed (pg : Decoder) (d : Direction) (P c : Bytes) (nextSeq : Option (BitVec 32)) : Direction :=
  { (whole pg d P).dir with nextSeq := nextSeq, rxbuf := (whole pg d P).dir.rxbuf ++ c }

/-- **A drain of one more piece** does the rest of one drain of both. -/
theorem whole_append {pg : Decoder} (hpg : pg.Consumes) {d : Direction} {P : Bytes}
    (h : DriesUp pg d P) (c : Bytes) (nextSeq : Option (BitVec 32)) :
    (drainDirection pg (resumed pg d P c nextSeq) {}).dir
        = { (whole pg d (P ++ c)).dir with nextSeq := nextSeq } ∧
      (drainDirection pg (resumed pg d P c nextSeq) {}).outcome.encrypted
        = (whole pg d (P ++ c)).outcome.encrypted ∧
      (drainDirection pg (resumed pg d P c nextSeq) {}).outcome.serverNegotiationWait
        = (whole pg d (P ++ c)).outcome.serverNegotiationWait ∧
      (whole pg d (P ++ c)).events
        = (whole pg d P).events ++ (drainDirection pg (resumed pg d P c nextSeq) {}).events := by
  obtain ⟨hturns, _, hclear, hunarmed⟩ := h
  have hacc : Accounted { d with rxbuf := P } (whole pg d P) := drain_account hpg _
  have hnext : (whole pg d P).dir.nextSeq = d.nextSeq := hacc.nextSeq
  have hooo : (whole pg d P).dir.ooo = d.ooo := hacc.ooo
  rw [resumed]
  generalize whole pg d P = s at *
  set later : Direction := { s.dir with nextSeq := nextSeq, rxbuf := s.dir.rxbuf ++ c }
  set t := drainDirection pg later {}
  have hrole : later.role = d.role := hacc.role
  -- the drain of `P`, with `c` behind it from the start
  let behind : Surroundings := ⟨d.nextSeq, d.ooo, id, id, c, 0, 0, []⟩
  have hfirst := turns_carried (unseen_of_id pg (c := behind) rfl d.role) hturns
  -- the drain of the piece, with what was counted and emitted before
  let before : Surroundings :=
    ⟨d.nextSeq, d.ooo, id, id, [], s.outcome.msgs, s.outcome.bytes, s.events⟩
  have hthen : Ends (roleTurn pg d.role) (before.carry ⟨later, {}, []⟩) (before.carry t) :=
    ends_carried (unseen_of_id pg rfl d.role) rfl (hrole ▸ drainDirection_ends hpg later)
  have hmid : behind.carry s = before.carry ⟨later, {}, []⟩ := by
    obtain ⟨sd, ⟨wait, enc, msgs, bytes⟩, es⟩ := s
    simp only at hclear hunarmed hnext hooo
    subst hclear hunarmed
    simp [Surroundings.carry, Surroundings.dir, Surroundings.outcome, Surroundings.ctx, behind, before,
      later, relabel_id]
  have hstart : behind.carry ⟨{ d with rxbuf := P }, {}, []⟩ = ⟨{ d with rxbuf := P ++ c }, {}, []⟩ := rfl
  rw [hstart, hmid] at hfirst
  have hwhole : whole pg d (P ++ c) = before.carry t :=
    (drainDirection_ends hpg { d with rxbuf := P ++ c }).unique (.of_turns hfirst hthen)
  have htnext : t.dir.nextSeq = nextSeq := (drain_account hpg later).nextSeq
  have htooo : t.dir.ooo = d.ooo := (drain_account hpg later).ooo.trans hooo
  refine ⟨?_, ?_, ?_, ?_⟩
  · rw [hwhole]
    simp [Surroundings.carry, Surroundings.dir, Surroundings.ctx, before, ← htnext, ← htooo]
  · rw [hwhole]
    rfl
  · rw [hwhole]
    rfl
  · rw [hwhole]
    simp [Surroundings.carry, before, relabel_id]

/-! ### The report of a drain -/

/-- The (kind, text, detail) of an event that is a record of this side. -/
def Event.recordOf (role : Role) : Event → Option (String × String × Option EventDetail)
  | .message emitter body _ => if emitter.role = role then some body.record else none
  | _ => none

/-- The records of one side, in order. -/
def recordsOf (role : Role) (es : List Event) : List (String × String × Option EventDetail) :=
  es.filterMap (Event.recordOf role)

@[simp] theorem recordsOf_append (role : Role) (es fs : List Event) :
    recordsOf role (es ++ fs) = recordsOf role es ++ recordsOf role fs := List.filterMap_append

/-- What is reported of one side's bytes: the records, the last row description, and the counts. -/
structure Report where
  records : List (String × String × Option EventDetail)
  rowDesc : Option (List FieldSummary)
  msgs : ℕ
  bytes : ℕ

def Draining.report (s : Draining) : Report :=
  ⟨recordsOf s.dir.role s.events, s.dir.rowDesc, s.outcome.msgs, s.outcome.bytes⟩

theorem recordsOf_relabel (role : Role) (client : SocketAddr → SocketAddr) (es : List Event) :
    recordsOf role (es.map (Event.relabel client)) = recordsOf role es := by
  rw [recordsOf, recordsOf, List.filterMap_map]
  congr 1
  funext e
  cases e <;> rfl

/-- Two directions of one side decode alike: only the flow state, the client's address and, on the
server's side, a flag of the frontend may differ. -/
structure Alike (d d' : Direction) : Prop where
  role : d'.role = d.role
  rowDesc : d'.rowDesc = d.rowDesc
  ctx : d'.ctx = { d.ctx with awaitingFrontendSsl := d'.ctx.awaitingFrontendSsl }
  client : d.role = .client → d'.ctx = d.ctx

/-- **Where a stream is decoded does not change its report.** -/
theorem report_alike {pg : Decoder} (hpg : pg.Consumes) (hneg : pg.Negotiates)
    {d d' : Direction} (h : Alike d d') (S : Bytes) :
    (whole pg d' S).report = (whole pg d S).report := by
  obtain ⟨ssl, hssl, hunseen⟩ : ∃ ssl : Bool → Bool,
      d'.ctx = { d.ctx with awaitingFrontendSsl := ssl d.ctx.awaitingFrontendSsl } ∧
        (d.role = .client → ssl = id) := by
    cases hrole : d.role with
    | client => exact ⟨id, h.client hrole, fun _ => rfl⟩
    | server => exact ⟨fun _ => d'.ctx.awaitingFrontendSsl, h.ctx, nofun⟩
  let c : Surroundings := ⟨d'.nextSeq, d'.ooo, fun _ => d'.client, ssl, [], 0, 0, []⟩
  have hc : c.Unseen pg d.role := by
    cases hrole : d.role with
    | client => exact hunseen hrole
    | server => exact fun buf ctx => hneg.backendFlags buf _ _ rfl rfl
  have hstart : (⟨{ d' with rxbuf := S }, {}, []⟩ : Draining) = c.carry ⟨{ d with rxbuf := S }, {}, []⟩ := by
    simp [Surroundings.carry, Surroundings.dir, Surroundings.outcome, Surroundings.ctx, c, h.role,
      h.rowDesc, ← hssl]
  have hends := ends_carried hc rfl (drainDirection_ends hpg { d with rxbuf := S })
  rw [← hstart, show roleTurn pg d.role = roleTurn pg d'.role from by rw [h.role]] at hends
  have hwhole : whole pg d' S = c.carry (whole pg d S) :=
    (drainDirection_ends hpg { d' with rxbuf := S }).unique hends
  rw [hwhole]
  simp [Draining.report, Surroundings.carry, Surroundings.dir, Surroundings.outcome, c, recordsOf_relabel]

end Tapgres.Decode
