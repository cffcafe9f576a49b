import Tapgres.Flow.InOrder
import Tapgres.Flow.Separation

/-!
# Reusing a 4-tuple

An entry is opened afresh by a SYN only once its FIN was seen.  Until then a SYN is one more segment of
the old connection, and what follows is handled by what the old connection has left behind.

* `matching_handle` — two entries that differ only in where the next bytes are expected handle a segment
  alike, and where a SYN comes first even that is forgotten;
* `matching_run` — so what is heard of the one is what the other prints, over all segments to come;
* `reuse_afresh` — hence a new connection on a 4-tuple is reported as by a fresh table, if its entry was
  closed or nothing is left of the old connection;
* `reuse_unclosed` — a new connection that is not.
-/

namespace Tapgres.Flow

open Tapgres.Net Tapgres.Pgwire Tapgres.Decode Tapgres.State Tapgres.Lib.Run Tapgres.Lib.Interleave

/-! ### Entries that differ in `next_seq` -/

/-- Of the segments of a side, the first that is a SYN or carries data is a SYN. -/
def SynFirst (pgPort : UInt16) (role : Role) (segs : List TcpSegment) : Bool :=
  (segs.find? fun seg => segmentRole seg pgPort = role ∧ (seg.syn ∨ seg.payload ≠ [])).all TcpSegment.syn

/-- The entries differ at most in their handles and in where a side's next bytes are expected, and the
latter only where a SYN is to say it. -/
structure Matching (pgPort : UInt16) (segs : List TcpSegment) (conn conn' : Connection) : Prop where
  alike : conn'.forget = conn.forget.renumber conn'.stats
  expects : conn.encrypted = false → ∀ role,
    (conn'.dir role).nextSeq = (conn.dir role).nextSeq ∨ SynFirst pgPort role segs

theorem synFirst_cons_other {pgPort : UInt16} {role : Role} {seg : TcpSegment}
    (hrole : role ≠ segmentRole seg pgPort) (segs : List TcpSegment) :
    SynFirst pgPort role (seg :: segs) = SynFirst pgPort role segs := by
  rw [SynFirst, SynFirst, List.find?_cons_of_neg]
  simp [Ne.symm hrole]

theorem synFirst_cons_empty {pgPort : UInt16} {seg : TcpSegment} (hsyn : seg.syn = false)
    (hempty : seg.payload = []) (role : Role) (segs : List TcpSegment) :
    SynFirst pgPort role (seg :: segs) = SynFirst pgPort role segs := by
  rw [SynFirst, SynFirst, List.find?_cons_of_neg]
  simp [hsyn, hempty]

/-- Data does not come first. -/
theorem synFirst_cons_data {pgPort : UInt16} {seg : TcpSegment} (hsyn : seg.syn = false)
    (hdata : seg.payload ≠ []) (segs : List TcpSegment) :
    SynFirst pgPort (segmentRole seg pgPort) (seg :: segs) = false := by
  rw [SynFirst, List.find?_cons_of_pos (by simp [hdata])]
  exact hsyn

theorem synFirst_cons_syn {seg : TcpSegment} (hsyn : seg.syn = true) (pgPort : UInt16)
    (segs : List TcpSegment) : SynFirst pgPort (segmentRole seg pgPort) (seg :: segs) = true := by
  rw [SynFirst, List.find?_cons_of_pos (by simp [hsyn])]
  exact hsyn

theorem forget_eq {d d' : Direction} (h : Direction.forget d' = Direction.forget d)
    (hnext : d'.nextSeq = d.nextSeq) : d' = d := by
  obtain ⟨role, client, next, ooo, rxbuf, ctx, rowDesc⟩ := d
  obtain ⟨role', client', next', ooo', rxbuf', ctx', rowDesc'⟩ := d'
  cases h
  cases hnext
  rfl

/-- A SYN overwrites where the next bytes are expected. -/
theorem feed_syn_forget {d d' : Direction} (h : Direction.forget d' = Direction.forget d)
    (seq : BitVec 32) (data : Bytes) : d'.feed seq true data = d.feed seq true data := by
  have hset : { d' with nextSeq := some (seq + 1) } = { d with nextSeq := some (seq + 1) } :=
    congrArg (fun x => { x with nextSeq := some (seq + 1) }) h
  rw [Direction.feed, Direction.feed, if_pos rfl, if_pos rfl, hset]

theorem feed_matching {pgPort : UInt16} {seg : TcpSegment} {segs : List TcpSegment} {d d' : Direction}
    (hforget : Direction.forget d' = Direction.forget d)
    (hnext : d'.nextSeq = d.nextSeq ∨ SynFirst pgPort (segmentRole seg pgPort) (seg :: segs)) :
    Direction.forget (d'.feed seg.seq seg.syn seg.payload)
        = Direction.forget (d.feed seg.seq seg.syn seg.payload) ∧
      ((d'.feed seg.seq seg.syn seg.payload).nextSeq = (d.feed seg.seq seg.syn seg.payload).nextSeq ∨
        SynFirst pgPort (segmentRole seg pgPort) segs) := by
  rcases hnext with hnext | hfirst
  · rw [forget_eq hforget hnext]
    exact ⟨rfl, .inl rfl⟩
  · cases hsyn : seg.syn with
    | true =>
      rw [feed_syn_forget hforget]
      exact ⟨rfl, .inl rfl⟩
    | false =>
      by_cases hdata : seg.payload = []
      · have hsame : ∀ d : Direction, d.feed seg.seq false seg.payload = d := by
          intro d
          rw [hdata]
          rfl
        rw [synFirst_cons_empty hsyn hdata] at hfirst
        rw [hsame, hsame]
        exact ⟨hforget, .inr hfirst⟩
      · rw [synFirst_cons_data hsyn hdata] at hfirst
        cases hfirst

/-- Two drains that start alike say the same and end alike. -/
theorem drain_matching {pg : Decoder} (hpg : pg.Consumes) {d d' : Direction}
    (hforget : Direction.forget d' = Direction.forget d) :
    { drainDirection pg d' {} with dir := Direction.forget (drainDirection pg d' {}).dir }
      = { drainDirection pg d {} with dir := Direction.forget (drainDirection pg d {}).dir } := by
  rw [← drain_forget hpg, ← drain_forget hpg, hforget]

theorem settle_forgotten (conn : Connection) (role : Role) (drained : Draining) (m : Metrics) :
    (conn.settle role drained m).1.forget
      = (conn.forget.settle role { drained with dir := Direction.forget drained.dir } m).1 := by
  rw [settle_forget]

theorem renumber_settle (conn : Connection) (id : ConnId) (role : Role) (drained : Draining)
    (m m' : Metrics) :
    ((conn.renumber id).settle role drained m').1 = (conn.settle role drained m).1.renumber id := by
  unfold Connection.settle
  cases role <;> cases drained.outcome.encrypted <;> rfl

/-- **One segment, two matching entries**: it is handled alike, and they match for the segments after. -/
theorem matching_handle {pg : Decoder} (hpg : pg.Consumes) {pgPort : UInt16} {seg : TcpSegment}
    {segs : List TcpSegment} {conn conn' : Connection} (h : Matching pgPort (seg :: segs) conn conn')
    (m m' : Metrics) :
    Matching pgPort segs (conn.handle pg pgPort m seg).1 (conn'.handle pg pgPort m' seg).1 ∧
      (conn'.handle pg pgPort m' seg).2.2 = (conn.handle pg pgPort m seg).2.2 := by
  have hsame : conn'.encrypted = conn.encrypted := by
    have := congrArg Connection.encrypted h.alike
    exact this
  cases henc : conn.encrypted with
  | true =>
    rw [handle_encrypted pg pgPort m seg henc, handle_encrypted pg pgPort m' seg (hsame.trans henc)]
    exact ⟨⟨h.alike, fun hopen => absurd (henc.symm.trans hopen) (by decide)⟩, rfl⟩
  | false =>
    have henc' := hsame.trans henc
    have hdir : ∀ role, Direction.forget (conn'.dir role) = Direction.forget (conn.dir role) := by
      intro role
      rw [← forget_dir, ← forget_dir, h.alike]
      cases role <;> rfl
    obtain ⟨hfed, hnext⟩ := feed_matching (hdir _) (h.expects henc (segmentRole seg pgPort))
    have hdrained := drain_matching hpg hfed
    refine ⟨⟨?_, fun _ role => ?_⟩, ?_⟩
    · have hsettled := congrArg (fun x => (conn'.forget.settle (segmentRole seg pgPort) x m').1) hdrained
      rw [(handle_kept pg pgPort conn' m' seg).1, handle_settle pg pgPort m seg henc,
        handle_settle pg pgPort m' seg henc', settle_forgotten, settle_forgotten,
        ← renumber_settle _ _ _ _ m m', ← h.alike]
      exact hsettled
    · rw [(handle_flow hpg pgPort m seg henc role).1,
        (handle_flow hpg pgPort m' seg henc' role).1]
      by_cases hrole : role = segmentRole seg pgPort
      · subst hrole
        rw [if_pos rfl, if_pos rfl]
        exact hnext
      · rw [if_neg hrole, if_neg hrole, ← synFirst_cons_other hrole]
        exact h.expects henc role
    · have hevents := congrArg Draining.events hdrained
      rw [(handle_frame pg pgPort conn m seg henc).2.2.2, (handle_frame pg pgPort conn' m' seg henc').2.2.2]
      exact hevents

/-! ### Tables with matching entries -/

theorem matching_new (pgPort : UInt16) (segs : List TcpSegment) (id id' : ConnId) (client : SocketAddr) :
    Matching pgPort segs (Connection.new id client) (Connection.new id' client) := by
  refine ⟨rfl, fun _ role => .inl ?_⟩
  cases role <;> rfl

/-- **One segment, two tables** whose entries match once it is admitted. -/
theorem matching_settled {pg : Decoder} (hpg : pg.Consumes) {pgPort : UInt16} {t t' : ConnTable}
    {seg : TcpSegment} {segs : List TcpSegment} {key : ConnKey} (hkey : connKey seg pgPort = some key)
    {conn conn' : Connection} (hconn : (t.admitSegment key pgPort seg).1.map.lookup key = some conn)
    (hconn' : (t'.admitSegment key pgPort seg).1.map.lookup key = some conn')
    (h : Matching pgPort (seg :: segs) conn conn') :
    Option.Rel (Matching pgPort segs) ((t.handle pg pgPort seg).1.map.lookup key)
        ((t'.handle pg pgPort seg).1.map.lookup key) ∧
      ∃ events, (t.handle pg pgPort seg).2 = (t.admitSegment key pgPort seg).2 ++ events ∧
        (t'.handle pg pgPort seg).2 = (t'.admitSegment key pgPort seg).2 ++ events := by
  obtain ⟨hentry, hevents, _⟩ := table_handle_own pg t hkey hconn
  obtain ⟨hentry', hevents', _⟩ := table_handle_own pg t' hkey hconn'
  obtain ⟨hmatch, hsaid⟩ := matching_handle hpg h (t.admitSegment key pgPort seg).1.metrics
    (t'.admitSegment key pgPort seg).1.metrics
  have hmark : conn'.metricsClosed = conn.metricsClosed := by
    have := congrArg Connection.metricsClosed h.alike
    exact this
  rw [hsaid, hmark, List.append_assoc] at hevents'
  rw [List.append_assoc] at hevents
  refine ⟨?_, _, hevents, hevents'⟩
  rw [hentry, hentry', Connection.settled, Connection.settled]
  split
  · exact .none
  · refine .some ⟨?_, hmatch.expects⟩
    exact congrArg (fun c : Connection => { c with metricsClosed := c.metricsClosed || seg.fin }) hmatch.alike

theorem rel_cases {α β : Type} {r : α → β → Prop} {a : Option α} {b : Option β} (h : Option.Rel r a b) :
    (a = none ∧ b = none) ∨ ∃ x y, a = some x ∧ b = some y ∧ r x y := by
  cases h with
  | none => exact .inl ⟨rfl, rfl⟩
  | some hr => exact .inr ⟨_, _, rfl, rfl, hr⟩

/-- Where entries match, both tables open an entry or neither does. -/
theorem matching_admitted {pgPort : UInt16} {t t' : ConnTable} (seg : TcpSegment)
    {segs : List TcpSegment} {key : ConnKey}
    (h : Option.Rel (Matching pgPort segs) (t.map.lookup key) (t'.map.lookup key)) :
    (∃ conn conn', (t.admitSegment key pgPort seg).1.map.lookup key = some conn ∧
      (t'.admitSegment key pgPort seg).1.map.lookup key = some conn' ∧ Matching pgPort segs conn conn') ∧
      (t'.admitSegment key pgPort seg).2 = (t.admitSegment key pgPort seg).2 := by
  rw [ConnTable.admitSegment, ConnTable.admitSegment, ConnTable.shouldOpen, ConnTable.shouldOpen]
  rcases rel_cases h with ⟨hnone, hnone'⟩ | ⟨conn, conn', hconn, hconn', hmatch⟩
  · rw [hnone, hnone']
    exact ⟨⟨_, _, openEntry_lookup _ _, openEntry_lookup _ _, matching_new _ _ _ _ _⟩, rfl⟩
  · have hmark : conn'.metricsClosed = conn.metricsClosed := by
      have := congrArg Connection.metricsClosed hmatch.alike
      exact this
    rw [hconn, hconn']
    simp only [hmark]
    split
    · exact ⟨⟨_, _, openEntry_lookup _ _, openEntry_lookup _ _, matching_new _ _ _ _ _⟩, rfl⟩
    · exact ⟨⟨conn, conn', hconn, hconn', hmatch⟩, rfl⟩

/-- **The segments to come**, whatever else the one table sees between them. -/
theorem matching_run {pg : Decoder} (hpg : pg.Consumes) {pgPort : UInt16} {key : ConnKey} {t t' : ConnTable}
    {segs : List TcpSegment}
    (h : Option.Rel (Matching pgPort (segs.filter (labelled (fun seg => connKey seg pgPort) key)))
      (t.map.lookup key) (t'.map.lookup key)) :
    (run (heard (ConnTable.handle pg pgPort) (labelled (fun seg => connKey seg pgPort) key)) t segs).2
      = (run (ConnTable.handle pg pgPort) t'
          (segs.filter (labelled (fun seg => connKey seg pgPort) key))).2 := by
  induction segs generalizing t t' with
  | nil => rfl
  | cons seg segs ih =>
    by_cases hkey : connKey seg pgPort = some key
    · have hmine : labelled (fun seg => connKey seg pgPort) key seg = true := decide_eq_true hkey
      rw [List.filter_cons_of_pos hmine] at h ⊢
      obtain ⟨⟨conn, conn', hconn, hconn', hmatch⟩, hopened⟩ := matching_admitted seg h
      obtain ⟨hnext, events, hevents, hevents'⟩ := matching_settled hpg hkey hconn hconn' hmatch
      rw [run_cons, run_cons, heard, if_pos hmine, hevents, hevents', hopened]
      exact congrArg (fun out => (t.admitSegment key pgPort seg).2 ++ events ++ out) (ih hnext)
    · have hmine : ¬labelled (fun seg => connKey seg pgPort) key seg = true :=
        fun hm => hkey (of_decide_eq_true hm)
      rw [List.filter_cons_of_neg hmine] at h ⊢
      rw [run_cons, heard, if_neg hmine]
      apply ih
      rw [table_handle_lookup_ne pg t hkey]
      exact h

/-! ### Whose entry it is -/

/-- Each side of an entry belongs to the connection the entry is filed under. -/
def OwnSides (key : ConnKey) (conn : Connection) : Prop :=
  ∀ role, (conn.dir role).role = role ∧ (conn.dir role).client = socketAddr key.client

theorem ownSides_new (key : ConnKey) (id : ConnId) :
    OwnSides key (Connection.new id (socketAddr key.client)) := by
  intro role
  cases role <;> exact ⟨rfl, rfl⟩

theorem ownSides_handle {pg : Decoder} (hpg : pg.Consumes) (pgPort : UInt16) {key : ConnKey}
    {conn : Connection} (h : OwnSides key conn) (m : Metrics) (seg : TcpSegment) :
    OwnSides key (conn.handle pg pgPort m seg).1 := by
  cases henc : conn.encrypted with
  | true => rwa [handle_encrypted pg pgPort m seg henc]
  | false =>
    intro role
    obtain ⟨ctx, hdir⟩ := handle_dir_frame pg pgPort conn m seg henc role
    have hacc := drain_account hpg (conn.fed pgPort seg)
    obtain ⟨nextSeq, ooo, added, hfed⟩ :=
      feed_frame (conn.dir (segmentRole seg pgPort)) seg.seq seg.syn seg.payload
    rw [hdir]
    split
    · rename_i hrole
      subst hrole
      have hsides := h (segmentRole seg pgPort)
      exact ⟨hacc.role.trans (by rw [Connection.fed, hfed]; exact hsides.1),
        hacc.client.trans (by rw [Connection.fed, hfed]; exact hsides.2)⟩
    · exact h role

theorem ownSides_table {pg : Decoder} (hpg : pg.Consumes) (pgPort : UInt16) {t : ConnTable}
    (h : ∀ key conn, t.map.lookup key = some conn → OwnSides key conn) (seg : TcpSegment) :
    ∀ key conn, (t.handle pg pgPort seg).1.map.lookup key = some conn → OwnSides key conn := by
  intro key conn hconn
  by_cases hkey : connKey seg pgPort = some key
  · obtain ⟨old, hold⟩ := admit_lookup t key pgPort seg
    have hsides : OwnSides key old := by
      rcases admit_cases t key pgPort seg with ⟨_, _, _, hadm⟩ | ⟨_, hadm⟩
      · rw [hadm] at hold
        exact h key old hold
      · rw [hadm, openEntry_lookup] at hold
        obtain rfl := Option.some.inj hold
        exact ownSides_new key _
    rw [(table_handle_own pg t hkey hold).1, Connection.settled] at hconn
    split at hconn
    · cases hconn
    · obtain rfl := Option.some.inj hconn
      have hnext := ownSides_handle hpg pgPort hsides (t.admitSegment key pgPort seg).1.metrics seg
      intro role
      have := hnext role
      cases role <;> exact this
  · rw [table_handle_lookup_ne pg t hkey] at hconn
    exact h key conn hconn

theorem ownSides_run {pg : Decoder} (hpg : pg.Consumes) (pgPort : UInt16) (connectionCap : ℕ)
    (segs : List TcpSegment) {key : ConnKey} {conn : Connection}
    (hconn : (tableRun pg pgPort connectionCap segs).map.lookup key = some conn) : OwnSides key conn :=
  run_invariant (ConnTable.handle pg pgPort)
    (fun _ t _ => ∀ key conn, t.map.lookup key = some conn → OwnSides key conn)
    (fun _ _ h => by cases h) (fun _ _ _ seg h => ownSides_table hpg pgPort h seg) segs key conn hconn

/-! ### A new connection on an old 4-tuple -/

/-- Nothing is left of what an entry has handled: no buffered byte, no decode context, no cached row
description, no encryption. -/
structure NothingLeft (conn : Connection) : Prop where
  unclosed : conn.metricsClosed = false
  plain : conn.encrypted = false
  buffered : ∀ role, (conn.dir role).rxbuf = [] ∧ (conn.dir role).ooo = ∅
  context : ∀ role, (conn.dir role).ctx = {} ∧ (conn.dir role).rowDesc = none

/-- Everything emitted but the line that announces a connection. -/
def unannounced (events : List Event) : List Event :=
  events.filter fun
    | .opened _ _ _ => false
    | _ => true

theorem unannounced_append (es fs : List Event) :
    unannounced (es ++ fs) = unannounced es ++ unannounced fs := List.filter_append ..

theorem matching_nothingLeft {pgPort : UInt16} {key : ConnKey} {conn : Connection} {syn : TcpSegment}
    {segs : List TcpSegment} (hsides : OwnSides key conn) (hleft : NothingLeft conn)
    (hside : segmentRole syn pgPort = .client) (hsyn : syn.syn = true)
    (hserver : conn.server.nextSeq = none ∨ SynFirst pgPort .server segs) (id : ConnId) :
    Matching pgPort (syn :: segs) conn (Connection.new id (socketAddr key.client)) := by
  have hdir : ∀ role, Direction.forget (conn.dir role) = Direction.new role (socketAddr key.client) := by
    intro role
    obtain ⟨hrole, hclient⟩ := hsides role
    obtain ⟨hrxbuf, hooo⟩ := hleft.buffered role
    obtain ⟨hctx, hrowDesc⟩ := hleft.context role
    rw [Direction.forget, Direction.new]
    generalize conn.dir role = d at *
    obtain ⟨_, _, _, _, _, _, _⟩ := d
    simp only at hrole hclient hrxbuf hooo hctx hrowDesc
    rw [hrole, hclient, hrxbuf, hooo, hctx, hrowDesc]
  constructor
  · have hclient := hdir .client
    have hold := hdir .server
    have hplain := hleft.plain
    have hunclosed := hleft.unclosed
    obtain ⟨client, server, encrypted, metricsClosed, stats⟩ := conn
    simp only [Connection.dir] at hclient hold hplain hunclosed
    rw [Connection.forget, Connection.forget, hclient, hold, hplain, hunclosed]
    rfl
  · intro _ role
    cases role with
    | client =>
      right
      rw [← hside]
      exact synFirst_cons_syn hsyn pgPort segs
    | server =>
      rcases hserver with hnone | hfirst
      · exact .inl hnone.symm
      · rw [synFirst_cons_other (by rw [hside]; decide)]
        exact .inr hfirst

/-- The state a new connection finds under its 4-tuple: no entry, one whose FIN was seen, or one with
nothing left in it, whose server side expects no sequence number but the one its next SYN gives. -/
def StartsAfresh (pgPort : UInt16) (t : ConnTable) (key : ConnKey) (segs : List TcpSegment) : Prop :=
  ∀ conn, t.map.lookup key = some conn → conn.metricsClosed = true ∨
    (NothingLeft conn ∧ (conn.server.nextSeq = none ∨ SynFirst pgPort .server segs))

/-- **Reusing a 4-tuple starts afresh**, where the old connection was closed or has left nothing behind:
from the client's SYN on a fresh table reports the same. -/
theorem reuse_afresh {pg : Decoder} (hpg : pg.Consumes) (pgPort : UInt16) (connectionCap : ℕ)
    (before : List TcpSegment) {key : ConnKey} {syn : TcpSegment} (hkey : connKey syn pgPort = some key)
    (hside : segmentRole syn pgPort = .client) (hsyn : syn.syn = true) (after : List TcpSegment)
    (hold : StartsAfresh pgPort (tableRun pg pgPort connectionCap before) key
      (after.filter (labelled (fun seg => connKey seg pgPort) key))) (fresh : Metrics) :
    unannounced (run (heard (ConnTable.handle pg pgPort) (labelled (fun seg => connKey seg pgPort) key))
        (tableRun pg pgPort connectionCap before) (syn :: after)).2
      = unannounced (run (ConnTable.handle pg pgPort) (ConnTable.withMetrics fresh)
          (syn :: after.filter (labelled (fun seg => connKey seg pgPort) key))).2 := by
  have hsides : ∀ conn, (tableRun pg pgPort connectionCap before).map.lookup key = some conn →
      OwnSides key conn := fun _ => ownSides_run hpg pgPort connectionCap before
  generalize tableRun pg pgPort connectionCap before = t at *
  have hmine : labelled (fun seg => connKey seg pgPort) key syn = true := decide_eq_true hkey
  have hopened : (ConnTable.withMetrics fresh).admitSegment key pgPort syn
      = ((ConnTable.withMetrics fresh).openEntry key, [.opened key.client key.server pgPort]) := rfl
  have hadmitted : ∃ conn, (t.admitSegment key pgPort syn).1.map.lookup key = some conn ∧
      Matching pgPort (syn :: after.filter (labelled (fun seg => connKey seg pgPort) key)) conn
        (Connection.new (ConnTable.withMetrics fresh).metrics.nextConnId (socketAddr key.client)) ∧
      unannounced (t.admitSegment key pgPort syn).2 = [] := by
    rcases admit_cases t key pgPort syn with ⟨conn, hconn, hkept, hadm⟩ | ⟨_, hadm⟩
    · rw [hadm]
      rcases hold conn hconn with hclosed | ⟨hleft, hserver⟩
      · exact absurd ⟨hsyn, hclosed⟩ hkept
      · exact ⟨conn, hconn, matching_nothingLeft (hsides conn hconn) hleft hside hsyn hserver _, rfl⟩
    · rw [hadm]
      exact ⟨_, openEntry_lookup t key, matching_new _ _ _ _ _, rfl⟩
  obtain ⟨conn, hconn, hmatch, hsilent⟩ := hadmitted
  have hconn' := openEntry_lookup (ConnTable.withMetrics fresh) key
  obtain ⟨hnext, events, hevents, hevents'⟩ :=
    matching_settled hpg hkey hconn (by rw [hopened]; exact hconn') hmatch
  have hsilent' : unannounced [.opened key.client key.server pgPort] = [] := rfl
  rw [run_cons, run_cons, heard, if_pos hmine, hevents, hevents', matching_run hpg hnext, hopened]
  simp only [unannounced_append, hsilent, hsilent']

/-- A client that starts up and is heard of no more. -/
def abandoned : List TcpSegment :=
  [{ clientSegment 0 [] with syn := true }, clientSegment 1 [0, 0, 0, 9, 0, 3, 0, 0, 0]]

/-- The same client's next connection, from its SYN on. -/
def nextConnection : List TcpSegment :=
  [{ clientSegment 1000 [] with syn := true }, clientSegment 1001 [0, 0, 0, 9, 0, 3, 0, 0, 0]]

def reusedKey : ConnKey := ⟨(.v4 0x0a000001, 40001), (.v4 0x0a000002, 5432)⟩

theorem reuse_afresh_closed :
    unannounced (run (heard (ConnTable.handle framed 5432) (labelled (fun seg => connKey seg 5432) reusedKey))
        (tableRun framed 5432 10 (abandoned ++ [{ serverSegment 7 [] with fin := true }])) nextConnection).2
      = unannounced (run (ConnTable.handle framed 5432) (ConnTable.withMetrics (Metrics.withLimits 10))
          nextConnection).2 := by
  refine reuse_afresh framed_consumes 5432 10 _ rfl rfl rfl [clientSegment 1001 [0, 0, 0, 9, 0, 3, 0, 0, 0]] ?_ _
  intro conn hconn
  have hclosed : ((tableRun framed 5432 10 (abandoned ++ [{ serverSegment 7 [] with fin := true }])).map.lookup
      reusedKey).map Connection.metricsClosed = some true := by
    decide
  rw [hconn] at hclosed
  exact .inl (Option.some.inj hclosed)

/-- **An entry that was not seen to close**: the new connection's startup message is taken for the head of
a message of the old connection, and is not reported. -/
theorem reuse_unclosed :
    unannounced (run (heard (ConnTable.handle framed 5432) (labelled (fun seg => connKey seg 5432) reusedKey))
        (tableRun framed 5432 10 abandoned) nextConnection).2
      ≠ unannounced (run (ConnTable.handle framed 5432) (ConnTable.withMetrics (Metrics.withLimits 10))
          nextConnection).2 := by
  decide

end Tapgres.Flow
