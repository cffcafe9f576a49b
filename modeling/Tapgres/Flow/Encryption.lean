import Tapgres.Decode.Accept
import Tapgres.Flow.Accounting

/-!
# After encryption is accepted

Once a connection is marked encrypted, no segment is handled any more.  The mark is set after the drain
that decodes the accepting answer, so what can still be decoded is what lies behind the accept byte in
the same server buffer:

* `ledgerStep_stopped` — a segment with nothing decodable behind an accept keeps every lifetime silent
  after its accept;
* `stops_at_accept_iff` — the runs that stop at the accept are exactly those;
* `accept_with_message_behind` — a run that does not stop.
-/

namespace Tapgres.Flow

open Tapgres.Net Tapgres.Pgwire Tapgres.Decode Tapgres.State Tapgres.Lib.Run

/-! ### Stopping -/

/-- The connection `id` stops at its accept: nothing is decoded for it afterwards, and its counters are
those of the messages up to the accept. -/
def StopsAtAccept (l : Ledger) (id : ConnId) : Prop :=
  ∀ pre e post, (l.life id).events = pre ++ e :: post → e.isAccept = true →
    (∀ e' ∈ post, e'.isDecoded = false) ∧
      ∀ s, l.table.metrics.arcs id = some s → ∀ role,
        s.msgs (trafficDirection role) = messagesOf role (pre ++ [e]) ∧
          s.bytes (trafficDirection role) = wireOf role (pre ++ [e])

/-- The condition on a segment: when it is fed to the server direction of a connection that is still
in cleartext, pgwire decodes nothing from the bytes behind an accept byte in the buffer. -/
def NothingBehindIn (pg : Decoder) (pgPort : UInt16) (l : Ledger) (seg : TcpSegment) : Prop :=
  ∀ key conn, connKey seg pgPort = some key →
    (l.table.admitSegment key pgPort seg).1.map.lookup key = some conn → conn.encrypted = false →
    segmentRole seg pgPort = .server →
    NothingBehindAccept pg (conn.fed pgPort seg).rxbuf (conn.fed pgPort seg).ctx

/-- A relation holds between all earlier and later elements, said of each place the list can be cut. -/
theorem pairwise_iff_cut {α : Type*} {R : α → α → Prop} (l : List α) :
    l.Pairwise R ↔ ∀ pre a post, l = pre ++ a :: post → ∀ b ∈ post, R a b := by
  induction l with
  | nil => simp
  | cons x l ih =>
    rw [List.pairwise_cons, ih]
    constructor
    · rintro ⟨hx, hl⟩ pre a post heq b hb
      cases pre with
      | nil =>
        obtain ⟨rfl, rfl⟩ := List.cons.inj heq
        exact hx b hb
      | cons y pre =>
        obtain ⟨rfl, rfl⟩ := List.cons.inj heq
        exact hl pre a post rfl b hb
    · intro h
      exact ⟨h [] x l rfl, fun pre a post heq => h (x :: pre) a post (by rw [heq]; rfl)⟩

/-- Silence is kept by appending, when nothing was accepted before or nothing is decoded after. -/
theorem silenced_append {es fs : List Event} (hes : es.Pairwise Silenced) (hfs : fs.Pairwise Silenced)
    (h : (∀ e ∈ es, e.isAccept = false) ∨ ∀ e ∈ fs, e.isDecoded = false) :
    (es ++ fs).Pairwise Silenced := by
  rw [List.pairwise_append]
  refine ⟨hes, hfs, ?_⟩
  intro e he e' he' haccept
  rcases h with h | h
  · rw [h e he] at haccept
    cases haccept
  · exact h e' he'

theorem silenced_of_no_accept {es : List Event} (h : ∀ e ∈ es, e.isAccept = false) :
    es.Pairwise Silenced :=
  List.pairwise_of_forall_mem_list fun e he _ _ haccept => by
    rw [h e he] at haccept
    cases haccept

/-! ### One segment -/

/-- The events of a call are silent behind an accept, and an accept leaves the connection encrypted. -/
theorem handle_silent {pg : Decoder} (hpg : pg.Consumes) (pgPort : UInt16) {conn : Connection}
    (hsided : conn.Sided) (m : Metrics) (seg : TcpSegment) (henc : conn.encrypted = false)
    (hok : segmentRole seg pgPort = .server →
      NothingBehindAccept pg (conn.fed pgPort seg).rxbuf (conn.fed pgPort seg).ctx) :
    (conn.handle pg pgPort m seg).2.2.Pairwise Silenced ∧
      ((∃ e ∈ (conn.handle pg pgPort m seg).2.2, e.isAccept = true) →
        (conn.handle pg pgPort m seg).1.encrypted = true) := by
  obtain ⟨_, _, hencrypted, hevents⟩ := handle_frame pg pgPort conn m seg henc
  have hrole := fed_role hsided pgPort seg
  rw [hevents, hencrypted, (drain_account hpg (conn.fed pgPort seg)).encrypted]
  refine ⟨?_, fun h => List.any_eq_true.mpr h⟩
  cases hside : segmentRole seg pgPort with
  | client => exact silenced_of_no_accept (client_drain_no_accept hpg (hrole.trans hside))
  | server => exact (drain_silent_iff hpg (hrole.trans hside)).mpr (hok hside)

/-- A call behind an accept does nothing; one before any accept is silent behind its own. -/
theorem handle_accepted_or_silent {pg : Decoder} (hpg : pg.Consumes) (pgPort : UInt16)
    {conn : Connection} (hsided : conn.Sided) (m : Metrics) (seg : TcpSegment) {es : List Event}
    (hmark : (∃ e ∈ es, e.isAccept = true) → conn.encrypted = true)
    (hok : conn.encrypted = false → segmentRole seg pgPort = .server →
      NothingBehindAccept pg (conn.fed pgPort seg).rxbuf (conn.fed pgPort seg).ctx) :
    (∃ e ∈ es, e.isAccept = true) ∧ conn.encrypted = true ∧ conn.handle pg pgPort m seg = (conn, m, []) ∨
      (∀ e ∈ es, e.isAccept = false) ∧ (conn.handle pg pgPort m seg).2.2.Pairwise Silenced ∧
        ((∃ e ∈ (conn.handle pg pgPort m seg).2.2, e.isAccept = true) →
          (conn.handle pg pgPort m seg).1.encrypted = true) := by
  by_cases haccept : ∃ e ∈ es, e.isAccept = true
  · exact .inl ⟨haccept, hmark haccept, handle_encrypted pg pgPort _ seg (hmark haccept)⟩
  · have hno : ∀ e ∈ es, e.isAccept = false := by
      simpa using haccept
    cases henc : conn.encrypted with
    | true =>
      rw [handle_encrypted pg pgPort _ seg henc]
      exact .inr ⟨hno, .nil, by simp⟩
    | false => exact .inr ⟨hno, handle_silent hpg pgPort hsided _ seg henc (hok henc)⟩

/-- Every lifetime is silent after its accept, and a connection that accepted is marked. -/
structure Stopped (t : ConnTable) (life : ConnId → Lifetime) : Prop where
  silent : ∀ id, (life id).events.Pairwise Silenced
  encrypted : ∀ k conn, t.map.lookup k = some conn →
    (∃ e ∈ (life conn.stats).events, e.isAccept = true) → conn.encrypted = true

theorem stopped_admitted {l : Ledger} {out : List Event} (hbal : Balanced l out)
    (h : Stopped l.table l.life) (key : ConnKey) (pgPort : UInt16) (seg : TcpSegment) :
    Stopped (l.table.admitSegment key pgPort seg).1 l.life := by
  refine ⟨h.silent, ?_⟩
  intro k conn hconn haccept
  rcases admit_cases l.table key pgPort seg with ⟨_, _, _, hadm⟩ | ⟨_, hadm⟩
  · rw [hadm] at hconn
    exact h.encrypted k conn hconn haccept
  · rw [hadm] at hconn
    by_cases hk : k = key
    · -- a fresh connection has emitted nothing
      rw [hk, openEntry_lookup] at hconn
      cases Option.some.inj hconn
      obtain ⟨e, he, _⟩ := haccept
      rw [show (Connection.new l.table.metrics.nextConnId (socketAddr key.client)).stats
        = l.table.metrics.nextConnId from rfl, hbal.fresh _ (le_refl _)] at he
      cases he
    · exact h.encrypted k conn ((openEntry_lookup_ne _ hk).symm.trans hconn) haccept

/-- Announcements are neither accepts nor decoded. -/
theorem admit_announces (t : ConnTable) (key : ConnKey) (pgPort : UInt16) (seg : TcpSegment) :
    ∀ e ∈ (t.admitSegment key pgPort seg).2, e.isAccept = false ∧ e.isDecoded = false := by
  rcases admit_cases t key pgPort seg with ⟨_, _, _, hadm⟩ | ⟨_, hadm⟩ <;>
    simp [hadm, Event.isAccept, Event.isDecoded]

theorem settled_announces {t t' : ConnTable} {key : ConnKey} {conn : Connection} {metrics : Metrics}
    {seg : TcpSegment} {closing : List Event} (h : Settled t key conn metrics seg t' closing) :
    ∀ e ∈ closing, e.isAccept = false ∧ e.isDecoded = false := by
  cases h <;> simp [Event.isAccept, Event.isDecoded]

/-- **The step lemma.**  A segment with nothing decodable behind an accept keeps the lifetimes silent. -/
theorem ledgerStep_stopped {pg : Decoder} (hpg : pg.Consumes) {pgPort : UInt16} {l : Ledger}
    {out : List Event} (hbal : Balanced l out) (h : Stopped l.table l.life) {seg : TcpSegment}
    (hok : NothingBehindIn pg pgPort l seg) :
    Stopped (ledgerStep pg pgPort l seg).1.table (ledgerStep pg pgPort l seg).1.life := by
  cases hkey : connKey seg pgPort with
  | none => simpa [ledgerStep, hkey, table_handle_none pg l.table hkey] using h
  | some key =>
    obtain ⟨conn, hconn⟩ := admit_lookup l.table key pgPort seg
    obtain ⟨table, closing, hsettled, hstep⟩ := ledgerStep_cases pg l hkey hconn
    have hadm := stopped_admitted hbal h key pgPort seg
    have hbal' := balanced_admitted hbal key pgPort seg
    obtain ⟨hsided, _, _⟩ := hbal'.entry key conn hconn
    have hopened := admit_announces l.table key pgPort seg
    have hclosing := settled_announces hsettled
    have hmark := hadm.encrypted key conn hconn
    have hspec := handle_spec hpg pgPort hsided (l.table.admitSegment key pgPort seg).1.metrics seg
    -- the events of the call, and the mark it leaves
    have hcall := handle_accepted_or_silent hpg pgPort hsided (l.table.admitSegment key pgPort seg).1.metrics
      seg hmark (hok key conn hkey hconn)
    rw [hstep]
    generalize conn.handle pg pgPort (l.table.admitSegment key pgPort seg).1.metrics seg = handled at *
    obtain ⟨conn', m, events⟩ := handled
    dsimp only at *
    have hsilent_open : (l.table.admitSegment key pgPort seg).2.Pairwise Silenced :=
      silenced_of_no_accept fun e he => (hopened e he).1
    have hsilent_close : closing.Pairwise Silenced :=
      silenced_of_no_accept fun e he => (hclosing e he).1
    refine ⟨?_, ?_⟩
    · intro id
      by_cases hid : id = conn.stats
      · subst hid
        simp only [Function.update_self, Lifetime.extend]
        rcases hcall with ⟨_, _, hsame⟩ | ⟨hno, hevents, _⟩
        · cases hsame
          refine silenced_append (h.silent _) (silenced_append ?_ hsilent_close ?_) (.inr ?_)
          · simpa using hsilent_open
          · exact .inr fun e he => (hclosing e he).2
          · intro e he
            simp only [List.append_nil, List.mem_append] at he
            rcases he with he | he
            · exact (hopened e he).2
            · exact (hclosing e he).2
        · refine silenced_append (h.silent _) (silenced_append ?_ hsilent_close ?_) (.inl hno)
          · exact silenced_append hsilent_open hevents (.inl fun e he => (hopened e he).1)
          · exact .inr fun e he => (hclosing e he).2
      · simp only [Function.update_of_ne hid]
        exact h.silent id
    · intro k c hc haccept
      rcases settled_lookup hsettled hc with ⟨rfl, hstats, hencrypted, _⟩ | ⟨hk, hold⟩
      · rw [hencrypted]
        rw [hstats, hspec.stats] at haccept
        simp only [Function.update_self, Lifetime.extend] at haccept
        obtain ⟨e, he, hacc⟩ := haccept
        rcases hcall with ⟨_, henc, hsame⟩ | ⟨hno, _, hcallmark⟩
        · cases hsame
          exact henc
        · simp only [List.mem_append] at he
          rcases he with he | (he | he) | he
          · rw [hno e he] at hacc
            cases hacc
          · rw [(hopened e he).1] at hacc
            cases hacc
          · exact hcallmark ⟨e, he, hacc⟩
          · rw [(hclosing e he).1] at hacc
            cases hacc
      · have hne : c.stats ≠ conn.stats := fun heq => hk (hbal'.distinct k key c conn hold hconn heq)
        simp only [Function.update_of_ne hne] at haccept
        exact hadm.encrypted k c hold haccept

/-! ### Whole runs -/

/-- A lifetime only grows. -/
theorem ledgerStep_grows (pg : Decoder) (pgPort : UInt16) (l : Ledger) (seg : TcpSegment) (id : ConnId) :
    (l.life id).events <+: ((ledgerStep pg pgPort l seg).1.life id).events := by
  cases hkey : connKey seg pgPort with
  | none => simp [ledgerStep, hkey]
  | some key =>
    obtain ⟨conn, hconn⟩ := admit_lookup l.table key pgPort seg
    obtain ⟨table, closing, _, hstep⟩ := ledgerStep_cases pg l hkey hconn
    rw [hstep]
    by_cases hid : id = conn.stats
    · subst hid
      simp only [Function.update_self, Lifetime.extend]
      exact List.prefix_append _ _
    · simp only [Function.update_of_ne hid]
      exact List.prefix_refl _

theorem ledger_run_grows (pg : Decoder) (pgPort : UInt16) (l : Ledger) (segs : List TcpSegment)
    (id : ConnId) : (l.life id).events <+: ((run (ledgerStep pg pgPort) l segs).1.life id).events := by
  induction segs generalizing l with
  | nil => exact List.prefix_refl _
  | cons seg segs ih => exact (ledgerStep_grows pg pgPort l seg id).trans (ih _)

/-- What a drain emits is entered in the lifetime of its connection. -/
theorem drain_in_life (pg : Decoder) {pgPort : UInt16} {l : Ledger} {seg : TcpSegment} {key : ConnKey}
    (hkey : connKey seg pgPort = some key) {conn : Connection}
    (hconn : (l.table.admitSegment key pgPort seg).1.map.lookup key = some conn)
    (henc : conn.encrypted = false) :
    (drainDirection pg (conn.fed pgPort seg) {}).events
      <:+: ((ledgerStep pg pgPort l seg).1.life conn.stats).events := by
  obtain ⟨table, closing, _, hstep⟩ := ledgerStep_cases pg l hkey hconn
  rw [hstep]
  simp only [Function.update_self, Lifetime.extend, (handle_frame pg pgPort conn _ seg henc).2.2.2]
  exact ⟨(l.life conn.stats).events ++ (l.table.admitSegment key pgPort seg).2, closing, by
    simp only [List.append_assoc]⟩

/-- The counters of a silent lifetime are those of its events up to the accept. -/
theorem stopsAtAccept_of_silent {l : Ledger} {out : List Event} (hbal : Balanced l out) {id : ConnId}
    (h : (l.life id).events.Pairwise Silenced) : StopsAtAccept l id := by
  intro pre e post hevents haccept
  have hpost : ∀ e' ∈ post, e'.isDecoded = false := fun e' he' =>
    (pairwise_iff_cut _).mp h pre e post hevents e' he' haccept
  refine ⟨hpost, ?_⟩
  intro s hs role
  obtain ⟨hmsgs, hbytes⟩ := (hbal.record id s hs).2 role
  have hnone : messagesOf role post = 0 := by
    rw [messagesOf, List.countP_eq_zero]
    intro e' he' hmsg
    have := hpost e' he'
    cases e' with
    | message emitter body wire => cases this
    | _ => cases hmsg
  have hsplit : (l.life id).events = (pre ++ [e]) ++ post := by
    rw [hevents, List.append_assoc]
    rfl
  rw [hmsgs, hbytes, hsplit, messagesOf_append, wireOf_append, hnone, wireOf_of_no_messages hnone]
  exact ⟨rfl, rfl⟩

/-- **Decoding stops at the accept** in every run in which no segment has something decodable behind an
accept byte, and in no other. -/
theorem stops_at_accept_iff (pg : Decoder) (hpg : pg.Consumes) (pgPort : UInt16) (connectionCap : ℕ)
    (segs : List TcpSegment) :
    (∀ id, StopsAtAccept (run (ledgerStep pg pgPort) (Ledger.start connectionCap) segs).1 id) ↔
      Meets (ledgerStep pg pgPort) (NothingBehindIn pg pgPort) (Ledger.start connectionCap) segs := by
  constructor
  · intro hstop
    rw [meets_iff]
    rintro pre seg post rfl key conn hkey hconn henc hside
    have hbal := ledger_balanced hpg pgPort connectionCap pre
    obtain ⟨hsided, _, _⟩ := (balanced_admitted hbal key pgPort seg).entry key conn hconn
    rw [← drain_silent_iff hpg ((fed_role hsided pgPort seg).trans hside)]
    -- the events of this call are still there at the end, where they are silent
    have hsilent := (pairwise_iff_cut (R := Silenced) _).mpr fun pre' e post' hevents e' he' haccept =>
      (hstop conn.stats pre' e post' hevents haccept).1 e' he'
    rw [run_append, run_cons] at hsilent
    exact hsilent.sublist ((drain_in_life pg hkey hconn henc).sublist.trans
      (ledger_run_grows pg pgPort _ post conn.stats).sublist)
  · intro hmeets id
    have h := run_invariant_of_meets (ledgerStep pg pgPort)
      (fun _ l out => Balanced l out ∧ Stopped l.table l.life)
      ⟨balanced_start connectionCap, fun _ => .nil, fun _ _ hconn => by cases hconn⟩
      (fun _ l out seg h hok => ⟨ledgerStep_balanced hpg pgPort h.1 seg,
        ledgerStep_stopped hpg h.1 h.2 hok⟩) hmeets
    exact stopsAtAccept_of_silent h.1 (h.2.silent id)

/-- A client asks for SSL; the server's accept byte comes with a whole `NoData` behind it. -/
def acceptWithMessageBehind : List TcpSegment :=
  [{ clientSegment 0 [] with syn := true }, { serverSegment 0 [] with syn := true },
    clientSegment 1 [0, 0, 0, 8, 0x04, 0xd2, 0x16, 0x2f],
    serverSegment 1 [0x53, 0x6e, 0, 0, 0, 4]]

/-- The same session, with the accept byte alone. -/
def acceptAlone : List TcpSegment :=
  [{ clientSegment 0 [] with syn := true }, { serverSegment 0 [] with syn := true },
    clientSegment 1 [0, 0, 0, 8, 0x04, 0xd2, 0x16, 0x2f], serverSegment 1 [0x53],
    serverSegment 2 [0x6e, 0, 0, 0, 4]]

theorem stops_at_accept_alone :
    StopsAtAccept (run (ledgerStep framed 5432) (Ledger.start 10) acceptAlone).1 1 := by
  refine (stops_at_accept_iff framed framed_consumes 5432 10 acceptAlone).mpr
    ⟨?_, ?_, ?_, ?_, ?_, trivial⟩ 1
  · intro _ _ _ _ _ hside
    cases hside
  · rintro _ _ ⟨⟩ ⟨⟩ _ _
    exact nothingBehind_of_last (m := none) rfl nofun
  · intro _ _ _ _ _ hside
    cases hside
  · rintro _ _ ⟨⟩ ⟨⟩ _ _
    apply nothingBehind_of_last (m := some (.sslResponse .accept)) rfl
    rintro _ ⟨⟩
    rfl
  · rintro _ _ ⟨⟩ ⟨⟩ henc _
    cases henc

/-- **Decoding goes on behind the accept**: the `NoData` in the same buffer is decoded and counted. -/
theorem accept_with_message_behind :
    framed.Consumes ∧
      ¬StopsAtAccept (run (ledgerStep framed 5432) (Ledger.start 10) acceptWithMessageBehind).1 1 := by
  refine ⟨framed_consumes, ?_⟩
  intro h
  have hpost := (h [_, _] _ [_] rfl rfl).1 _ (List.mem_singleton_self _)
  cases hpost

end Tapgres.Flow
