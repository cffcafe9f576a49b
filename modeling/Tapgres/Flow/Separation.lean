import Tapgres.Flow.Lifecycle
import Tapgres.Lib.Interleave
import Tapgres.State.Records

/-!
# Connections do not influence each other

A segment of one connection is handled by the entry of its key, and counted in the record of that entry.
In a table that has seen other connections as well, the entry holds another handle, and nothing else is
different:

* `table_handle_own` — what a segment does to the entry, to its record, and what it prints;
* `alike_own`, `alike_other` — a segment of the connection keeps two tables alike, and so does a segment
  of another connection that only one of them sees;
* `connections_separate` — so in every interleaving each connection fares as it does alone.
-/

namespace Tapgres.Flow

open Tapgres.Net Tapgres.Pgwire Tapgres.Decode Tapgres.State Tapgres.Lib.Run Tapgres.Lib.Interleave

/-! ### What a segment does to its own entry -/

/-- What handling a segment does to the record of the connection. -/
def Connection.amendment (pg : Decoder) (pgPort : UInt16) (conn : Connection) (seg : TcpSegment) :
    ConnStats → ConnStats :=
  if conn.encrypted then id
  else
    let outcome := (drainDirection pg (conn.fed pgPort seg) {}).outcome
    (if outcome.msgs > 0 then
      ConnStats.count (trafficDirection (segmentRole seg pgPort)) outcome.msgs outcome.bytes else id) ∘
    if outcome.encrypted then fun s => { s with encrypted := true } else id

theorem keepsAddresses_count (direction : TrafficDirection) (count bytes : ℕ) :
    KeepsAddresses (ConnStats.count direction count bytes) := by
  cases direction <;> exact ⟨fun _ => rfl, fun _ => rfl, fun _ _ => rfl⟩

theorem amendment_keepsAddresses (pg : Decoder) (pgPort : UInt16) (conn : Connection) (seg : TcpSegment) :
    KeepsAddresses (conn.amendment pg pgPort seg) := by
  rw [Connection.amendment]
  split
  · exact keepsAddresses_id
  · refine KeepsAddresses.comp ?_ ?_
    · split
      · exact keepsAddresses_count _ _ _
      · exact keepsAddresses_id
    · split
      · exact ⟨fun _ => rfl, fun _ => rfl, fun _ _ => rfl⟩
      · exact keepsAddresses_id

theorem handle_amends (pg : Decoder) (pgPort : UInt16) (conn : Connection) (m : Metrics)
    (seg : TcpSegment) :
    Amends conn.stats (conn.amendment pg pgPort seg) m (conn.handle pg pgPort m seg).2.1 := by
  rw [Connection.amendment]
  cases henc : conn.encrypted with
  | true =>
    rw [handle_encrypted pg pgPort m seg henc]
    exact Amends.refl _ m
  | false =>
    rw [handle_metrics pg pgPort conn m seg henc]
    dsimp only
    generalize (drainDirection pg (conn.fed pgPort seg) {}).outcome = outcome
    have hset : Amends conn.stats (if outcome.encrypted then fun s => { s with encrypted := true } else id) m
        (if outcome.encrypted then m.setEncrypted conn.stats true else m) := by
      split
      · exact setEncrypted_amends m conn.stats true
      · exact Amends.refl _ m
    apply hset.trans
    split
    · exact recordMessages_amends _ _ _ _ _
    · exact Amends.refl _ _

/-- The entry left of a connection after the segment `seg`: none after an RST. -/
def Connection.settled (conn : Connection) (seg : TcpSegment) : Option Connection :=
  if seg.rst then none else some { conn with metricsClosed := conn.metricsClosed || seg.fin }

/-- What the close does to the record. -/
def closing (seg : TcpSegment) (metricsClosed : Bool) : ConnStats → ConnStats :=
  if seg.rst || (seg.fin && !metricsClosed) then ConnStats.close else id

def closingLine (seg : TcpSegment) (metricsClosed : Bool) : List Event :=
  if seg.rst then [.reset] else if seg.fin && !metricsClosed then [.closed] else []

theorem closing_keepsAddresses (seg : TcpSegment) (metricsClosed : Bool) :
    KeepsAddresses (closing seg metricsClosed) := by
  rw [closing]
  split
  · exact ⟨fun _ => rfl, fun _ => rfl, fun _ _ => rfl⟩
  · exact keepsAddresses_id

theorem settled_spec {t t' : ConnTable} {key : ConnKey} {conn : Connection} {m : Metrics}
    {seg : TcpSegment} {line : List Event} (h : Settled t key conn m seg t' line) :
    t'.map.lookup key = conn.settled seg ∧ line = closingLine seg conn.metricsClosed ∧
      Amends conn.stats (closing seg conn.metricsClosed) m t'.metrics := by
  cases h with
  | reset rst =>
    rw [Connection.settled, closingLine, closing, rst]
    exact ⟨AList.lookup_erase _ _, rfl, closeConnection_amends m conn.stats⟩
  | closed rst fin live =>
    rw [Connection.settled, closingLine, closing, rst, fin, live]
    exact ⟨AList.lookup_insert _, rfl, closeConnection_amends m conn.stats⟩
  | kept rst fin =>
    have hno : (seg.fin && !conn.metricsClosed) = false := by
      cases hfin : seg.fin with
      | true => rw [fin hfin]; rfl
      | false => rfl
    have hmark : (conn.metricsClosed || seg.fin) = conn.metricsClosed := by
      cases hfin : seg.fin with
      | true => rw [fin hfin]; rfl
      | false => exact Bool.or_false _
    rw [Connection.settled, closingLine, closing, rst, hno, hmark]
    exact ⟨AList.lookup_insert _, rfl, Amends.refl _ m⟩

/-- **What a segment does to its own entry**, once that has been admitted. -/
theorem table_handle_own (pg : Decoder) {pgPort : UInt16} (t : ConnTable) {seg : TcpSegment}
    {key : ConnKey} (hkey : connKey seg pgPort = some key) {conn : Connection}
    (hconn : (t.admitSegment key pgPort seg).1.map.lookup key = some conn) :
    (t.handle pg pgPort seg).1.map.lookup key
        = (conn.handle pg pgPort (t.admitSegment key pgPort seg).1.metrics seg).1.settled seg ∧
      (t.handle pg pgPort seg).2 = (t.admitSegment key pgPort seg).2
        ++ (conn.handle pg pgPort (t.admitSegment key pgPort seg).1.metrics seg).2.2
        ++ closingLine seg conn.metricsClosed ∧
      Amends conn.stats (closing seg conn.metricsClosed ∘ conn.amendment pg pgPort seg)
        (t.admitSegment key pgPort seg).1.metrics (t.handle pg pgPort seg).1.metrics := by
  obtain ⟨line, hevents, hsettled⟩ := table_handle_cases pg t hkey hconn
  obtain ⟨hstats, hmark, _⟩ := handle_kept pg pgPort conn (t.admitSegment key pgPort seg).1.metrics seg
  obtain ⟨hentry, hline, hamends⟩ := settled_spec hsettled
  rw [hmark] at hline hamends
  rw [hstats] at hamends
  exact ⟨hentry, by rw [hevents, hline], (handle_amends pg pgPort conn _ seg).trans hamends⟩

/-! ### The handle does not matter -/

/-- The connection under another handle. -/
def Connection.renumber (conn : Connection) (stats : ConnId) : Connection := { conn with stats }

theorem renumber_fed (conn : Connection) (id : ConnId) (pgPort : UInt16) (seg : TcpSegment) :
    (conn.renumber id).fed pgPort seg = conn.fed pgPort seg := by
  unfold Connection.fed
  cases segmentRole seg pgPort <;> rfl

theorem renumber_amendment (pg : Decoder) (pgPort : UInt16) (conn : Connection) (id : ConnId)
    (seg : TcpSegment) : (conn.renumber id).amendment pg pgPort seg = conn.amendment pg pgPort seg := by
  rw [Connection.amendment, Connection.amendment, renumber_fed]
  rfl

theorem renumber_settled (conn : Connection) (id : ConnId) (seg : TcpSegment) :
    (conn.renumber id).settled seg = (conn.settled seg).map fun c => c.renumber id := by
  rw [Connection.settled, Connection.settled]
  split <;> rfl

/-- Under another handle, and with other metrics, a connection handles a segment as before. -/
theorem renumber_handle (pg : Decoder) (pgPort : UInt16) (conn : Connection) (id : ConnId) (m m' : Metrics)
    (seg : TcpSegment) :
    ((conn.renumber id).handle pg pgPort m' seg).1 = (conn.handle pg pgPort m seg).1.renumber id ∧
      ((conn.renumber id).handle pg pgPort m' seg).2.2 = (conn.handle pg pgPort m seg).2.2 := by
  cases henc : conn.encrypted with
  | true =>
    rw [handle_encrypted pg pgPort m seg henc, @handle_encrypted pg pgPort (conn.renumber id) m' seg henc]
    exact ⟨rfl, rfl⟩
  | false =>
    rw [handle_settle pg pgPort m seg henc, @handle_settle pg pgPort (conn.renumber id) m' seg henc,
      renumber_fed]
    generalize drainDirection pg (conn.fed pgPort seg) {} = drained
    unfold Connection.settle
    cases segmentRole seg pgPort <;> cases drained.outcome.encrypted <;> exact ⟨rfl, rfl⟩

/-! ### Records belong to entries -/

/-- The record of each entry has the addresses of the entry's key, and the totals sum the records up. -/
structure Sound (t : ConnTable) : Prop where
  summed : Summed t.metrics
  addressed : ∀ k conn, t.map.lookup k = some conn → ∃ s, t.metrics.arcs conn.stats = some s ∧
    s.client = socketAddr k.client ∧ s.server = socketAddr k.server

theorem sound_start (connectionCap : ℕ) : Sound (ConnTable.withMetrics (Metrics.withLimits connectionCap)) := by
  refine ⟨summed_withLimits connectionCap, ?_⟩
  intro k conn hconn
  cases hconn

/-- Different keys have different addresses. -/
theorem socketAddr_key {key k : ConnKey} (hclient : socketAddr key.client = socketAddr k.client)
    (hserver : socketAddr key.server = socketAddr k.server) : key = k := by
  obtain ⟨⟨ip, port⟩, ⟨ip', port'⟩⟩ := key
  obtain ⟨⟨kip, kport⟩, ⟨kip', kport'⟩⟩ := k
  cases hclient
  cases hserver
  rfl

theorem openEntry_arcs (t : ConnTable) (key : ConnKey) :
    (t.openEntry key).metrics.arcs = Function.update t.metrics.arcs t.metrics.nextConnId
      (some (ConnStats.start t.metrics.nextConnId (socketAddr key.client) (socketAddr key.server) false)) :=
  openConnection_arcs _ _ _ _

theorem sound_openEntry {t : ConnTable} (h : Sound t) (key : ConnKey) : Sound (t.openEntry key) := by
  refine ⟨h.summed.openConnection _ _ _, ?_⟩
  intro k conn hconn
  rw [openEntry_arcs]
  rcases openEntry_cases hconn with ⟨rfl, rfl⟩ | ⟨_, hold⟩
  · exact ⟨_, Function.update_self .., rfl, rfl⟩
  · obtain ⟨s, hs, haddr⟩ := h.addressed k conn hold
    exact ⟨s, (Function.update_of_ne (h.summed.lt hs).ne ..).trans hs, haddr⟩

theorem sound_admitted {t : ConnTable} (h : Sound t) (key : ConnKey) (pgPort : UInt16) (seg : TcpSegment) :
    Sound (t.admitSegment key pgPort seg).1 := by
  rcases admit_cases t key pgPort seg with ⟨_, _, _, hadm⟩ | ⟨_, hadm⟩
  · rwa [hadm]
  · rw [hadm]
    exact sound_openEntry h key

/-- A step that amends one record, and puts the same handle back under the key. -/
theorem Sound.amends {t t' : ConnTable} (h : Sound t) {key : ConnKey} {conn : Connection}
    (hconn : t.map.lookup key = some conn) {f : ConnStats → ConnStats} (hf : KeepsAddresses f)
    (hamends : Amends conn.stats f t.metrics t'.metrics)
    (hown : ∀ c, t'.map.lookup key = some c → c.stats = conn.stats)
    (hother : ∀ k, k ≠ key → t'.map.lookup k = t.map.lookup k) : Sound t' := by
  obtain ⟨s, hs, hclient, hserver⟩ := h.addressed key conn hconn
  have hnew : t'.metrics.arcs conn.stats = some (f s) := by
    rw [hamends.arcs, amend_self, hs, Option.map_some]
  refine ⟨h.summed.amend hs hamends, ?_⟩
  intro k c hc
  by_cases hk : k = key
  · subst hk
    rw [hown c hc]
    exact ⟨f s, hnew, (hf.client s).trans hclient, (hf.server s).trans hserver⟩
  · rw [hother k hk] at hc
    obtain ⟨s', hs', hclient', hserver'⟩ := h.addressed k c hc
    -- records of different keys have different addresses
    have hne : c.stats ≠ conn.stats := by
      intro heq
      rw [heq, hs] at hs'
      obtain rfl := Option.some.inj hs'
      exact hk (socketAddr_key (hclient'.symm.trans hclient) (hserver'.symm.trans hserver))
    exact ⟨s', by rw [hamends.arcs, amend_of_ne _ _ hne, hs'], hclient', hserver'⟩

theorem settled_stats {conn c : Connection} {seg : TcpSegment} (h : conn.settled seg = some c) :
    c.stats = conn.stats := by
  rw [Connection.settled] at h
  split at h
  · cases h
  · obtain rfl := Option.some.inj h
    rfl

/-- Other entries are those of the admitted table. -/
theorem table_handle_lookup_other (pg : Decoder) {pgPort : UInt16} (t : ConnTable) {seg : TcpSegment}
    {key k : ConnKey} (hkey : connKey seg pgPort = some key) (hk : k ≠ key) :
    (t.handle pg pgPort seg).1.map.lookup k = (t.admitSegment key pgPort seg).1.map.lookup k := by
  have hne : connKey seg pgPort ≠ some k := fun h => hk (Option.some.inj (h.symm.trans hkey))
  rw [table_handle_lookup_ne pg t hne]
  rcases admit_cases t key pgPort seg with ⟨_, _, _, hadm⟩ | ⟨_, hadm⟩
  · rw [hadm]
  · rw [hadm, openEntry_lookup_ne t hk]

theorem table_handle_sound (pg : Decoder) (pgPort : UInt16) {t : ConnTable} (h : Sound t)
    (seg : TcpSegment) : Sound (t.handle pg pgPort seg).1 := by
  cases hkey : connKey seg pgPort with
  | none => rwa [table_handle_none pg t hkey]
  | some key =>
    obtain ⟨conn, hconn⟩ := admit_lookup t key pgPort seg
    obtain ⟨hentry, _, hamends⟩ := table_handle_own pg t hkey hconn
    refine (sound_admitted h key pgPort seg).amends hconn
      ((closing_keepsAddresses seg _).comp (amendment_keepsAddresses pg pgPort conn seg)) hamends
      (fun c hc => ?_) fun k hk => table_handle_lookup_other pg t hkey hk
    rw [hentry] at hc
    rw [settled_stats hc]
    exact (handle_kept pg pgPort conn _ seg).1

/-! ### Two tables, alike for one connection -/

/-- In `full` the connection `key` stands as it does in `lone`, under the handles `ρ`. -/
structure FaresAlike (key : ConnKey) (ρ : ConnId → ConnId) (full lone : ConnTable) : Prop where
  entry : full.map.lookup key = (lone.map.lookup key).map fun conn => conn.renumber (ρ conn.stats)
  records : Renumbers (socketAddr key.client) (socketAddr key.server) ρ full.metrics.arcs lone.metrics.arcs

theorem faresAlike_start (key : ConnKey) (connectionCap : ℕ) :
    FaresAlike key id (ConnTable.withMetrics (Metrics.withLimits connectionCap))
      (ConnTable.withMetrics (Metrics.withLimits connectionCap)) :=
  ⟨rfl, renumbers_none _ _ _⟩

section Step

variable {key : ConnKey} {ρ : ConnId → ConnId} {full lone : ConnTable}

/-- Both tables open an entry, or neither. -/
theorem admitted_alike (h : FaresAlike key ρ full lone) (hfull : Sound full) (hlone : Sound lone)
    (pgPort : UInt16) (seg : TcpSegment) :
    ∃ ρ', FaresAlike key ρ' (full.admitSegment key pgPort seg).1 (lone.admitSegment key pgPort seg).1 ∧
      (full.admitSegment key pgPort seg).2 = (lone.admitSegment key pgPort seg).2 ∧
      (full.admitSegment key pgPort seg).1.metrics.total - full.metrics.total
        = (lone.admitSegment key pgPort seg).1.metrics.total - lone.metrics.total := by
  have hopen : full.shouldOpen key seg = lone.shouldOpen key seg := by
    rw [ConnTable.shouldOpen, ConnTable.shouldOpen, h.entry]
    cases lone.map.lookup key <;> rfl
  rw [ConnTable.admitSegment, ConnTable.admitSegment, hopen]
  split
  · refine ⟨Function.update ρ lone.metrics.nextConnId full.metrics.nextConnId, ⟨?_, ?_⟩, rfl, ?_⟩
    · rw [openEntry_lookup, openEntry_lookup, Option.map_some]
      apply congrArg some
      show Connection.new _ _ = (Connection.new _ _).renumber (Function.update ρ _ _ lone.metrics.nextConnId)
      rw [Function.update_self]
      rfl
    · rw [openEntry_arcs, openEntry_arcs]
      exact h.records.opened (fun _ _ hs => hfull.summed.lt hs) (fun _ _ hs => hlone.summed.lt hs) false
    · have htotal := openConnection_total full.metrics (socketAddr key.client) (socketAddr key.server) false
      have htotal' := openConnection_total lone.metrics (socketAddr key.client) (socketAddr key.server) false
      exact htotal.trans htotal'.symm
  · exact ⟨ρ, h, rfl, by rw [sub_self, sub_self]⟩

/-- **A segment of the connection** does the same in both tables. -/
theorem alike_own (pg : Decoder) {pgPort : UInt16} (h : FaresAlike key ρ full lone) (hfull : Sound full)
    (hlone : Sound lone) {seg : TcpSegment} (hkey : connKey seg pgPort = some key) :
    (∃ ρ', FaresAlike key ρ' (full.handle pg pgPort seg).1 (lone.handle pg pgPort seg).1) ∧
      (full.handle pg pgPort seg).2 = (lone.handle pg pgPort seg).2 ∧
      (full.handle pg pgPort seg).1.metrics.total - full.metrics.total
        = (lone.handle pg pgPort seg).1.metrics.total - lone.metrics.total := by
  obtain ⟨ρ', hadm, hopened, hgain⟩ := admitted_alike h hfull hlone pgPort seg
  obtain ⟨conn, hconn⟩ := admit_lookup lone key pgPort seg
  have hconn' := hadm.entry
  rw [hconn, Option.map_some] at hconn'
  obtain ⟨hentry, hevents, hamends⟩ := table_handle_own pg lone hkey hconn
  obtain ⟨hentry', hevents', hamends'⟩ := table_handle_own pg full hkey hconn'
  obtain ⟨hhandled, hsaid⟩ := renumber_handle pg pgPort conn (ρ' conn.stats)
    (lone.admitSegment key pgPort seg).1.metrics (full.admitSegment key pgPort seg).1.metrics seg
  have hstats := (handle_kept pg pgPort conn (lone.admitSegment key pgPort seg).1.metrics seg).1
  rw [hhandled, renumber_settled] at hentry'
  rw [hsaid, hopened] at hevents'
  rw [renumber_amendment] at hamends'
  replace hamends' : Amends (ρ' conn.stats) (closing seg conn.metricsClosed ∘ conn.amendment pg pgPort seg)
    (full.admitSegment key pgPort seg).1.metrics (full.handle pg pgPort seg).1.metrics := hamends'
  have hkeeps := (closing_keepsAddresses seg conn.metricsClosed).comp
    (amendment_keepsAddresses pg pgPort conn seg)
  obtain ⟨s, hs, _⟩ := (sound_admitted hlone key pgPort seg).addressed key conn hconn
  refine ⟨⟨ρ', ?_, ?_⟩, hevents'.trans hevents.symm, ?_⟩
  · rw [hentry', hentry]
    apply Option.map_congr
    intro c hc
    rw [settled_stats hc, hstats]
  · rw [hamends.arcs, hamends'.arcs]
    exact hadm.records.amend hkeeps hs
  · -- both records move by the same amount
    have hmoves := hamends'.total _ (hadm.records.record _ s hs).1
    rw [hkeeps.renumber, renumber_share, renumber_share, ← hamends.total s hs] at hmoves
    rw [← sub_add_sub_cancel _ (full.admitSegment key pgPort seg).1.metrics.total, hmoves, hgain,
      sub_add_sub_cancel]

/-- What a segment of another connection does to the records of this one. -/
theorem handle_arcs_other (pg : Decoder) {pgPort : UInt16} {t : ConnTable} (h : Sound t) {seg : TcpSegment}
    (hkey : connKey seg pgPort ≠ some key) (id : ConnId) (s : ConnStats)
    (hclient : s.client = socketAddr key.client) (hserver : s.server = socketAddr key.server) :
    (t.handle pg pgPort seg).1.metrics.arcs id = some s ↔ t.metrics.arcs id = some s := by
  cases hseg : connKey seg pgPort with
  | none => rw [table_handle_none pg t hseg]
  | some k =>
    have hother : ∀ s', s'.client = socketAddr k.client → s'.server = socketAddr k.server → s' ≠ s := by
      rintro s' hclient' hserver' rfl
      refine hkey (hseg.trans (congrArg some ?_))
      exact socketAddr_key (hclient'.symm.trans hclient) (hserver'.symm.trans hserver)
    obtain ⟨conn, hconn⟩ := admit_lookup t k pgPort seg
    obtain ⟨_, _, hamends⟩ := table_handle_own pg t hseg hconn
    obtain ⟨s₀, hs₀, hclient₀, hserver₀⟩ := (sound_admitted h k pgPort seg).addressed k conn hconn
    have hkeeps := (closing_keepsAddresses seg conn.metricsClosed).comp
      (amendment_keepsAddresses pg pgPort conn seg)
    have hadm : (t.admitSegment k pgPort seg).1.metrics.arcs id = some s ↔ t.metrics.arcs id = some s := by
      rcases admit_cases t k pgPort seg with ⟨_, _, _, hadm⟩ | ⟨_, hadm⟩
      · rw [hadm]
      · rw [hadm, openEntry_arcs]
        by_cases hid : id = t.metrics.nextConnId
        · subst hid
          rw [Function.update_self, h.summed.fresh _ (le_refl _)]
          exact ⟨fun heq => absurd (Option.some.inj heq) (hother _ rfl rfl), nofun⟩
        · rw [Function.update_of_ne hid]
    rw [← hadm, hamends.arcs]
    by_cases hid : id = conn.stats
    · subst hid
      rw [amend_self, hs₀, Option.map_some, Option.some_inj, Option.some_inj]
      refine ⟨fun heq => absurd heq (hother _ ?_ ?_), fun heq => absurd heq (hother _ hclient₀ hserver₀)⟩
      · exact (hkeeps.client s₀).trans hclient₀
      · exact (hkeeps.server s₀).trans hserver₀
    · rw [amend_of_ne _ _ hid]

/-- **A segment of another connection** leaves the tables alike. -/
theorem alike_other (pg : Decoder) {pgPort : UInt16} (h : FaresAlike key ρ full lone) (hfull : Sound full)
    {seg : TcpSegment} (hkey : connKey seg pgPort ≠ some key) :
    FaresAlike key ρ (full.handle pg pgPort seg).1 lone := by
  refine ⟨?_, h.records.frame (handle_arcs_other pg hfull hkey)⟩
  rw [table_handle_lookup_ne pg full hkey, h.entry]

end Step

/-- The two tables are alike for a connection, whatever the handles. -/
def StandsAlike (key : ConnKey) (full lone : ConnTable) : Prop :=
  Sound full ∧ Sound lone ∧ ∃ ρ, FaresAlike key ρ full lone

theorem connTable_separable (pg : Decoder) (pgPort : UInt16) :
    Separable (ConnTable.handle pg pgPort) (fun seg => connKey seg pgPort) StandsAlike
      (fun t => t.metrics.total) := by
  constructor
  · rintro key full lone seg ⟨hfull, hlone, ρ, h⟩ hkey
    obtain ⟨halike, hevents, hgain⟩ := alike_own pg h hfull hlone hkey
    exact ⟨⟨table_handle_sound pg pgPort hfull seg, table_handle_sound pg pgPort hlone seg, halike⟩, hevents, hgain⟩
  · rintro key full lone seg ⟨hfull, hlone, ρ, h⟩ hkey
    exact ⟨table_handle_sound pg pgPort hfull seg, hlone, ρ, alike_other pg h hfull hkey⟩

theorem alike_start (key : ConnKey) (connectionCap : ℕ) :
    StandsAlike key (ConnTable.withMetrics (Metrics.withLimits connectionCap))
      (ConnTable.withMetrics (Metrics.withLimits connectionCap)) :=
  ⟨sound_start connectionCap, sound_start connectionCap, id, faresAlike_start key connectionCap⟩

/-! ### The segments of a connection -/

/-- A connection to the watched port, from another port. -/
def Watched (pgPort : UInt16) (key : ConnKey) : Prop :=
  key.server.2 = pgPort ∧ key.client.2 ≠ pgPort

instance (pgPort : UInt16) (key : ConnKey) : Decidable (Watched pgPort key) :=
  inferInstanceAs (Decidable (_ ∧ _))

instance (a b : Endpoint) (seg : TcpSegment) : Decidable (Travels a b seg) :=
  inferInstanceAs (Decidable (_ ∧ _))

/-- The segment travels between the endpoints of the connection. -/
def ofConnection (key : ConnKey) (seg : TcpSegment) : Bool :=
  Travels key.client key.server seg ∨ Travels key.server key.client seg

/-- The two ways a segment may travel, and the side it is classified to. -/
theorem Watched.sides {pgPort : UInt16} {key : ConnKey} (h : Watched pgPort key) (seg : TcpSegment) :
    (Travels key.client key.server seg → connKey seg pgPort = some key ∧ segmentRole seg pgPort = .client) ∧
      (Travels key.server key.client seg → connKey seg pgPort = some key ∧ segmentRole seg pgPort = .server) := by
  obtain ⟨hserver, hclient⟩ := h
  constructor
  · rintro ⟨hsrc, hdst⟩
    have hport : seg.dstPort = pgPort := by rw [← hserver, ← hdst]
    rw [connKey, segmentRole, if_pos hport, if_pos hport, hsrc, hdst]
    exact ⟨rfl, rfl⟩
  · rintro ⟨hsrc, hdst⟩
    have hport : seg.srcPort = pgPort := by rw [← hserver, ← hsrc]
    have hne : seg.dstPort ≠ pgPort := fun hdport => hclient (by rw [← hdport, ← hdst])
    rw [connKey, segmentRole, if_neg hne, if_neg hne, if_pos hport, hsrc, hdst]
    exact ⟨rfl, rfl⟩

/-- The segments of a watched connection are those filed under its key. -/
theorem Watched.ofConnection_eq {pgPort : UInt16} {key : ConnKey} (h : Watched pgPort key) :
    ofConnection key = labelled (fun seg => connKey seg pgPort) key := by
  funext seg
  refine decide_eq_decide.mpr ⟨?_, fun hkey => ?_⟩
  · rintro (htravels | htravels)
    · exact ((h.sides seg).1 htravels).1
    · exact ((h.sides seg).2 htravels).1
  · replace hkey : connKey seg pgPort = some key := hkey
    rw [connKey] at hkey
    split at hkey
    · obtain rfl := Option.some.inj hkey
      exact .inl ⟨rfl, rfl⟩
    · split at hkey
      · obtain rfl := Option.some.inj hkey
        exact .inr ⟨rfl, rfl⟩
      · cases hkey

/-- A segment reaches one side of the entry of `key`: that side is fed the segment and drained, at most
flags of the other side change, and no other entry does. -/
structure ReachesSide (pg : Decoder) (pgPort : UInt16) (t : ConnTable) (key : ConnKey) (role : Role)
    (seg : TcpSegment) : Prop where
  others : ∀ k, k ≠ key → (t.handle pg pgPort seg).1.map.lookup k = t.map.lookup k
  side : ∀ conn, (t.admitSegment key pgPort seg).1.map.lookup key = some conn → conn.encrypted = false →
    seg.rst = false → ∃ conn', (t.handle pg pgPort seg).1.map.lookup key = some conn' ∧
      conn'.dir role
        = (drainDirection pg ((conn.dir role).feed seg.seq seg.syn seg.payload) {}).dir ∧
      ∀ r, r ≠ role → ∃ ctx, conn'.dir r = { conn.dir r with ctx := ctx }

theorem reachesSide (pg : Decoder) {pgPort : UInt16} (t : ConnTable) {key : ConnKey} {role : Role}
    {seg : TcpSegment} (h : connKey seg pgPort = some key ∧ segmentRole seg pgPort = role) :
    ReachesSide pg pgPort t key role seg := by
  obtain ⟨hkey, rfl⟩ := h
  refine ⟨fun k hk => table_handle_lookup_ne pg t fun h => hk (Option.some.inj (h.symm.trans hkey)), ?_⟩
  intro conn hconn henc hrst
  obtain ⟨hentry, _, _⟩ := table_handle_own pg t hkey hconn
  have hdir := handle_dir_frame pg pgPort conn (t.admitSegment key pgPort seg).1.metrics seg henc
  generalize (conn.handle pg pgPort (t.admitSegment key pgPort seg).1.metrics seg).1 = conn' at *
  rw [Connection.settled, if_neg (by rw [hrst]; exact Bool.false_ne_true)] at hentry
  have hsame : ∀ r, ({ conn' with metricsClosed := conn'.metricsClosed || seg.fin } : Connection).dir r
      = conn'.dir r := fun r => by cases r <;> rfl
  refine ⟨_, hentry, ?_, ?_⟩
  · obtain ⟨ctx, hrole⟩ := hdir (segmentRole seg pgPort)
    rw [hsame, hrole, if_pos rfl]
    rfl
  · intro r hr
    obtain ⟨ctx, hrole⟩ := hdir r
    exact ⟨ctx, by rw [hsame, hrole, if_neg hr]⟩

/-! ### Whole runs -/

/-- A run over the segments of the connections `K`, in any order: how each connection fares, what is
printed for it, and what the counters add up to. -/
structure SeparateRun (pg : Decoder) (pgPort : UInt16) (connectionCap : ℕ) (K : Finset ConnKey)
    (segs : List TcpSegment) : Prop where
  alike : ∀ key ∈ K, ∃ ρ, FaresAlike key ρ (tableRun pg pgPort connectionCap segs)
    (tableRun pg pgPort connectionCap (segs.filter (ofConnection key)))
  printed : ∀ key ∈ K,
    (run (heard (ConnTable.handle pg pgPort) (ofConnection key))
      (ConnTable.withMetrics (Metrics.withLimits connectionCap)) segs).2
    = (run (ConnTable.handle pg pgPort) (ConnTable.withMetrics (Metrics.withLimits connectionCap))
      (segs.filter (ofConnection key))).2
  total : (tableRun pg pgPort connectionCap segs).metrics.total
    = ∑ key ∈ K, (tableRun pg pgPort connectionCap (segs.filter (ofConnection key))).metrics.total
  summed : Summed (tableRun pg pgPort connectionCap segs).metrics
  sides : ∀ pre seg post, segs = pre ++ seg :: post → ∀ key ∈ K,
    (Travels key.client key.server seg →
      ReachesSide pg pgPort (tableRun pg pgPort connectionCap pre) key .client seg) ∧
    (Travels key.server key.client seg →
      ReachesSide pg pgPort (tableRun pg pgPort connectionCap pre) key .server seg)

/-- **Connections do not influence each other**, however their segments are interleaved. -/
theorem connections_separate (pg : Decoder) (pgPort : UInt16) (connectionCap : ℕ) (K : Finset ConnKey)
    (hK : ∀ key ∈ K, Watched pgPort key) (segs : List TcpSegment)
    (hsegs : ∀ seg ∈ segs, ∃ key ∈ K, ofConnection key seg = true) :
    SeparateRun pg pgPort connectionCap K segs := by
  have hseparable := connTable_separable pg pgPort
  have hfilter : ∀ key ∈ K, ofConnection key = labelled (fun seg => connKey seg pgPort) key :=
    fun key hkey => (hK key hkey).ofConnection_eq
  have hrun := fun key => alike_run hseparable (alike_start key connectionCap) segs
  refine ⟨fun key hkey => ?_, fun key hkey => ?_, ?_, ?_, fun pre seg post _ key hkey => ⟨fun h => ?_, fun h => ?_⟩⟩
  · rw [hfilter key hkey]
    exact (hrun key).1.2.2
  · rw [hfilter key hkey]
    exact (hrun key).2
  · have hlabel : ∀ seg ∈ segs, ∃ key ∈ K, connKey seg pgPort = some key := by
      intro seg hseg
      obtain ⟨key, hkey, hof⟩ := hsegs seg hseg
      rw [hfilter key hkey] at hof
      exact ⟨key, hkey, of_decide_eq_true hof⟩
    have hzero : (ConnTable.withMetrics (Metrics.withLimits connectionCap)).metrics.total = 0 :=
      funext fun counter => by cases counter <;> rfl
    have hsum := measure_run hseparable (fun key => alike_start key connectionCap) hzero K hlabel
    refine hsum.trans (Finset.sum_congr rfl fun key hkey => ?_)
    rw [hfilter key hkey]
    rfl
  · exact (run_invariant (ConnTable.handle pg pgPort) (fun _ t _ => Sound t) (sound_start connectionCap)
      (fun _ _ _ seg h => table_handle_sound pg pgPort h seg) segs).summed
  · exact reachesSide pg _ (((hK key hkey).sides seg).1 h)
  · exact reachesSide pg _ (((hK key hkey).sides seg).2 h)

/-- Two clients of one server: the second connects, and is reset, while the first starts up, gets an
answer and closes. -/
def twoClients : List TcpSegment :=
  [{ clientSegment 0 [] with syn := true },
    { clientSegment 9 [0, 0, 0, 8, 0, 3] with srcPort := 40002 },
    clientSegment 1 [0, 0, 0, 8, 0, 3, 0, 0],
    { clientSegment 15 [0, 0] with srcPort := 40002 },
    serverSegment 7 [0x5a, 0, 0, 0, 5, 0x49],
    { serverSegment 3 [] with dstPort := 40002, rst := true },
    { clientSegment 9 [] with fin := true }]

theorem connections_separate_twoClients :
    SeparateRun framed 5432 10
      {⟨(.v4 0x0a000001, 40001), (.v4 0x0a000002, 5432)⟩, ⟨(.v4 0x0a000001, 40002), (.v4 0x0a000002, 5432)⟩}
      twoClients := by
  refine connections_separate framed 5432 10 _ ?_ twoClients ?_
  · decide
  · decide

end Tapgres.Flow
