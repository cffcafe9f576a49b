import Tapgres.Flow.Lifecycle
import Tapgres.Lib.Table

/-!
# The lifecycle of connections, in the table and in the metrics

An entry of the table is opened by the first segment of its key, or by a SYN that finds it closed; it is
closed by the first FIN, and removed by an RST.  The metrics count along, and keep a lifecycle for every
handle they have given out.

* `booked_admitted`, `booked_settled` — the two halves of one table step keep the two in agreement;
* `closed_stays` — a closed connection is never closed again;
* `lifecycle_exact` — so after every run the live count is that of the entries not closed, and what was
  opened and is not live has been closed, once.
-/

namespace Tapgres.Flow

open Tapgres.Net Tapgres.Pgwire Tapgres.Decode Tapgres.State Tapgres.Lib.Run Tapgres.Lib.Table

/-- The entries whose metrics are not closed. -/
def liveEntries (t : ConnTable) : ℕ := countWhere (fun conn => !conn.metricsClosed) t.map

/-- The handles ever given out whose connection has been closed. -/
def everClosed (m : Metrics) : Finset ConnId :=
  (Finset.range m.nextConnId).filter fun id => m.lifecycleOf id = some .closed

theorem mem_everClosed {m : Metrics} {id : ConnId} :
    id ∈ everClosed m ↔ id < m.nextConnId ∧ m.lifecycleOf id = some .closed := by
  rw [everClosed, Finset.mem_filter, Finset.mem_range]

/-- The lifecycle that goes with an entry's mark. -/
def markedLifecycle (metricsClosed : Bool) : ConnectionLifecycle :=
  if metricsClosed then .closed else .opened

/-- The table and the metrics agree. -/
structure Booked (t : ConnTable) : Prop where
  live : t.metrics.connsLive = liveEntries t
  total : (t.metrics.connsOpened : ℤ) = t.metrics.connsLive + (everClosed t.metrics).card
  entry : ∀ k conn, t.map.lookup k = some conn →
    t.metrics.lifecycleOf conn.stats = some (markedLifecycle conn.metricsClosed)
  distinct : ∀ k k' conn conn', t.map.lookup k = some conn → t.map.lookup k' = some conn' →
    conn.stats = conn'.stats → k = k'
  fresh : ∀ id, t.metrics.nextConnId ≤ id → t.metrics.lifecycleOf id = none

theorem booked_start (connectionCap : ℕ) : Booked (ConnTable.withMetrics (Metrics.withLimits connectionCap)) := by
  refine ⟨rfl, ?_, ?_, ?_, fun _ _ => rfl⟩
  · have hnone : everClosed (Metrics.withLimits connectionCap) = ∅ := by
      rw [everClosed, Finset.filter_eq_empty_iff]
      intro id _
      simp [Metrics.lifecycleOf, Metrics.withLimits]
    show ((0 : ℕ) : ℤ) = 0 + _
    rw [show (ConnTable.withMetrics (Metrics.withLimits connectionCap)).metrics
      = Metrics.withLimits connectionCap from rfl, hnone]
    rfl
  · intro k conn hconn
    cases hconn
  · intro k k' conn conn' hconn
    cases hconn

theorem Booked.stats_lt {t : ConnTable} (h : Booked t) {k : ConnKey} {conn : Connection}
    (hconn : t.map.lookup k = some conn) : conn.stats < t.metrics.nextConnId := by
  by_contra hle
  have hnone := h.fresh _ (Nat.le_of_not_lt hle)
  rw [h.entry k conn hconn] at hnone
  cases hnone

/-! ### The two halves of a step -/

theorem openConnection_lifecycleOf_ne (m : Metrics) (client server : SocketAddr) (b : Bool) {id : ConnId}
    (hid : id ≠ m.nextConnId) : (m.openConnection client server b).1.lifecycleOf id = m.lifecycleOf id := by
  simp [Metrics.lifecycleOf, Metrics.openConnection, hid]

theorem closeConnection_lifecycleOf_ne (m : Metrics) {conn id : ConnId} (hid : id ≠ conn) :
    (m.closeConnection conn).lifecycleOf id = m.lifecycleOf id := by
  rw [Metrics.lifecycleOf, Metrics.lifecycleOf, (closeConnection_counted m conn).other id hid]

/-- Opening closes nothing. -/
theorem everClosed_open (m : Metrics) (client server : SocketAddr) (b : Bool) :
    everClosed (m.openConnection client server b).1 = everClosed m := by
  ext id
  rw [mem_everClosed, mem_everClosed]
  show id < m.nextConnId + 1 ∧ _ ↔ _
  by_cases hid : id = m.nextConnId
  · subst hid
    rw [openConnection_lifecycleOf]
    simp
  · rw [openConnection_lifecycleOf_ne m client server b hid]
    rw [show id < m.nextConnId + 1 ↔ id < m.nextConnId from
      ⟨fun h => lt_of_le_of_ne (Nat.lt_succ_iff.mp h) hid, Nat.lt_succ_of_lt⟩]

/-- Closing an open connection adds it to those ever closed. -/
theorem everClosed_close {m : Metrics} {conn : ConnId} (hlt : conn < m.nextConnId)
    (hopen : m.lifecycleOf conn = some .opened) :
    everClosed (m.closeConnection conn) = insert conn (everClosed m) ∧ conn ∉ everClosed m := by
  refine ⟨?_, ?_⟩
  · ext id
    rw [Finset.mem_insert, mem_everClosed, mem_everClosed, closeConnection_nextConnId]
    by_cases hid : id = conn
    · subst hid
      simp [(closeConnection_of_opened hopen).2, hlt]
    · rw [closeConnection_lifecycleOf_ne m hid]
      simp [hid]
  · intro hmem
    rw [mem_everClosed, hopen] at hmem
    cases hmem.2

/-- **Admitting a segment** opens an entry where there is none, or a closed one. -/
theorem booked_admitted {t : ConnTable} (h : Booked t) (key : ConnKey) (pgPort : UInt16)
    (seg : TcpSegment) : Booked (t.admitSegment key pgPort seg).1 := by
  rcases admit_cases t key pgPort seg with ⟨_, _, _, hadm⟩ | ⟨hopen, hadm⟩
  · rwa [hadm]
  rw [hadm]
  refine ⟨?_, ?_, ?_, ?_, ?_⟩
  · -- the entry replaced, if any, was closed
    have hgone : share (fun conn : Connection => !conn.metricsClosed) (t.map.lookup key) = 0 := by
      rw [ConnTable.shouldOpen] at hopen
      cases hlook : t.map.lookup key with
      | none => rfl
      | some conn =>
        rw [hlook] at hopen
        have hclosed : conn.metricsClosed = true := (Bool.and_eq_true_iff.mp hopen).2
        rw [share_some, hclosed]
        rfl
    have hcount := countWhere_insert (fun conn : Connection => !conn.metricsClosed) t.map key
      (Connection.new t.metrics.nextConnId (socketAddr key.client))
    rw [hgone] at hcount
    have hlive := h.live
    rw [liveEntries] at hlive
    show t.metrics.connsLive + 1 = (countWhere _ (t.map.insert key _) : ℕ)
    rw [hlive]
    have hnew : share (fun conn : Connection => !conn.metricsClosed)
      (some (Connection.new t.metrics.nextConnId (socketAddr key.client))) = 1 := rfl
    rw [hnew] at hcount
    exact_mod_cast hcount.symm
  · have htotal := h.total
    have hclosed := everClosed_open t.metrics (socketAddr key.client) (socketAddr key.server) false
    show ((t.metrics.connsOpened + 1 : ℕ) : ℤ) = t.metrics.connsLive + 1
      + (everClosed (t.metrics.openConnection _ _ _).1).card
    rw [hclosed]
    push_cast
    omega
  · intro k conn hconn
    rcases openEntry_cases hconn with ⟨rfl, rfl⟩ | ⟨_, hold⟩
    · exact openConnection_lifecycleOf t.metrics _ _ false
    · have := openConnection_lifecycleOf_ne t.metrics (socketAddr key.client) (socketAddr key.server) false
        (h.stats_lt hold).ne
      exact this.trans (h.entry k conn hold)
  · exact openEntry_distinct h.distinct h.stats_lt key
  · intro id hid
    have hlt : t.metrics.nextConnId + 1 ≤ id := hid
    exact (openConnection_lifecycleOf_ne t.metrics _ _ false (Nat.lt_of_succ_le hlt).ne').trans
      (h.fresh id (Nat.le_of_succ_le hlt))

/-- The metrics have opened and closed the same connections. -/
structure SameBooks (m m' : Metrics) : Prop where
  opened : m'.connsOpened = m.connsOpened
  live : m'.connsLive = m.connsLive
  next : m'.nextConnId = m.nextConnId
  lifecycle : ∀ id, m'.lifecycleOf id = m.lifecycleOf id

theorem SameBooks.everClosed {m m' : Metrics} (h : SameBooks m m') : everClosed m' = everClosed m := by
  ext id
  rw [mem_everClosed, mem_everClosed, h.next, h.lifecycle]

/-- Handling a segment opens and closes nothing. -/
theorem handle_sameBooks (pg : Decoder) (pgPort : UInt16) (conn : Connection) (m : Metrics)
    (seg : TcpSegment) : SameBooks m (conn.handle pg pgPort m seg).2.1 := by
  obtain ⟨_, _, hopened, hlive, hlife⟩ := handle_kept pg pgPort conn m seg
  refine ⟨hopened, hlive, ?_, hlife⟩
  cases henc : conn.encrypted with
  | true => rw [handle_encrypted pg pgPort m seg henc]
  | false =>
    rw [handle_metrics pg pgPort conn m seg henc]
    dsimp only
    split <;> split <;> simp

/-- What an entry adds to the live ones. -/
def liveShare (metricsClosed : Bool) : ℕ := if metricsClosed then 0 else 1

theorem share_conn (conn : Connection) :
    share (fun conn : Connection => !conn.metricsClosed) (some conn) = liveShare conn.metricsClosed := by
  rw [share_some, liveShare]
  cases conn.metricsClosed <;> rfl

/-- What closing does to the books: nothing, if the connection was closed before. -/
theorem close_books {m : Metrics} {conn : ConnId} {closed : Bool} (hlt : conn < m.nextConnId)
    (hlife : m.lifecycleOf conn = some (markedLifecycle closed)) :
    (m.closeConnection conn).connsLive = m.connsLive - liveShare closed ∧
      (everClosed (m.closeConnection conn)).card = (everClosed m).card + liveShare closed ∧
      (m.closeConnection conn).lifecycleOf conn = some .closed := by
  cases closed with
  | true =>
    rw [closeConnection_of_closed hlife]
    exact ⟨(sub_zero _).symm, rfl, hlife⟩
  | false =>
    obtain ⟨hlive, hclosed⟩ := closeConnection_of_opened hlife
    obtain ⟨hever, hnot⟩ := everClosed_close hlt hlife
    exact ⟨hlive, by rw [hever, Finset.card_insert_of_notMem hnot]; rfl, hclosed⟩

/-- **Settling a segment** keeps the entry, marks it, or removes it. -/
theorem booked_settled {t t' : ConnTable} (h : Booked t) {key : ConnKey} {conn conn' : Connection}
    {m : Metrics} {seg : TcpSegment} {closing : List Event} (hconn : t.map.lookup key = some conn)
    (hsame : SameBooks t.metrics m) (hstats : conn'.stats = conn.stats)
    (hmark : conn'.metricsClosed = conn.metricsClosed)
    (hsettled : Settled t key conn' m seg t' closing) : Booked t' := by
  have hlife : m.lifecycleOf conn'.stats = some (markedLifecycle conn'.metricsClosed) := by
    rw [hsame.lifecycle, hstats, hmark]
    exact h.entry key conn hconn
  have hlt : conn'.stats < m.nextConnId := by
    rw [hsame.next, hstats]
    exact h.stats_lt hconn
  obtain ⟨hlive', hcard', hclosed'⟩ := close_books hlt hlife
  have hopened' := closeConnection_connsOpened m conn'.stats
  have hlive := h.live
  have htotal := h.total
  rw [liveEntries] at hlive
  rw [← hsame.live] at hlive
  rw [← hsame.opened, ← hsame.live, ← hsame.everClosed] at htotal
  -- the entry as it was leaves the count, and the one put in its place joins it
  have herase := countWhere_erase (fun conn : Connection => !conn.metricsClosed) t.map key
  have hinsert := countWhere_insert (fun conn : Connection => !conn.metricsClosed) t.map key
  rw [hconn, share_conn, ← hmark] at herase
  simp only [hconn, share_conn, ← hmark] at hinsert
  -- the other entries, and their handles
  have hothers : ∀ k c, k ≠ key → t.map.lookup k = some c →
      c.stats ≠ conn'.stats ∧ m.lifecycleOf c.stats = some (markedLifecycle c.metricsClosed) := by
    intro k c hk hc
    refine ⟨fun heq => hk (h.distinct k key c conn hc hconn (heq.trans hstats)), ?_⟩
    rw [hsame.lifecycle]
    exact h.entry k c hc
  have hdistinct : DistinctHandles t' := settled_distinct h.distinct hconn hstats hsettled
  have hfresh : ∀ id, m.nextConnId ≤ id → m.lifecycleOf id = none := by
    intro id hid
    rw [hsame.lifecycle]
    exact h.fresh id (hsame.next ▸ hid)
  have hfresh' : ∀ id, (m.closeConnection conn'.stats).nextConnId ≤ id →
      (m.closeConnection conn'.stats).lifecycleOf id = none := by
    intro id hid
    rw [closeConnection_nextConnId] at hid
    rw [closeConnection_lifecycleOf_ne m (Nat.lt_of_lt_of_le hlt hid).ne']
    exact hfresh id hid
  have htotal' : ((m.closeConnection conn'.stats).connsOpened : ℤ)
      = (m.closeConnection conn'.stats).connsLive + (everClosed (m.closeConnection conn'.stats)).card := by
    omega
  cases hsettled with
  | reset rst =>
    refine ⟨?_, htotal', ?_, hdistinct, hfresh'⟩
    · show (m.closeConnection conn'.stats).connsLive = (countWhere _ (t.map.erase key) : ℕ)
      omega
    · intro k c hc
      have hk : k ≠ key := by
        rintro rfl
        simp at hc
      obtain ⟨hne, hl⟩ := hothers k c hk ((AList.lookup_erase_ne hk).symm.trans hc)
      exact (closeConnection_lifecycleOf_ne m hne).trans hl
  | closed rst fin live =>
    have hcount := hinsert { conn' with metricsClosed := true }
    refine ⟨?_, htotal', ?_, hdistinct, hfresh'⟩
    · show (m.closeConnection conn'.stats).connsLive = (countWhere _ (t.map.insert key _) : ℕ)
      rw [show liveShare true = 0 from rfl] at hcount
      omega
    · intro k c hc
      by_cases hk : k = key
      · subst hk
        rw [AList.lookup_insert] at hc
        obtain rfl := Option.some.inj hc
        exact hclosed'
      · obtain ⟨hne, hl⟩ := hothers k c hk ((AList.lookup_insert_ne hk).symm.trans hc)
        exact (closeConnection_lifecycleOf_ne m hne).trans hl
  | kept rst fin =>
    have hcount := hinsert conn'
    refine ⟨?_, htotal, ?_, hdistinct, hfresh⟩
    · show m.connsLive = (countWhere _ (t.map.insert key _) : ℕ)
      omega
    · intro k c hc
      by_cases hk : k = key
      · subst hk
        rw [AList.lookup_insert] at hc
        obtain rfl := Option.some.inj hc
        exact hlife
      · exact (hothers k c hk ((AList.lookup_insert_ne hk).symm.trans hc)).2

/-- **The step lemma.** -/
theorem table_handle_booked (pg : Decoder) (pgPort : UInt16) {t : ConnTable} (h : Booked t)
    (seg : TcpSegment) : Booked (t.handle pg pgPort seg).1 := by
  cases hkey : connKey seg pgPort with
  | none => rwa [table_handle_none pg t hkey]
  | some key =>
    obtain ⟨conn, hconn⟩ := admit_lookup t key pgPort seg
    obtain ⟨closing, _, hsettled⟩ := table_handle_cases pg t hkey hconn
    obtain ⟨hstats, hmark, _⟩ := handle_kept pg pgPort conn (t.admitSegment key pgPort seg).1.metrics seg
    exact booked_settled (booked_admitted h key pgPort seg) hconn (handle_sameBooks pg pgPort conn _ seg)
      hstats hmark hsettled

theorem tableRun_booked (pg : Decoder) (pgPort : UInt16) (connectionCap : ℕ) (segs : List TcpSegment) :
    Booked (tableRun pg pgPort connectionCap segs) :=
  run_invariant (ConnTable.handle pg pgPort) (fun _ t _ => Booked t) (booked_start connectionCap)
    (fun _ _ _ seg h => table_handle_booked pg pgPort h seg) segs

/-! ### Closed once -/

theorem tableRun_concat (pg : Decoder) (pgPort : UInt16) (connectionCap : ℕ) (segs : List TcpSegment)
    (seg : TcpSegment) :
    tableRun pg pgPort connectionCap (segs ++ [seg])
      = ((tableRun pg pgPort connectionCap segs).handle pg pgPort seg).1 := by
  rw [tableRun, run_append, run_singleton]
  rfl

/-- The segment closes the connection `id`. -/
def Closes (pg : Decoder) (pgPort : UInt16) (t : ConnTable) (seg : TcpSegment) (id : ConnId) : Prop :=
  t.metrics.lifecycleOf id ≠ some .closed ∧
    (t.handle pg pgPort seg).1.metrics.lifecycleOf id = some .closed

/-- A closed connection stays closed. -/
theorem closed_stays (pg : Decoder) (pgPort : UInt16) {t : ConnTable} (h : Booked t) (seg : TcpSegment)
    {id : ConnId} (hclosed : t.metrics.lifecycleOf id = some .closed) :
    (t.handle pg pgPort seg).1.metrics.lifecycleOf id = some .closed := by
  cases hkey : connKey seg pgPort with
  | none => rwa [table_handle_none pg t hkey]
  | some key =>
    obtain ⟨conn, hconn⟩ := admit_lookup t key pgPort seg
    obtain ⟨closing, _, hsettled⟩ := table_handle_cases pg t hkey hconn
    have hadmitted : (t.admitSegment key pgPort seg).1.metrics.lifecycleOf id = some .closed := by
      rcases admit_cases t key pgPort seg with ⟨_, _, _, hadm⟩ | ⟨_, hadm⟩
      · rwa [hadm]
      · have hne : id ≠ t.metrics.nextConnId := by
          rintro rfl
          rw [h.fresh _ (le_refl _)] at hclosed
          cases hclosed
        rw [hadm]
        exact (openConnection_lifecycleOf_ne t.metrics _ _ false hne).trans hclosed
    have hhandled := (handle_sameBooks pg pgPort conn (t.admitSegment key pgPort seg).1.metrics seg).lifecycle id
    rw [hadmitted] at hhandled
    have hclosing : ∀ c, ((conn.handle pg pgPort (t.admitSegment key pgPort seg).1.metrics seg).2.1.closeConnection
        c).lifecycleOf id = some .closed := by
      intro c
      by_cases hid : id = c
      · rw [← hid, closeConnection_of_closed hhandled, hhandled]
      · rw [closeConnection_lifecycleOf_ne _ hid, hhandled]
    generalize (t.handle pg pgPort seg).1 = t' at hsettled
    cases hsettled with
    | reset rst => exact hclosing _
    | closed rst fin live => exact hclosing _
    | kept rst fin => exact hhandled

theorem tableRun_closed_stays (pg : Decoder) (pgPort : UInt16) (connectionCap : ℕ)
    (segs more : List TcpSegment) {id : ConnId}
    (hclosed : (tableRun pg pgPort connectionCap segs).metrics.lifecycleOf id = some .closed) :
    (tableRun pg pgPort connectionCap (segs ++ more)).metrics.lifecycleOf id = some .closed := by
  induction more using List.reverseRecOn with
  | nil => rwa [List.append_nil]
  | append_singleton more seg ih =>
    rw [← List.append_assoc, tableRun_concat]
    exact closed_stays pg pgPort (tableRun_booked pg pgPort connectionCap _) seg ih

/-! ### Opened afresh -/

/-- A SYN on the closed entry `old` is handled by a fresh connection, under a handle never given out. -/
structure Reopened (pg : Decoder) (pgPort : UInt16) (t : ConnTable) (key : ConnKey) (old : Connection)
    (seg : TcpSegment) : Prop where
  newId : t.metrics.lifecycleOf t.metrics.nextConnId = none ∧ old.stats < t.metrics.nextConnId
  entry : (t.handle pg pgPort seg).1.map.lookup key =
    if seg.rst then none
    else some { ((Connection.new t.metrics.nextConnId (socketAddr key.client)).handle pg pgPort
      (t.openEntry key).metrics seg).1 with metricsClosed := seg.fin }

theorem syn_reopens (pg : Decoder) {pgPort : UInt16} {t : ConnTable} (h : Booked t) {key : ConnKey}
    {seg : TcpSegment} (hkey : connKey seg pgPort = some key) {old : Connection}
    (hold : t.map.lookup key = some old) (hclosed : old.metricsClosed = true) (hsyn : seg.syn = true) :
    Reopened pg pgPort t key old seg := by
  refine ⟨⟨h.fresh _ (le_refl _), h.stats_lt hold⟩, ?_⟩
  have hadm : (t.admitSegment key pgPort seg).1 = t.openEntry key := by
    rw [ConnTable.admitSegment, ConnTable.shouldOpen, hold]
    simp [hsyn, hclosed]
  obtain ⟨conn, hconn⟩ := admit_lookup t key pgPort seg
  obtain ⟨closing, _, hsettled⟩ := table_handle_cases pg t hkey hconn
  rw [hadm] at hconn hsettled
  obtain rfl := Option.some.inj ((openEntry_lookup t key).symm.trans hconn)
  obtain ⟨_, hmark, _⟩ := handle_kept pg pgPort
    (Connection.new t.metrics.nextConnId (socketAddr key.client)) (t.openEntry key).metrics seg
  generalize (t.handle pg pgPort seg).1 = t' at hsettled
  cases hsettled with
  | reset rst => simp [rst]
  | closed rst fin live =>
    rw [rst, fin]
    exact AList.lookup_insert _
  | kept rst fin =>
    have hfin : seg.fin = false := by
      rw [hmark] at fin
      apply Bool.eq_false_iff.mpr
      intro hfin
      cases fin hfin
    rw [rst, hfin]
    refine (AList.lookup_insert _).trans (congrArg some ?_)
    rw [show false = _ from hmark.symm]

/-! ### Whole runs -/

/-- The books of a run over `segs`.  A closing takes one off the live count, and is the last thing a call
does to it: as the count is not negative after the call, it was positive before it was taken down. -/
structure LifecycleExact (pg : Decoder) (pgPort : UInt16) (connectionCap : ℕ) (segs : List TcpSegment) :
    Prop where
  live : (tableRun pg pgPort connectionCap segs).metrics.connsLive
    = liveEntries (tableRun pg pgPort connectionCap segs)
  noUnderflow : 0 ≤ (tableRun pg pgPort connectionCap segs).metrics.connsLive
  marked : ∀ k conn, (tableRun pg pgPort connectionCap segs).map.lookup k = some conn →
    (conn.metricsClosed = true ↔
      (tableRun pg pgPort connectionCap segs).metrics.lifecycleOf conn.stats = some .closed)
  closed : ((tableRun pg pgPort connectionCap segs).metrics.connsOpened : ℤ)
      - (tableRun pg pgPort connectionCap segs).metrics.connsLive
    = (everClosed (tableRun pg pgPort connectionCap segs).metrics).card
  once : ∀ pre a mid b post id, segs = pre ++ a :: (mid ++ b :: post) →
    Closes pg pgPort (tableRun pg pgPort connectionCap pre) a id →
    ¬Closes pg pgPort (tableRun pg pgPort connectionCap (pre ++ a :: mid)) b id
  reopened : ∀ seg key old, connKey seg pgPort = some key →
    (tableRun pg pgPort connectionCap segs).map.lookup key = some old → old.metricsClosed = true →
    seg.syn = true → Reopened pg pgPort (tableRun pg pgPort connectionCap segs) key old seg

/-- **The lifecycle of connections is kept exactly**, whatever the segments. -/
theorem lifecycle_exact (pg : Decoder) (pgPort : UInt16) (connectionCap : ℕ) (segs : List TcpSegment) :
    LifecycleExact pg pgPort connectionCap segs := by
  have h := tableRun_booked pg pgPort connectionCap segs
  refine ⟨h.live, ?_, ?_, ?_, ?_, ?_⟩
  · rw [h.live]
    exact Int.natCast_nonneg _
  · intro k conn hconn
    rw [h.entry k conn hconn, markedLifecycle]
    cases conn.metricsClosed <;> simp
  · have := h.total
    omega
  · rintro pre a mid b post id rfl ⟨_, hclosed⟩ ⟨hopen, _⟩
    apply hopen
    rw [← tableRun_concat] at hclosed
    have hstays := tableRun_closed_stays pg pgPort connectionCap (pre ++ [a]) mid hclosed
    rwa [List.append_assoc] at hstays
  · intro seg key old hkey hold hclosed hsyn
    exact syn_reopens pg h hkey hold hclosed hsyn

end Tapgres.Flow
