import Tapgres.Lib.Run
import Tapgres.State.Records

/-!
# The registry of connection records

The store under any sequence of its operations.  A run writes the handles in the order in which their
connections are closed; the registry is followed against this list of closings:

* `evict_spec` — the eviction loop takes the oldest closed records, as many as it needs;
* `Registered` — the closings are the evicted handles followed by the `closed` deque, and `entries` holds
  every handle that is not evicted;
* `registry_exact` — what this says of every run: no open connection is ever evicted, and of the closed
  ones the newest are retained;
* `cap_holds_iff` — the cap holds in every state of a run exactly when no connection is opened while
  the cap is used up and a closed record is retained; `open_exceeds_cap` is a run in which one is.
-/

namespace Tapgres.State

open Tapgres.Net Tapgres.Lib.Run

/-- The operations of the store. -/
inductive RegistryOp where
  | opened (client server : SocketAddr) (encrypted : Bool)
  | closed (conn : ConnId)
  | recorded (conn : ConnId) (direction : TrafficDirection) (count bytes : ℕ)
  | encrypted (conn : ConnId) (encrypted : Bool)

/-- One operation, with the handle whose connection it closed. -/
def registryStep (m : Metrics) : RegistryOp → Metrics × List ConnId
  | .opened client server encrypted => ((m.openConnection client server encrypted).1, [])
  | .closed conn =>
    (m.closeConnection conn, if m.lifecycleOf conn = some .opened then [conn] else [])
  | .recorded conn direction count bytes => (m.recordMessages conn direction count bytes, [])
  | .encrypted conn encrypted => (m.setEncrypted conn encrypted, [])

/-- The handles opened and not yet closed. -/
def Metrics.openIds (m : Metrics) : Finset ConnId :=
  (Finset.range m.nextConnId).filter fun id => m.lifecycleOf id = some .opened

/-- **The registry keeps exactly the right records**, after the connections in `closings` have been
closed in this order. -/
structure Exact (closings : List ConnId) (m : Metrics) : Prop where
  /-- The closings are the connections that are closed, each once. -/
  isClosed : ∀ id, id ∈ closings ↔ m.lifecycleOf id = some .closed
  closedOnce : closings.Nodup
  /-- `conns_live` counts the open connections, so it never underflows. -/
  live : m.connsLive = m.openIds.card
  openRetained : ∀ id, m.lifecycleOf id = some .opened → id ∈ m.entries
  /-- The deque lists the closed connections still retained, in closing order. -/
  closedOrder : m.closed = closings.filter fun id => id ∈ m.entries
  /-- The records that are gone are those of the connections closed first. -/
  evictedOldest : ∃ evicted, closings = evicted ++ m.closed ∧
    ∀ id, m.lifecycleOf id ≠ none → (id ∉ m.entries ↔ id ∈ evicted)

/-! ### The eviction loop -/

/-- **The eviction loop** takes handles from the front, until the cap is met or none is left. -/
theorem evict_spec (cap : ℕ) (entries : Finset ConnId) (closed : List ConnId) :
    ∃ taken rest, closed = taken ++ rest ∧
      evict cap entries closed = (entries \ taken.toFinset, rest) ∧
      (rest = [] ∨ (entries \ taken.toFinset).card ≤ cap) := by
  induction closed generalizing entries with
  | nil => exact ⟨[], [], rfl, by simp [evict], .inl rfl⟩
  | cons id closed ih =>
    rw [evict]
    split
    · obtain ⟨taken, rest, hclosed, hevict, hstop⟩ := ih (entries.erase id)
      have hsdiff : entries.erase id \ taken.toFinset = entries \ (id :: taken).toFinset := by
        ext x
        simp only [Finset.mem_sdiff, Finset.mem_erase, List.toFinset_cons, Finset.mem_insert]
        tauto
      rw [hsdiff] at hevict hstop
      exact ⟨id :: taken, rest, by rw [hclosed]; rfl, hevict, hstop⟩
    · rename_i hle
      exact ⟨[], id :: closed, rfl, by simp, .inr (by simpa using hle)⟩

/-! ### What each operation does to the lifecycles -/

theorem openConnection_lifecycle (m : Metrics) (client server : SocketAddr) (b : Bool) (id : ConnId) :
    (m.openConnection client server b).1.lifecycleOf id
      = if id = m.nextConnId then some .opened else m.lifecycleOf id := by
  simp only [Metrics.lifecycleOf, Metrics.openConnection]
  split
  · rfl
  · rfl

theorem closeConnection_lifecycle {m : Metrics} {conn : ConnId}
    (h : m.lifecycleOf conn = some .opened) (id : ConnId) :
    (m.closeConnection conn).lifecycleOf id
      = if id = conn then some .closed else m.lifecycleOf id := by
  have harcs : (m.closeConnection conn).arcs
      = (m.update conn fun s => { s with lifecycle := .closed }).arcs := by
    rw [Metrics.lifecycleOf] at h
    rw [Metrics.closeConnection, h]
  rw [Metrics.lifecycleOf, harcs, Metrics.update]
  dsimp only
  split
  · rename_i hid
    obtain ⟨s, hs, _⟩ := Option.map_eq_some_iff.mp h
    rw [hid, hs]
    rfl
  · rfl

/-- Closing a connection that is not open does nothing. -/
theorem closeConnection_of_not_opened {m : Metrics} {conn : ConnId}
    (h : m.lifecycleOf conn ≠ some .opened) : m.closeConnection conn = m := by
  rw [Metrics.closeConnection]
  split
  · rename_i hopen
    exact absurd hopen h
  · rfl

/-- Closing an open connection queues its handle, and evicts from the front. -/
theorem closeConnection_registry {m : Metrics} {conn : ConnId}
    (h : m.lifecycleOf conn = some .opened) :
    ((m.closeConnection conn).entries, (m.closeConnection conn).closed)
      = evict m.connectionCap m.entries (m.closed ++ [conn]) := by
  rw [Metrics.lifecycleOf] at h
  rw [Metrics.closeConnection, h]
  rfl

/-! ### The invariant -/

/-- The closings are the evicted handles and then the `closed` deque; `entries` holds every handle ever
given out that is not evicted. -/
structure Registered (closings : List ConnId) (m : Metrics) : Prop where
  known : ∀ id, m.lifecycleOf id ≠ none → id < m.nextConnId
  isClosed : ∀ id, id ∈ closings ↔ m.lifecycleOf id = some .closed
  once : closings.Nodup
  live : m.connsLive = m.openIds.card
  retained : ∃ evicted, closings = evicted ++ m.closed ∧
    ∀ id, id ∈ m.entries ↔ m.lifecycleOf id ≠ none ∧ id ∉ evicted

theorem Registered.mem_openIds {closings : List ConnId} {m : Metrics} (h : Registered closings m)
    (id : ConnId) : id ∈ m.openIds ↔ m.lifecycleOf id = some .opened := by
  rw [Metrics.openIds, Finset.mem_filter, Finset.mem_range]
  constructor
  · exact fun hid => hid.2
  · intro hid
    exact ⟨h.known id (by rw [hid]; simp), hid⟩

/-- An operation that moves no lifecycle and leaves the registry alone keeps the invariant. -/
theorem Registered.frame {closings : List ConnId} {m m' : Metrics} (h : Registered closings m)
    (hnext : m'.nextConnId = m.nextConnId) (hlife : ∀ id, m'.lifecycleOf id = m.lifecycleOf id)
    (hlive : m'.connsLive = m.connsLive) (hentries : m'.entries = m.entries)
    (hclosed : m'.closed = m.closed) : Registered closings m' := by
  have hopen : m'.openIds = m.openIds := by
    simp only [Metrics.openIds, hnext, hlife]
  refine ⟨?_, ?_, h.once, ?_, ?_⟩
  · intro id hid
    rw [hlife] at hid
    rw [hnext]
    exact h.known id hid
  · intro id
    rw [hlife]
    exact h.isClosed id
  · rw [hlive, hopen]
    exact h.live
  · obtain ⟨evicted, hcut, hmem⟩ := h.retained
    refine ⟨evicted, by rw [hclosed]; exact hcut, ?_⟩
    intro id
    rw [hentries, hlife]
    exact hmem id

/-- The next handle has not been given out. -/
theorem Registered.next_fresh {closings : List ConnId} {m : Metrics} (h : Registered closings m) :
    m.lifecycleOf m.nextConnId = none := by
  by_contra hne
  exact absurd (h.known _ hne) (lt_irrefl _)

theorem Registered.openIds_open {closings : List ConnId} {m : Metrics} (h : Registered closings m)
    (client server : SocketAddr) (b : Bool) :
    (m.openConnection client server b).1.openIds = insert m.nextConnId m.openIds := by
  ext id
  rw [Finset.mem_insert, Metrics.openIds, Finset.mem_filter, Finset.mem_range,
    openConnection_lifecycle, h.mem_openIds]
  split
  · rename_i hid
    rw [hid]
    exact ⟨fun _ => .inl rfl, fun _ => ⟨Nat.lt_succ_self _, rfl⟩⟩
  · rename_i hid
    constructor
    · exact fun hmem => .inr hmem.2
    · rintro (hmem | hmem)
      · exact absurd hmem hid
      · exact ⟨Nat.lt_succ_of_lt (h.known id (by rw [hmem]; simp)), hmem⟩

/-- **Opening** adds a fresh handle to the entries and to the open ones. -/
theorem Registered.opened {closings : List ConnId} {m : Metrics} (h : Registered closings m)
    (client server : SocketAddr) (b : Bool) :
    Registered closings (m.openConnection client server b).1 ∧
      (m.openConnection client server b).1.openIds = insert m.nextConnId m.openIds ∧
      m.nextConnId ∉ m.openIds ∧ m.nextConnId ∉ m.entries := by
  have hfresh := h.next_fresh
  have hopen := h.openIds_open client server b
  have hnotOpen : m.nextConnId ∉ m.openIds := by
    rw [h.mem_openIds, hfresh]
    simp
  obtain ⟨evicted, hcut, hmem⟩ := h.retained
  have hnotEntry : m.nextConnId ∉ m.entries := by
    rw [hmem]
    exact fun hboth => hboth.1 hfresh
  refine ⟨⟨?_, ?_, h.once, ?_, evicted, hcut, ?_⟩, hopen, hnotOpen, hnotEntry⟩
  · intro id
    rw [openConnection_lifecycle]
    split
    · rename_i hid
      intro _
      rw [hid]
      exact Nat.lt_succ_self _
    · intro hid
      exact Nat.lt_succ_of_lt (h.known id hid)
  · intro id
    rw [openConnection_lifecycle, h.isClosed]
    split
    · rename_i hid
      rw [hid, hfresh]
      simp
    · exact Iff.rfl
  · rw [hopen, Finset.card_insert_of_notMem hnotOpen]
    show m.connsLive + 1 = _
    rw [h.live]
    push_cast
    rfl
  · intro id
    rw [openConnection_lifecycle]
    show id ∈ insert m.nextConnId m.entries ↔ _
    rw [Finset.mem_insert, hmem]
    split
    · rename_i hid
      have hnotEvicted : id ∉ evicted := by
        intro hin
        have hclosed := (h.isClosed id).mp (by rw [hcut]; exact List.mem_append_left _ hin)
        rw [hid, hfresh] at hclosed
        cases hclosed
      exact ⟨fun _ => ⟨by simp, hnotEvicted⟩, fun _ => .inl hid⟩
    · rename_i hid
      exact ⟨fun hor => hor.resolve_left hid, .inr⟩

/-- **Closing** an open connection appends it to the closings and evicts from the front of the deque;
afterwards the cap holds, or no closed record is left. -/
theorem Registered.closed {closings : List ConnId} {m : Metrics} (h : Registered closings m)
    {conn : ConnId} (hopen : m.lifecycleOf conn = some .opened) :
    Registered (closings ++ [conn]) (m.closeConnection conn) ∧
      ((m.closeConnection conn).closed = [] ∨
        (m.closeConnection conn).entries.card ≤ m.connectionCap) := by
  obtain ⟨taken, rest, hqueue, hevict, hstop⟩ := evict_spec m.connectionCap m.entries (m.closed ++ [conn])
  have hreg := (closeConnection_registry hopen).trans hevict
  obtain ⟨hentries, hclosed⟩ := Prod.mk.inj hreg
  obtain ⟨evicted, hcut, hmem⟩ := h.retained
  have hids : (m.closeConnection conn).openIds = m.openIds.erase conn := by
    ext id
    rw [Finset.mem_erase, Metrics.openIds, Finset.mem_filter, Finset.mem_range,
      closeConnection_nextConnId, closeConnection_lifecycle hopen, h.mem_openIds]
    split
    · rename_i hid
      simp [hid]
    · rename_i hid
      constructor
      · exact fun hmem => ⟨hid, hmem.2⟩
      · exact fun hmem => ⟨h.known id (by rw [hmem.2]; simp), hmem.2⟩
  refine ⟨⟨?_, ?_, ?_, ?_, evicted ++ taken, ?_, ?_⟩, ?_⟩
  · intro id
    rw [closeConnection_lifecycle hopen, closeConnection_nextConnId]
    split
    · rename_i hid
      intro _
      exact h.known id (by rw [hid, hopen]; simp)
    · exact h.known id
  · intro id
    rw [List.mem_append, List.mem_singleton, closeConnection_lifecycle hopen, h.isClosed]
    split
    · rename_i hid
      simp [hid]
    · rename_i hid
      simp [hid]
  · rw [List.nodup_append]
    refine ⟨h.once, List.nodup_singleton _, ?_⟩
    intro id hid id' hid' heq
    rw [List.mem_singleton] at hid'
    rw [h.isClosed, heq, hid', hopen] at hid
    cases hid
  · rw [hids, (closeConnection_of_opened hopen).1, h.live]
    have hcard := Finset.card_erase_add_one ((h.mem_openIds conn).mpr hopen)
    omega
  · rw [hclosed, hcut, List.append_assoc, List.append_assoc, hqueue]
  · intro id
    rw [hentries, Finset.mem_sdiff, List.mem_toFinset, List.mem_append, hmem,
      closeConnection_lifecycle hopen]
    split
    · rename_i hid
      rw [hid, hopen]
      simp only [ne_eq, reduceCtorEq, not_false_eq_true, true_and]
      tauto
    · tauto
  · rw [hclosed, hentries]
    exact hstop

/-- **The step lemma.** -/
theorem registryStep_registered {closings : List ConnId} {m : Metrics} (h : Registered closings m)
    (op : RegistryOp) :
    Registered (closings ++ (registryStep m op).2) (registryStep m op).1 := by
  cases op with
  | opened client server b =>
    rw [registryStep, List.append_nil]
    exact (h.opened client server b).1
  | closed conn =>
    by_cases hopen : m.lifecycleOf conn = some .opened
    · rw [registryStep, if_pos hopen]
      exact (h.closed hopen).1
    · rw [registryStep, if_neg hopen, List.append_nil, closeConnection_of_not_opened hopen]
      exact h
  | recorded conn direction count bytes =>
    rw [registryStep, List.append_nil]
    refine h.frame ?_ ?_ ?_ ?_ ?_
    · exact recordMessages_nextConnId m conn direction count bytes
    · exact fun id => recordMessages_lifecycleOf m conn id direction count bytes
    · exact recordMessages_connsLive m conn direction count bytes
    · cases direction <;> rfl
    · cases direction <;> rfl
  | encrypted conn b =>
    rw [registryStep, List.append_nil]
    exact h.frame rfl (fun id => setEncrypted_lifecycleOf m conn id b) rfl rfl rfl

theorem registered_run (cap : ℕ) (ops : List RegistryOp) :
    Registered (run registryStep (Metrics.withLimits cap) ops).2
      (run registryStep (Metrics.withLimits cap) ops).1 := by
  refine run_invariant registryStep (fun _ m closings => Registered closings m) ?_
    (fun _ _ _ op h => registryStep_registered h op) ops
  refine ⟨?_, ?_, List.nodup_nil, rfl, [], rfl, ?_⟩
  · intro id hid
    exact absurd rfl hid
  · intro id
    simp [Metrics.lifecycleOf, Metrics.withLimits]
  · intro id
    simp [Metrics.lifecycleOf, Metrics.withLimits]

theorem Registered.exact {closings : List ConnId} {m : Metrics} (h : Registered closings m) :
    Exact closings m := by
  obtain ⟨evicted, hcut, hmem⟩ := h.retained
  have hnodup : (evicted ++ m.closed).Nodup := by
    rw [← hcut]
    exact h.once
  refine ⟨h.isClosed, h.once, h.live, ?_, ?_, evicted, hcut, ?_⟩
  · intro id hid
    rw [hmem]
    refine ⟨by rw [hid]; simp, ?_⟩
    intro hin
    have hclosed := (h.isClosed id).mp (by rw [hcut]; exact List.mem_append_left _ hin)
    rw [hid] at hclosed
    cases hclosed
  · rw [hcut, List.filter_append]
    have hgone : (evicted.filter fun id => id ∈ m.entries) = [] := by
      rw [List.filter_eq_nil_iff]
      intro id hid
      rw [decide_eq_true_iff, hmem]
      exact fun hboth => hboth.2 hid
    have hkept : (m.closed.filter fun id => id ∈ m.entries) = m.closed := by
      rw [List.filter_eq_self]
      intro id hid
      rw [decide_eq_true_iff, hmem]
      constructor
      · rw [(h.isClosed id).mp (by rw [hcut]; exact List.mem_append_right _ hid)]
        simp
      · exact fun hin => (List.nodup_append.mp hnodup).2.2 id hin id hid rfl
    rw [hgone, hkept, List.nil_append]
  · intro id hid
    rw [hmem]
    tauto

/-! ### Every run -/

/-- Every aggregate counter but `conns_live` only grows. -/
theorem registryStep_total_le (m : Metrics) (op : RegistryOp) {counter : Counter}
    (hlive : counter ≠ .connsLive) : m.total counter ≤ (registryStep m op).1.total counter := by
  cases op with
  | opened client server b =>
    cases counter <;> simp_all [registryStep, Metrics.openConnection, Metrics.total]
  | closed conn =>
    rw [registryStep, Metrics.closeConnection]
    split
    · cases counter with
      | connsLive => exact absurd rfl hlive
      | _ => exact le_refl _
    · exact le_refl _
  | recorded conn direction count bytes =>
    cases direction <;> cases counter <;>
      simp [registryStep, Metrics.recordMessages, Metrics.update, Metrics.total]
  | encrypted conn b =>
    cases counter <;> exact le_refl _

/-- **The registry is exact in every run**, and no aggregate counter but `conns_live` ever decreases. -/
theorem registry_exact (cap : ℕ) (ops : List RegistryOp) :
    Exact (run registryStep (Metrics.withLimits cap) ops).2
        (run registryStep (Metrics.withLimits cap) ops).1 ∧
      ∀ past rest, ops = past ++ rest → ∀ counter, counter ≠ Counter.connsLive →
        (run registryStep (Metrics.withLimits cap) past).1.total counter
          ≤ (run registryStep (Metrics.withLimits cap) ops).1.total counter := by
  refine ⟨(registered_run cap ops).exact, ?_⟩
  rintro past rest rfl counter hlive
  rw [run_append]
  exact run_invariant registryStep
    (fun _ m _ => (run registryStep (Metrics.withLimits cap) past).1.total counter ≤ m.total counter)
    (le_refl _) (fun _ m _ op h => h.trans (registryStep_total_le m op hlive)) rest

/-! ### The cap -/

/-- No more records are retained than the cap allows, or than connections are open. -/
def WithinCap (m : Metrics) : Prop := m.entries.card ≤ max m.connectionCap m.openIds.card

/-- An opening finds room: the cap is not used up, or no closed record is retained. -/
def HasRoom (m : Metrics) : RegistryOp → Prop
  | .opened _ _ _ => m.entries.card < m.connectionCap ∨ m.closed = []
  | _ => True

/-- The retained records are the open connections and those in the deque. -/
theorem Registered.card_entries {closings : List ConnId} {m : Metrics} (h : Registered closings m) :
    m.entries.card = m.openIds.card + m.closed.length := by
  have hexact := h.exact
  have hnodup : m.closed.Nodup := by
    rw [hexact.closedOrder]
    exact h.once.filter _
  have hclosed : ∀ id, id ∈ m.closed ↔ m.lifecycleOf id = some .closed ∧ id ∈ m.entries := by
    intro id
    rw [hexact.closedOrder, List.mem_filter, decide_eq_true_iff, h.isClosed]
  have hdisjoint : Disjoint m.openIds m.closed.toFinset := by
    rw [Finset.disjoint_left]
    intro id hopen hid
    rw [h.mem_openIds] at hopen
    rw [List.mem_toFinset, hclosed, hopen] at hid
    cases hid.1
  have hunion : m.entries = m.openIds ∪ m.closed.toFinset := by
    obtain ⟨_, _, hmem⟩ := h.retained
    ext id
    rw [Finset.mem_union, h.mem_openIds, List.mem_toFinset, hclosed]
    constructor
    · intro hid
      cases hlife : m.lifecycleOf id with
      | none => exact absurd hlife ((hmem id).mp hid).1
      | some lifecycle =>
        cases lifecycle with
        | opened => exact .inl rfl
        | closed => exact .inr ⟨rfl, hid⟩
    · rintro (hopen | hid)
      · exact hexact.openRetained id hopen
      · exact hid.2
  rw [hunion, Finset.card_union_of_disjoint hdisjoint, List.toFinset_card_of_nodup hnodup]

theorem registryStep_connectionCap (m : Metrics) (op : RegistryOp) :
    (registryStep m op).1.connectionCap = m.connectionCap := by
  cases op with
  | opened client server b => rfl
  | closed conn =>
    rw [registryStep, Metrics.closeConnection]
    split
    · rfl
    · rfl
  | recorded conn direction count bytes => cases direction <;> rfl
  | encrypted conn b => rfl

/-- **The step lemma of the cap.**  From a state within the cap only an opening without room leads out. -/
theorem registryStep_withinCap {closings : List ConnId} {m : Metrics} (h : Registered closings m)
    (hcap : WithinCap m) (op : RegistryOp) : WithinCap (registryStep m op).1 ↔ HasRoom m op := by
  cases op with
  | opened client server b =>
    obtain ⟨_, hids, hnotOpen, hnotEntry⟩ := h.opened client server b
    have hentries : (m.openConnection client server b).1.entries.card = m.entries.card + 1 :=
      Finset.card_insert_of_notMem hnotEntry
    have hopen : (m.openConnection client server b).1.openIds.card = m.openIds.card + 1 := by
      rw [hids, Finset.card_insert_of_notMem hnotOpen]
    have hcount := h.card_entries
    have hempty : m.closed = [] ↔ m.closed.length = 0 := List.length_eq_zero_iff.symm
    rw [WithinCap] at hcap
    rw [registryStep, WithinCap, hentries, hopen, HasRoom, hempty]
    show m.entries.card + 1 ≤ max m.connectionCap (m.openIds.card + 1) ↔ _
    omega
  | closed conn =>
    refine ⟨fun _ => trivial, fun _ => ?_⟩
    by_cases hopen : m.lifecycleOf conn = some .opened
    · obtain ⟨hreg, hstop⟩ := h.closed hopen
      have hcount := hreg.card_entries
      have hconnectionCap : (m.closeConnection conn).connectionCap = m.connectionCap :=
        registryStep_connectionCap m (.closed conn)
      show (m.closeConnection conn).entries.card
        ≤ max (m.closeConnection conn).connectionCap (m.closeConnection conn).openIds.card
      rw [hconnectionCap]
      rcases hstop with hnil | hle
      · rw [hnil, List.length_nil] at hcount
        omega
      · omega
    · rw [registryStep, closeConnection_of_not_opened hopen]
      exact hcap
  | recorded conn direction count bytes =>
    refine ⟨fun _ => trivial, fun _ => ?_⟩
    have hids : (m.recordMessages conn direction count bytes).openIds = m.openIds := by
      simp only [Metrics.openIds, recordMessages_nextConnId, recordMessages_lifecycleOf]
    rw [registryStep, WithinCap, hids]
    cases direction <;> exact hcap
  | encrypted conn b =>
    refine ⟨fun _ => trivial, fun _ => ?_⟩
    have hids : (m.setEncrypted conn b).openIds = m.openIds := by
      simp only [Metrics.openIds, setEncrypted_nextConnId, setEncrypted_lifecycleOf]
    rw [registryStep, WithinCap, hids]
    exact hcap

/-- **The cap holds in every state of a run exactly when every opening finds room.** -/
theorem cap_holds_iff (cap : ℕ) (ops : List RegistryOp) :
    (∀ past rest, ops = past ++ rest →
        WithinCap (run registryStep (Metrics.withLimits cap) past).1) ↔
      Meets registryStep HasRoom (Metrics.withLimits cap) ops := by
  refine always_iff_meets registryStep (fun m => ∃ closings, Registered closings m) WithinCap ?_ ?_
    ⟨[], registered_run cap []⟩ (Nat.zero_le _) ops
  · rintro m op ⟨closings, h⟩
    exact ⟨_, registryStep_registered h op⟩
  · rintro m op ⟨closings, h⟩ hcap
    exact registryStep_withinCap h hcap op

/-- Two connections, the first closed again, then a third, with a cap of two. -/
def openAtCap : List RegistryOp :=
  [.opened ⟨.v4 0, 1⟩ ⟨.v4 0, 5432⟩ false, .opened ⟨.v4 0, 2⟩ ⟨.v4 0, 5432⟩ false, .closed 1,
    .opened ⟨.v4 0, 3⟩ ⟨.v4 0, 5432⟩ false]

/-- **A cap that is exceeded.**  Opening evicts nothing: three records are retained with two connections
open. -/
theorem open_exceeds_cap :
    (run registryStep (Metrics.withLimits 2) openAtCap).1.entries.card = 3 ∧
      (run registryStep (Metrics.withLimits 2) openAtCap).1.openIds.card = 2 ∧
      ¬WithinCap (run registryStep (Metrics.withLimits 2) openAtCap).1 := by
  refine ⟨by decide, by decide, ?_⟩
  rw [WithinCap]
  decide

end Tapgres.State
