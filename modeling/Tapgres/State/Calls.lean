import Tapgres.Lib.Tally
import Tapgres.State.Registry

/-!
# The registry under concurrent calls

`open_connection`, `close_connection`, `snapshot`, `summary` and `sample_rates` of `state.rs`, called by any
number of threads at once.  The calls are taken apart where another thread can come in between: at each
atomic counter of the registry, at the locks of the registry and of the rate history, and at the locks of the
connections' lifecycles.  A `ConnStats` is shared by `Arc`, so any thread may close any connection it has
been given, more than one of them the same connection.

* `Call.act` — one action of a call;
* `storeStep` — the store as a machine that is told which thread goes on;
* `Stage` — the life of a handle, which the calls move on one stage at a time;
* `Tracks` — the store is what the stages of its handles say, and `storeStep_tracks` that it stays so;
* `calls_tracked`, `calls_exact` — in every run of any interleaving, and with no call in flight.

`record_messages` and `set_encrypted` take no lock and touch nothing of this.  What is loaded and stored
outside the registry (the totals, the samples under the lock of the rate history) is in `State.Rates`.
-/

namespace Tapgres.State

open Tapgres.Net Tapgres.Lib.Run Tapgres.Lib.Tally

/-! ### Calls -/

/-- The functions that lock the rate history. -/
inductive RatesCaller where
  | summary
  | snapshot
  | sampleRates
  deriving DecidableEq

/-- Where a call stands, as what it does next. -/
inductive Call where
  /-- `open_connection`, its handle made: to lock the registry and insert the handle. -/
  | insertEntry (conn : ConnId)
  /-- The registry is locked: to count the connection as opened. -/
  | countOpened (conn : ConnId)
  /-- The same: to count it as live, and return. -/
  | countLive (conn : ConnId)
  /-- `close_connection`: to lock the lifecycle and look at it. -/
  | lockLifecycle (conn : ConnId)
  /-- The lifecycle is locked and marked: to drop the lock. -/
  | dropLifecycle (conn : ConnId)
  | countClosed (conn : ConnId)
  /-- To lock the registry and queue the handle. -/
  | enqueue (conn : ConnId)
  /-- The registry is locked: the eviction loop. -/
  | evict (conn : ConnId)
  /-- The totals are loaded: to lock the rate history, and copy its samples or add one. -/
  | lockRates (caller : RatesCaller)
  /-- The rate history is locked: to drop the lock. -/
  | dropRates (caller : RatesCaller)
  /-- `snapshot`, its summary taken: to lock the registry. -/
  | lockRegistry
  /-- The registry is locked: to read the lifecycles that are still to be read. -/
  | readLifecycles (todo : Finset ConnId) (connections : List (ConnId × ConnectionLifecycle))
  deriving DecidableEq

/-- The call has the registry's lock. -/
def Call.holdsRegistry : Call → Bool
  | .countOpened _ | .countLive _ | .evict _ | .readLifecycles _ _ => true
  | _ => false

/-- The call goes on only with the registry's lock, which it has still to take. -/
def Call.wantsRegistry : Call → Bool
  | .insertEntry _ | .enqueue _ | .lockRegistry => true
  | _ => false

/-- The call has the lock of this lifecycle. -/
def Call.holdsLifecycle (conn : ConnId) : Call → Bool
  | .dropLifecycle id => id = conn
  | _ => false

/-- The lifecycle whose lock the call takes next; a snapshot reads the entry `pick` next. -/
def Call.wantsLifecycle (pick : ConnId) : Call → Option ConnId
  | .lockLifecycle conn => some conn
  | .readLifecycles todo _ => if pick ∈ todo then some pick else none
  | _ => none

/-- The call has the lock of the rate history. -/
def Call.holdsRates : Call → Bool
  | .dropRates _ => true
  | _ => false

/-- The call takes this lock next. -/
def Call.wantsRates : Call → Bool
  | .lockRates _ => true
  | _ => false

/-- Where a call goes on once it has dropped the lock of the rate history. -/
def RatesCaller.next : RatesCaller → Option Call
  | .snapshot => some .lockRegistry
  | .summary | .sampleRates => none

/-- What a run writes. -/
inductive StoreEvent where
  /-- A handle is queued in the registry's deque. -/
  | queued (conn : ConnId)
  /-- A snapshot returns its connections, sorted by their handles. -/
  | snapshot (connections : List (ConnId × ConnectionLifecycle))
  deriving DecidableEq

/-- `sort_unstable_by_key` over the handles, no two of which are the same. -/
def sortConnections (connections : List (ConnId × ConnectionLifecycle)) :
    List (ConnId × ConnectionLifecycle) :=
  connections.insertionSort fun a b => a.1 ≤ b.1

/-- One action of a call: the store after it, what is left of the call, and what is written. -/
def Call.act (m : Metrics) (pick : ConnId) : Call → Metrics × Option Call × List StoreEvent
  | .insertEntry conn => ({ m with entries := insert conn m.entries }, some (.countOpened conn), [])
  | .countOpened conn => ({ m with connsOpened := m.connsOpened + 1 }, some (.countLive conn), [])
  -- the lock goes with the last access made under it
  | .countLive _ => ({ m with connsLive := m.connsLive + 1 }, none, [])
  | .lockLifecycle conn =>
    if m.lifecycleOf conn = some .opened then
      (m.update conn fun s => { s with lifecycle := .closed }, some (.dropLifecycle conn), [])
    else (m, none, [])
  | .dropLifecycle conn => (m, some (.countClosed conn), [])
  | .countClosed conn => ({ m with connsLive := m.connsLive - 1 }, some (.enqueue conn), [])
  | .enqueue conn => ({ m with closed := m.closed ++ [conn] }, some (.evict conn), [.queued conn])
  | .evict conn =>
    if m.entries.card > m.connectionCap then
      match m.closed with
      | [] => (m, none, [])
      | id :: closed => ({ m with entries := m.entries.erase id, closed }, some (.evict conn), [])
    else (m, none, [])
  | .lockRates caller => (m, some (.dropRates caller), [])
  | .dropRates caller => (m, caller.next, [])
  | .lockRegistry => (m, some (.readLifecycles m.entries []), [])
  | .readLifecycles todo connections =>
    if todo = ∅ then (m, none, [.snapshot (sortConnections connections)])
    else if pick ∈ todo then
      (m, some (.readLifecycles (todo.erase pick)
        (connections ++ (m.lifecycleOf pick).toList.map fun life => (pick, life))), [])
    else (m, some (.readLifecycles todo connections), [])

/-! ### The store -/

variable {T : Type*}

/-- The store and the calls in flight, of each thread at most one. -/
structure Store (T : Type*) where
  metrics : Metrics
  calls : T → Option Call

def Store.withLimits (connectionCap : ℕ) : Store T := ⟨.withLimits connectionCap, fun _ => none⟩

/-- No call has the registry's lock. -/
def Store.RegistryFree (s : Store T) : Prop := ∀ t, (s.calls t).any Call.holdsRegistry = false

/-- No call has the lock of the rate history. -/
def Store.RatesFree (s : Store T) : Prop := ∀ t, (s.calls t).any Call.holdsRates = false

/-- No call has the lifecycle's lock. -/
def Store.LifecycleFree (s : Store T) (conn : ConnId) : Prop :=
  ∀ t, (s.calls t).any (Call.holdsLifecycle conn) = false

/-- The call is the one that is to return the handle. -/
def Call.opens (conn : ConnId) : Call → Bool
  | .insertEntry id | .countOpened id | .countLive id => id = conn
  | _ => false

/-- The handle has been returned to whoever opened the connection. -/
def Store.Returned (s : Store T) (conn : ConnId) : Prop :=
  s.metrics.lifecycleOf conn ≠ none ∧ ∀ t, (s.calls t).any (Call.opens conn) = false

/-- The locks that the call takes next are free. -/
def Store.Enabled (s : Store T) (pick : ConnId) (call : Call) : Prop :=
  (call.wantsRegistry = true → s.RegistryFree) ∧ (∀ conn ∈ call.wantsLifecycle pick, s.LifecycleFree conn) ∧
    (call.wantsRates = true → s.RatesFree)

/-- What happens to the store; `pick` is for a snapshot, which goes through the entries in any order. -/
inductive StoreOp (T : Type*) where
  | openConnection (t : T) (client server : SocketAddr) (encrypted : Bool)
  | closeConnection (t : T) (conn : ConnId)
  | snapshot (t : T)
  | summary (t : T)
  | sampleRates (t : T)
  | advance (t : T) (pick : ConnId)

/-- A handle is made: its id is taken, and its `ConnStats` allocated. -/
def Metrics.newHandle (m : Metrics) (client server : SocketAddr) (encrypted : Bool) : Metrics :=
  let id := m.nextConnId
  let stats : ConnStats :=
    { id, client, server, lifecycle := .opened, encrypted, msgsIn := 0, msgsOut := 0, bytesIn := 0
      bytesOut := 0 }
  { m with nextConnId := id + 1, arcs := fun i => if i = id then some stats else m.arcs i }

section Step

variable [Fintype T] [DecidableEq T]

instance (s : Store T) : Decidable s.RegistryFree :=
  inferInstanceAs (Decidable (∀ t, (s.calls t).any Call.holdsRegistry = false))

instance (s : Store T) : Decidable s.RatesFree :=
  inferInstanceAs (Decidable (∀ t, (s.calls t).any Call.holdsRates = false))

instance (s : Store T) (conn : ConnId) : Decidable (s.LifecycleFree conn) :=
  inferInstanceAs (Decidable (∀ t, (s.calls t).any (Call.holdsLifecycle conn) = false))

instance (s : Store T) (conn : ConnId) : Decidable (s.Returned conn) :=
  inferInstanceAs (Decidable (_ ∧ ∀ t, (s.calls t).any (Call.opens conn) = false))

instance (s : Store T) (pick : ConnId) (call : Call) : Decidable (s.Enabled pick call) :=
  inferInstanceAs (Decidable (_ ∧ (∀ conn ∈ call.wantsLifecycle pick, s.LifecycleFree conn) ∧ _))

/-- The thread is in a call, or in none. -/
def Store.setCall (s : Store T) (t : T) (call : Option Call) : Store T :=
  { s with calls := Function.update s.calls t call }

/-- `summary`, `snapshot` and `sample_rates` begin alike. -/
def Store.beginRates (s : Store T) (t : T) (caller : RatesCaller) : Store T :=
  if s.calls t = none then s.setCall t (some (.lockRates caller)) else s

/-- One step of the store.  A thread that is in a call begins no other, and one whose call waits for a lock
does nothing. -/
def storeStep (s : Store T) : StoreOp T → Store T × List StoreEvent
  | .openConnection t client server encrypted =>
    if s.calls t = none then
      ({ s with metrics := s.metrics.newHandle client server encrypted }.setCall t
        (some (.insertEntry s.metrics.nextConnId)), [])
    else (s, [])
  | .closeConnection t conn =>
    if s.calls t = none ∧ s.Returned conn then (s.setCall t (some (.lockLifecycle conn)), []) else (s, [])
  | .snapshot t => (s.beginRates t .snapshot, [])
  | .summary t => (s.beginRates t .summary, [])
  | .sampleRates t => (s.beginRates t .sampleRates, [])
  | .advance t pick =>
    match s.calls t with
    | some call =>
      if s.Enabled pick call then
        let (metrics, next, events) := call.act s.metrics pick
        ({ s with metrics }.setCall t next, events)
      else (s, [])
    | none => (s, [])

end Step

/-! ### The life of a handle -/

/-- The stages a handle goes through, in this order. -/
inductive Stage where
  /-- Not given out. -/
  | fresh
  /-- Taken by an opening call. -/
  | taken
  /-- In the registry, not counted. -/
  | entered
  /-- Counted as opened, not as live. -/
  | counted
  /-- Returned, and open. -/
  | live
  /-- Marked closed, the lifecycle locked. -/
  | marked
  /-- Marked closed, counted as live. -/
  | dropped
  /-- Not counted as live any more, not queued. -/
  | left
  /-- In the deque of closed connections. -/
  | queued
  /-- Gone from the registry. -/
  | evicted
  deriving DecidableEq, Repr

namespace Stage

def lifecycle : Stage → Option ConnectionLifecycle
  | .fresh => none
  | .taken | .entered | .counted | .live => some .opened
  | .marked | .dropped | .left | .queued | .evicted => some .closed

/-- Among the registry's entries. -/
def retained : Stage → Bool
  | .fresh | .taken | .evicted => false
  | _ => true

/-- Counted in `conns_opened`. -/
def countedOpened : Stage → Bool
  | .fresh | .taken | .entered => false
  | _ => true

/-- Counted in `conns_live`. -/
def countedLive : Stage → Bool
  | .live | .marked | .dropped => true
  | _ => false

/-- Given to the caller of `open_connection`. -/
def returned : Stage → Bool
  | .fresh | .taken | .entered | .counted => false
  | _ => true

def next : Stage → Stage
  | .fresh => .taken
  | .taken => .entered
  | .entered => .counted
  | .counted => .live
  | .live => .marked
  | .marked => .dropped
  | .dropped => .left
  | .left => .queued
  | .queued | .evicted => .evicted

/-- The call that is to move the handle on. -/
def call (conn : ConnId) : Stage → Option Call
  | .taken => some (.insertEntry conn)
  | .entered => some (.countOpened conn)
  | .counted => some (.countLive conn)
  | .marked => some (.dropLifecycle conn)
  | .dropped => some (.countClosed conn)
  | .left => some (.enqueue conn)
  | .fresh | .live | .queued | .evicted => none

end Stage

/-- The handle that the call moves on, and the stage where it does. -/
def Call.serves : Call → Option (ConnId × Stage)
  | .insertEntry conn => some (conn, .taken)
  | .countOpened conn => some (conn, .entered)
  | .countLive conn => some (conn, .counted)
  | .dropLifecycle conn => some (conn, .marked)
  | .countClosed conn => some (conn, .dropped)
  | .enqueue conn => some (conn, .left)
  | .lockLifecycle _ | .evict _ | .lockRates _ | .dropRates _ | .lockRegistry | .readLifecycles _ _ => none

/-- What a call that moves no handle relies on: what it is to close has been returned. -/
def Call.Allowed (stage : ConnId → Stage) : Call → Prop
  | .lockLifecycle conn => (stage conn).returned = true
  | _ => True

/-- **The calls in flight** are those the stages of the handles ask for, each made by one thread. -/
structure Placed (stage : ConnId → Stage) (calls : T → Option Call) : Prop where
  served : ∀ t call id st, calls t = some call → call.serves = some (id, st) → stage id = st
  allowed : ∀ t call, calls t = some call → call.Allowed stage
  busy : ∀ id call, (stage id).call id = some call → ∃ t, calls t = some call
  alone : ∀ t t' call call' id st st', calls t = some call → calls t' = some call' →
    call.serves = some (id, st) → call'.serves = some (id, st') → t = t'
  oneHolder : ∀ t t' call call', calls t = some call → calls t' = some call' →
    call.holdsRegistry = true → call'.holdsRegistry = true → t = t'

/-- The deque lists the handles queued, in their order, but for those evicted: these are the first. -/
structure Queue (stage : ConnId → Stage) (queued closed : List ConnId) : Prop where
  deque : ∀ id, id ∈ closed ↔ stage id = .queued
  cut : ∃ evicted, queued = evicted ++ closed ∧ ∀ id, id ∈ evicted ↔ stage id = .evicted
  once : queued.Nodup

/-- **The store itself** is what the stages say, `queued` being the handles queued so far. -/
structure Recorded (stage : ConnId → Stage) (queued : List ConnId) (m : Metrics) : Prop where
  pos : 0 < m.nextConnId
  fresh : ∀ id, stage id = .fresh ↔ id = 0 ∨ m.nextConnId ≤ id
  lifecycle : ∀ id, m.lifecycleOf id = (stage id).lifecycle
  entries : ∀ id, id ∈ m.entries ↔ (stage id).retained = true
  queue : Queue stage queued m.closed
  opened : m.connsOpened = tally (Finset.range m.nextConnId) Stage.countedOpened stage
  live : m.connsLive = tally (Finset.range m.nextConnId) Stage.countedLive stage

/-- The handles that a run has queued. -/
def queuedOf (events : List StoreEvent) : List ConnId :=
  events.filterMap fun
    | .queued conn => some conn
    | .snapshot _ => none

/-- **What the store says is what the stages of its handles say.** -/
structure Tracks (stage : ConnId → Stage) (s : Store T) (events : List StoreEvent) : Prop where
  placed : Placed stage s.calls
  recorded : Recorded stage (queuedOf events) s.metrics

/-! ### What a step does to the calls in flight -/

section Calls

variable [DecidableEq T] {stage : ConnId → Stage} {calls : T → Option Call} {t : T} {next : Option Call}

theorem serves_of_call {st : Stage} {id : ConnId} {call : Call} (h : st.call id = some call) :
    call.serves = some (id, st) := by
  cases st with
  | fresh | live | queued | evicted => cases h
  | taken | entered | counted | marked | dropped | left =>
    cases h
    rfl

theorem call_of_serves {st : Stage} {id : ConnId} {call : Call} (h : call.serves = some (id, st)) :
    st.call id = some call := by
  cases call with
  | lockLifecycle _ | evict _ | lockRates _ | dropRates _ | lockRegistry | readLifecycles _ _ => cases h
  | insertEntry _ | countOpened _ | countLive _ | dropLifecycle _ | countClosed _ | enqueue _ =>
    cases h
    rfl

/-- The lock stays with one call, if it was free or is taken by its holder only. -/
theorem holder_update
    (h : ∀ t t' call call', calls t = some call → calls t' = some call' → call.holdsRegistry = true →
      call'.holdsRegistry = true → t = t')
    (hnext : ∀ call, next = some call → call.holdsRegistry = true →
      ∀ t' call', t' ≠ t → calls t' = some call' → call'.holdsRegistry = false) :
    ∀ t₁ t₂ call call', Function.update calls t next t₁ = some call →
      Function.update calls t next t₂ = some call' → call.holdsRegistry = true →
      call'.holdsRegistry = true → t₁ = t₂ := by
  intro t₁ t₂ call call' h₁ h₂ hcall hcall'
  by_cases ht₁ : t₁ = t
  · by_cases ht₂ : t₂ = t
    · rw [ht₁, ht₂]
    · rw [ht₁, Function.update_self] at h₁
      rw [Function.update_of_ne ht₂] at h₂
      rw [hnext call h₁ hcall t₂ call' ht₂ h₂] at hcall'
      cases hcall'
  · rw [Function.update_of_ne ht₁] at h₁
    by_cases ht₂ : t₂ = t
    · rw [ht₂, Function.update_self] at h₂
      rw [hnext call' h₂ hcall' t₁ call ht₁ h₁] at hcall
      cases hcall
    · rw [Function.update_of_ne ht₂] at h₂
      exact h t₁ t₂ call call' h₁ h₂ hcall hcall'

/-- **A handle moves on**, and with it the call of the thread that serves it, or that begins to. -/
theorem Placed.move (h : Placed stage calls) {id : ConnId} {st' : Stage}
    (hmine : ∀ call id' st, calls t = some call → call.serves = some (id', st) → id' = id)
    (hother : ∀ t' call st, t' ≠ t → calls t' = some call → call.serves ≠ some (id, st))
    (hreturned : (stage id).returned = true → st'.returned = true)
    (hserves : ∀ call id' st, next = some call → call.serves = some (id', st) → id' = id ∧ st = st')
    (hallowed : ∀ call, next = some call → call.Allowed (Function.update stage id st'))
    (hbusy : ∀ call, st'.call id = some call → next = some call)
    (hlock : ∀ call, next = some call → call.holdsRegistry = true →
      ∀ t' call', t' ≠ t → calls t' = some call' → call'.holdsRegistry = false) :
    Placed (Function.update stage id st') (Function.update calls t next) := by
  refine ⟨?_, ?_, ?_, ?_, holder_update h.oneHolder hlock⟩
  · intro t₁ call id' st ht₁ hcall
    by_cases ht : t₁ = t
    · rw [ht, Function.update_self] at ht₁
      obtain ⟨rfl, rfl⟩ := hserves call id' st ht₁ hcall
      rw [Function.update_self]
    · rw [Function.update_of_ne ht] at ht₁
      have hid : id' ≠ id := by
        rintro rfl
        exact hother t₁ call st ht ht₁ hcall
      rw [Function.update_of_ne hid]
      exact h.served t₁ call id' st ht₁ hcall
  · intro t₁ call ht₁
    by_cases ht : t₁ = t
    · rw [ht, Function.update_self] at ht₁
      exact hallowed call ht₁
    · rw [Function.update_of_ne ht] at ht₁
      have hbefore := h.allowed t₁ call ht₁
      cases call with
      | lockLifecycle conn =>
        show (Function.update stage id st' conn).returned = true
        by_cases hconn : conn = id
        · rw [hconn, Function.update_self]
          exact hreturned (hconn ▸ hbefore)
        · rw [Function.update_of_ne hconn]
          exact hbefore
      | insertEntry _ | countOpened _ | countLive _ | dropLifecycle _ | countClosed _ | enqueue _ | evict _
      | lockRates _ | dropRates _ | lockRegistry | readLifecycles _ _ => trivial
  · intro id' call hcall
    by_cases hid : id' = id
    · rw [hid, Function.update_self] at hcall
      exact ⟨t, by rw [Function.update_self]; exact hbusy call hcall⟩
    · rw [Function.update_of_ne hid] at hcall
      obtain ⟨t₁, ht₁⟩ := h.busy id' call hcall
      refine ⟨t₁, ?_⟩
      rwa [Function.update_of_ne]
      rintro rfl
      exact hid (hmine call id' _ ht₁ (serves_of_call hcall))
  · intro t₁ t₂ call call' id' st₁ st₂ ht₁ ht₂ hcall hcall'
    by_cases h₁ : t₁ = t
    · by_cases h₂ : t₂ = t
      · rw [h₁, h₂]
      · rw [h₁, Function.update_self] at ht₁
        rw [Function.update_of_ne h₂] at ht₂
        obtain ⟨rfl, _⟩ := hserves call id' st₁ ht₁ hcall
        exact absurd hcall' (hother t₂ call' st₂ h₂ ht₂)
    · rw [Function.update_of_ne h₁] at ht₁
      by_cases h₂ : t₂ = t
      · rw [h₂, Function.update_self] at ht₂
        obtain ⟨rfl, _⟩ := hserves call' id' st₂ ht₂ hcall'
        exact absurd hcall (hother t₁ call st₁ h₁ ht₁)
      · rw [Function.update_of_ne h₂] at ht₂
        exact h.alone t₁ t₂ call call' id' st₁ st₂ ht₁ ht₂ hcall hcall'

/-- **A call goes on that moves no handle.** -/
theorem Placed.idle (h : Placed stage calls)
    (hmine : ∀ call, calls t = some call → call.serves = none)
    (hserves : ∀ call, next = some call → call.serves = none ∧ call.Allowed stage)
    (hlock : ∀ call, next = some call → call.holdsRegistry = true →
      ∀ t' call', t' ≠ t → calls t' = some call' → call'.holdsRegistry = false) :
    Placed stage (Function.update calls t next) := by
  refine ⟨?_, ?_, ?_, ?_, holder_update h.oneHolder hlock⟩
  · intro t₁ call id st ht₁ hcall
    by_cases ht : t₁ = t
    · rw [ht, Function.update_self] at ht₁
      rw [(hserves call ht₁).1] at hcall
      cases hcall
    · rw [Function.update_of_ne ht] at ht₁
      exact h.served t₁ call id st ht₁ hcall
  · intro t₁ call ht₁
    by_cases ht : t₁ = t
    · rw [ht, Function.update_self] at ht₁
      exact (hserves call ht₁).2
    · rw [Function.update_of_ne ht] at ht₁
      exact h.allowed t₁ call ht₁
  · intro id call hcall
    obtain ⟨t₁, ht₁⟩ := h.busy id call hcall
    refine ⟨t₁, ?_⟩
    rwa [Function.update_of_ne]
    rintro rfl
    cases (hmine call ht₁).symm.trans (serves_of_call hcall)
  · intro t₁ t₂ call call' id st st' ht₁ ht₂ hcall hcall'
    by_cases h₁ : t₁ = t
    · rw [h₁, Function.update_self] at ht₁
      rw [(hserves call ht₁).1] at hcall
      cases hcall
    · by_cases h₂ : t₂ = t
      · rw [h₂, Function.update_self] at ht₂
        rw [(hserves call' ht₂).1] at hcall'
        cases hcall'
      · rw [Function.update_of_ne h₁] at ht₁
        rw [Function.update_of_ne h₂] at ht₂
        exact h.alone t₁ t₂ call call' id st st' ht₁ ht₂ hcall hcall'

end Calls

/-! ### What a step does to the store -/

section Metrics

variable {stage : ConnId → Stage} {queued : List ConnId} {m m' : Metrics} {id : ConnId} {st' : Stage}

/-- A handle that is neither queued nor evicted, before and after. -/
theorem Queue.other {closed : List ConnId} (h : Queue stage queued closed)
    (hbefore : stage id ≠ .queued ∧ stage id ≠ .evicted) (hafter : st' ≠ .queued ∧ st' ≠ .evicted) :
    Queue (Function.update stage id st') queued closed := by
  have hsame : ∀ i st, st = .queued ∨ st = .evicted →
      (Function.update stage id st' i = st ↔ stage i = st) := by
    intro i st hst
    by_cases hi : i = id
    · rw [hi, Function.update_self]
      rcases hst with rfl | rfl
      · exact iff_of_false hafter.1 hbefore.1
      · exact iff_of_false hafter.2 hbefore.2
    · rw [Function.update_of_ne hi]
  obtain ⟨evicted, hcut, hevicted⟩ := h.cut
  refine ⟨fun i => ?_, ⟨evicted, hcut, fun i => ?_⟩, h.once⟩
  · rw [hsame i _ (.inl rfl)]
    exact h.deque i
  · rw [hsame i _ (.inr rfl)]
    exact hevicted i

/-- A handle is queued. -/
theorem Queue.push {closed : List ConnId} (h : Queue stage queued closed) (hleft : stage id = .left) :
    Queue (Function.update stage id .queued) (queued ++ [id]) (closed ++ [id]) := by
  obtain ⟨evicted, hcut, hevicted⟩ := h.cut
  have hnot : id ∉ queued := by
    rw [hcut, List.mem_append, hevicted, h.deque, hleft]
    simp
  refine ⟨fun i => ?_, ⟨evicted, by rw [hcut, List.append_assoc], fun i => ?_⟩, ?_⟩
  · rw [List.mem_append, List.mem_singleton]
    by_cases hi : i = id
    · simp [hi]
    · rw [Function.update_of_ne hi, h.deque]
      simp [hi]
  · by_cases hi : i = id
    · rw [hi, Function.update_self, hevicted, hleft]
      simp
    · rw [Function.update_of_ne hi, hevicted]
  · exact List.nodup_append.mpr ⟨h.once, List.nodup_singleton id, by
      intro a ha b hb
      rw [List.mem_singleton.mp hb]
      exact ne_of_mem_of_not_mem ha hnot⟩

/-- The oldest handle in the deque is evicted. -/
theorem Queue.pop {closed : List ConnId} (h : Queue stage queued (id :: closed)) :
    Queue (Function.update stage id .evicted) queued closed := by
  obtain ⟨evicted, hcut, hevicted⟩ := h.cut
  have honce := h.once
  rw [hcut] at honce
  have hnot : id ∉ closed := (List.nodup_cons.mp (List.nodup_append.mp honce).2.1).1
  refine ⟨fun i => ?_, ⟨evicted ++ [id], by rw [hcut, List.append_assoc]; rfl, fun i => ?_⟩, h.once⟩
  · by_cases hi : i = id
    · rw [hi, Function.update_self]
      exact iff_of_false hnot (by simp)
    · have hdeque := h.deque i
      rw [List.mem_cons] at hdeque
      rw [Function.update_of_ne hi, ← hdeque]
      simp [hi]
  · rw [List.mem_append, List.mem_singleton, hevicted]
    by_cases hi : i = id
    · simp [hi]
    · rw [Function.update_of_ne hi]
      simp [hi]

/-- **One handle moves on**, and the store with it. -/
theorem Recorded.move {queued' : List ConnId} (h : Recorded stage queued m) (hknown : stage id ≠ .fresh)
    (hknown' : st' ≠ .fresh) (hnext : m'.nextConnId = m.nextConnId)
    (hlifecycle : m'.lifecycleOf id = st'.lifecycle)
    (hlifecycles : ∀ i, i ≠ id → m'.lifecycleOf i = m.lifecycleOf i)
    (hentry : id ∈ m'.entries ↔ st'.retained = true)
    (hentries : ∀ i, i ≠ id → (i ∈ m'.entries ↔ i ∈ m.entries))
    (hqueue : Queue (Function.update stage id st') queued' m'.closed)
    (hopened : m'.connsOpened + one (stage id).countedOpened = m.connsOpened + one st'.countedOpened)
    (hlive : m'.connsLive + one (stage id).countedLive = m.connsLive + one st'.countedLive) :
    Recorded (Function.update stage id st') queued' m' := by
  have hmem : id ∈ Finset.range m.nextConnId := by
    have hfresh := not_or.mp ((h.fresh id).not.mp hknown)
    exact Finset.mem_range.mpr (Nat.lt_of_not_le hfresh.2)
  have htally : ∀ p, tally (Finset.range m.nextConnId) p (Function.update stage id st') + one (p (stage id))
      = tally (Finset.range m.nextConnId) p stage + one (p st') := fun p => tally_update hmem p stage st'
  refine ⟨hnext ▸ h.pos, fun i => ?_, fun i => ?_, fun i => ?_, hqueue, ?_, ?_⟩
  · rw [hnext]
    by_cases hi : i = id
    · rw [hi, Function.update_self, ← h.fresh id]
      exact iff_of_false hknown' hknown
    · rw [Function.update_of_ne hi]
      exact h.fresh i
  · by_cases hi : i = id
    · rw [hi, Function.update_self, hlifecycle]
    · rw [Function.update_of_ne hi, hlifecycles i hi]
      exact h.lifecycle i
  · by_cases hi : i = id
    · rw [hi, Function.update_self, hentry]
    · rw [Function.update_of_ne hi, hentries i hi]
      exact h.entries i
  · have hcount := htally Stage.countedOpened
    have hbefore := h.opened
    rw [hnext]
    omega
  · have hcount := htally Stage.countedLive
    have hbefore := h.live
    rw [hnext]
    omega

/-- The handle is only counted anew. -/
theorem Recorded.recount (h : Recorded stage queued m) {st : Stage} (hst : stage id = st) (st' : Stage)
    (hlifecycle : st'.lifecycle = st.lifecycle) (hretained : st'.retained = st.retained)
    (hbefore : st ≠ .fresh ∧ st ≠ .queued ∧ st ≠ .evicted)
    (hafter : st' ≠ .fresh ∧ st' ≠ .queued ∧ st' ≠ .evicted) {opened : ℕ} {live : ℤ}
    (hopened : opened + one st.countedOpened = m.connsOpened + one st'.countedOpened)
    (hlive : live + one st.countedLive = m.connsLive + one st'.countedLive) :
    Recorded (Function.update stage id st') queued { m with connsOpened := opened, connsLive := live } := by
  subst hst
  refine h.move hbefore.1 hafter.1 rfl ?_ (fun _ _ => rfl) ?_ (fun _ _ => Iff.rfl)
    (h.queue.other hbefore.2 hafter.2) hopened hlive
  · rw [hlifecycle]
    exact h.lifecycle id
  · rw [hretained]
    exact h.entries id

/-- A handle is made. -/
theorem Recorded.newHandle (h : Recorded stage queued m) (client server : SocketAddr) (encrypted : Bool) :
    Recorded (Function.update stage m.nextConnId .taken) queued (m.newHandle client server encrypted) := by
  have hfresh : stage m.nextConnId = .fresh := (h.fresh _).mpr (.inr (Nat.le_refl _))
  have htally : ∀ p : Stage → Bool, p .taken = false →
      tally (Finset.range (m.nextConnId + 1)) p (Function.update stage m.nextConnId .taken)
        = tally (Finset.range m.nextConnId) p stage := by
    intro p hp
    rw [tally_range_succ, tally_update_of_notMem Finset.notMem_range_self, Function.update_self, hp]
    rfl
  refine ⟨Nat.succ_pos _, fun i => ?_, fun i => ?_, fun i => ?_, ?_, ?_, ?_⟩
  · show _ ↔ i = 0 ∨ m.nextConnId + 1 ≤ i
    by_cases hi : i = m.nextConnId
    · rw [hi, Function.update_self]
      exact iff_of_false (by decide) (not_or.mpr ⟨h.pos.ne', Nat.not_succ_le_self _⟩)
    · rw [Function.update_of_ne hi, h.fresh i]
      have hle : m.nextConnId ≤ i ↔ m.nextConnId + 1 ≤ i :=
        ⟨fun hle => Nat.lt_of_le_of_ne hle (Ne.symm hi), Nat.le_of_succ_le⟩
      rw [hle]
  · by_cases hi : i = m.nextConnId
    · rw [hi, Function.update_self]
      simp [Metrics.lifecycleOf, Metrics.newHandle, Stage.lifecycle]
    · rw [Function.update_of_ne hi, ← h.lifecycle i]
      simp [Metrics.lifecycleOf, Metrics.newHandle, hi]
  · show i ∈ m.entries ↔ _
    by_cases hi : i = m.nextConnId
    · rw [hi, h.entries, Function.update_self, hfresh]
      rfl
    · rw [Function.update_of_ne hi]
      exact h.entries i
  · exact h.queue.other (by rw [hfresh]; simp) (by simp)
  · exact h.opened.trans (htally _ rfl).symm
  · rw [show (m.newHandle client server encrypted).nextConnId = m.nextConnId + 1 from rfl, htally _ rfl]
    exact h.live

end Metrics

/-! ### One action -/

section Action

variable {stage : ConnId → Stage} {calls : T → Option Call} {t : T}

theorem Placed.not_served (h : Placed stage calls) {id : ConnId} (hidle : (stage id).call id = none)
    {t' : T} {call : Call} (hcall : calls t' = some call) (st : Stage) : call.serves ≠ some (id, st) := by
  intro hserves
  have hst := h.served t' call id st hcall hserves
  rw [hst, call_of_serves hserves] at hidle
  cases hidle

theorem Placed.others_free (h : Placed stage calls) {call : Call} (hcall : calls t = some call)
    (hholds : call.holdsRegistry = true) :
    ∀ t' call', t' ≠ t → calls t' = some call' → call'.holdsRegistry = false := by
  intro t' call' ht hcall'
  by_contra hholds'
  exact ht (h.oneHolder t' t call' call hcall' hcall (by simpa using hholds') hholds)

theorem Store.RegistryFree.others {s : Store T} (h : s.RegistryFree) {t' : T} {call : Call}
    (hcall : s.calls t' = some call) : call.holdsRegistry = false := by
  have hfree := h t'
  rwa [hcall] at hfree

theorem returned_next {st : Stage} (h : st.returned = true) : st.next.returned = true := by
  cases st with
  | fresh | taken | entered | counted => cases h
  | live | marked | dropped | left | queued | evicted => rfl

/-- A handle that has been returned and is open. -/
theorem live_of_opened {st : Stage} (hreturned : st.returned = true)
    (hopen : st.lifecycle = some .opened) : st = .live := by
  cases st with
  | fresh | taken | entered | counted => cases hreturned
  | live => rfl
  | marked | dropped | left | queued | evicted => cases hopen

theorem update_closed_lifecycle {m : Metrics} {conn : ConnId} (h : m.lifecycleOf conn = some .opened) :
    (m.update conn fun s => { s with lifecycle := .closed }).lifecycleOf conn = some .closed := by
  obtain ⟨stats, hstats, _⟩ := Option.map_eq_some_iff.mp h
  simp [Metrics.lifecycleOf, Metrics.update, hstats]

theorem update_lifecycle_of_ne (m : Metrics) (f : ConnStats → ConnStats) {conn id : ConnId}
    (h : id ≠ conn) : (m.update conn f).lifecycleOf id = m.lifecycleOf id := by
  simp [Metrics.lifecycleOf, Metrics.update, h]

theorem serves_of_calls {call : Call} (hcall : calls t = some call) (hmine : call.serves = none) :
    ∀ call', calls t = some call' → call'.serves = none := by
  intro call' hcall'
  obtain rfl := Option.some.inj (hcall.symm.trans hcall')
  exact hmine

variable {s : Store T} {events : List StoreEvent}

/-- A handle that has been returned: the calls that were to return it are through. -/
theorem Tracks.returned (h : Tracks stage s events) {conn : ConnId} (hreturned : s.Returned conn) :
    (stage conn).returned = true := by
  have hbusy : ∀ call, (stage conn).call conn = some call → call.opens conn = false := by
    intro call hcall
    obtain ⟨t, ht⟩ := h.placed.busy conn call hcall
    have hopens := hreturned.2 t
    rwa [ht] at hopens
  have hknown := hreturned.1
  rw [h.recorded.lifecycle] at hknown
  cases hst : stage conn with
  | fresh =>
    rw [hst] at hknown
    exact absurd rfl hknown
  | taken | entered | counted =>
    rw [hst] at hbusy
    have hopens := hbusy _ rfl
    simp [Call.opens] at hopens
  | live | marked | dropped | left | queued | evicted => rfl

variable [DecidableEq T]

/-- The call that serves a handle moves it to the next stage, and goes on as that stage asks. -/
theorem Placed.serve (h : Placed stage calls) {call : Call} {id : ConnId} {next : Option Call}
    (hcall : calls t = some call) (hserves : call.serves = some (id, stage id))
    (hnext : ∀ call', (stage id).next.call id = some call' → next = some call')
    (hafter : ∀ call', next = some call' →
      call'.serves = some (id, (stage id).next) ∨ call' = .evict id)
    (hlock : ∀ call, next = some call → call.holdsRegistry = true →
      ∀ t' call', t' ≠ t → calls t' = some call' → call'.holdsRegistry = false) :
    Placed (Function.update stage id (stage id).next) (Function.update calls t next) := by
  refine h.move ?_ ?_ returned_next ?_ ?_ hnext hlock
  · intro call' id' st hcall' hserves'
    obtain rfl := Option.some.inj (hcall.symm.trans hcall')
    rw [hserves] at hserves'
    cases hserves'
    rfl
  · intro t' call' st ht hcall' hserves'
    exact ht (h.alone t' t call' call id st (stage id) hcall' hcall hserves' hserves)
  · intro call' id' st hcall' hserves'
    rcases hafter call' hcall' with hsame | rfl
    · rw [hsame] at hserves'
      cases hserves'
      exact ⟨rfl, rfl⟩
    · cases hserves'
  · intro call' hcall'
    rcases hafter call' hcall' with hsame | rfl
    · cases call' with
      | lockLifecycle _ => cases hsame
      | insertEntry _ | countOpened _ | countLive _ | dropLifecycle _ | countClosed _ | enqueue _ | evict _
      | lockRates _ | dropRates _ | lockRegistry | readLifecycles _ _ => trivial
    · trivial

theorem queuedOf_append (events events' : List StoreEvent) :
    queuedOf (events ++ events') = queuedOf events ++ queuedOf events' := List.filterMap_append

/-- At most one handle has moved on, by one stage. -/
def Moves (stage stage' : ConnId → Stage) : Prop :=
  stage' = stage ∨ ∃ id, stage' = Function.update stage id (stage id).next

/-- A call goes on that changes nothing of the store. -/
theorem Tracks.idle (h : Tracks stage s events) {next : Option Call}
    (hmine : ∀ call, s.calls t = some call → call.serves = none)
    (hnext : ∀ call', next = some call' → call'.serves = none ∧ call'.Allowed stage)
    (hlock : ∀ call', next = some call' → call'.holdsRegistry = true →
      ∀ t' call', t' ≠ t → s.calls t' = some call' → call'.holdsRegistry = false) {more : List StoreEvent}
    (hmore : queuedOf more = []) : Tracks stage (s.setCall t next) (events ++ more) := by
  refine ⟨h.placed.idle hmine hnext hlock, ?_⟩
  rw [queuedOf_append, hmore, List.append_nil]
  exact h.recorded

/-- The call returns. -/
theorem Tracks.returns (h : Tracks stage s events) {call : Call} (hcall : s.calls t = some call)
    (hmine : call.serves = none) {more : List StoreEvent} (hmore : queuedOf more = []) :
    Tracks stage (s.setCall t none) (events ++ more) :=
  h.idle (serves_of_calls hcall hmine) (fun _ hnone => by cases hnone) (fun _ hnone => by cases hnone) hmore

/-- **One action** moves at most one handle on, and keeps the store to the stages. -/
theorem act_tracks (h : Tracks stage s events) {call : Call} (pick : ConnId)
    (hcall : s.calls t = some call) (hfree : call.wantsRegistry = true → s.RegistryFree) :
    ∃ stage', Moves stage stage' ∧
      Tracks stage' ({ s with metrics := (call.act s.metrics pick).1 }.setCall t
        (call.act s.metrics pick).2.1) (events ++ (call.act s.metrics pick).2.2) := by
  have hother : call.wantsRegistry = true ∨ call.holdsRegistry = true →
      ∀ t' call', t' ≠ t → s.calls t' = some call' → call'.holdsRegistry = false := by
    intro hlocked t' call' ht hcall'
    rcases hlocked with hwants | hholds
    · exact (hfree hwants).others hcall'
    · exact h.placed.others_free hcall hholds t' call' ht hcall'
  have hmoved : ∀ id m' next more, (∀ call', (stage id).next.call id = some call' → next = some call') →
      call.serves = some (id, stage id) →
      (∀ call', next = some call' → call'.serves = some (id, (stage id).next) ∨ call' = .evict id) →
      (∀ call', next = some call' → call'.holdsRegistry = true →
        call.wantsRegistry = true ∨ call.holdsRegistry = true) →
      Recorded (Function.update stage id (stage id).next) (queuedOf (events ++ more)) m' →
      ∃ stage', Moves stage stage' ∧ Tracks stage' ({ s with metrics := m' }.setCall t next) (events ++ more) :=
    fun id m' next more hnext hserves hafter hlock hrecorded =>
      ⟨_, .inr ⟨id, rfl⟩, h.placed.serve hcall hserves hnext hafter
        fun call' hcall' hholds => hother (hlock call' hcall' hholds), hrecorded⟩
  -- no handle is moved
  have hidle : call.serves = none → ∀ next, next.serves = none → next.Allowed stage →
      (next.holdsRegistry = true → call.wantsRegistry = true ∨ call.holdsRegistry = true) →
      ∃ stage', Moves stage stage' ∧ Tracks stage' (s.setCall t (some next)) (events ++ []) :=
    fun hmine next hserves hallowed hlock =>
      ⟨stage, .inl rfl, h.idle (serves_of_calls hcall hmine)
        (fun call' hcall' => by cases hcall'; exact ⟨hserves, hallowed⟩)
        (fun call' hcall' hholds => by cases hcall'; exact hother (hlock hholds)) rfl⟩
  have hrecorded := h.recorded
  cases call with
  | insertEntry conn =>
    have hst : stage conn = .taken := h.placed.served t _ conn .taken hcall rfl
    refine hmoved conn _ _ [] (by rw [hst]; exact fun _ => id) (by rw [hst]; rfl)
      (by rw [hst]; exact fun call' hcall' => .inl (by cases hcall'; rfl)) (fun _ _ _ => .inl rfl) ?_
    rw [List.append_nil, hst]
    refine hrecorded.move (by rw [hst]; decide) (by decide) rfl ((hrecorded.lifecycle conn).trans (by rw [hst]; rfl))
      (fun _ _ => rfl) (iff_of_true (Finset.mem_insert_self ..) rfl) ?_
      (hrecorded.queue.other (by rw [hst]; decide) (by decide))
      (by rw [hst]; rfl) (by rw [hst]; rfl)
    intro i hi
    exact Finset.mem_insert.trans (or_iff_right hi)
  | countOpened conn =>
    have hst : stage conn = .entered := h.placed.served t _ conn .entered hcall rfl
    refine hmoved conn _ _ [] (by rw [hst]; exact fun _ => id) (by rw [hst]; rfl)
      (by rw [hst]; exact fun call' hcall' => .inl (by cases hcall'; rfl)) (fun _ _ _ => .inr rfl) ?_
    rw [List.append_nil, hst]
    exact hrecorded.recount hst .counted rfl rfl (by decide) (by decide) rfl rfl
  | countLive conn =>
    have hst : stage conn = .counted := h.placed.served t _ conn .counted hcall rfl
    refine hmoved conn _ _ [] (by rw [hst]; exact fun _ => id) (by rw [hst]; rfl)
      (by rw [hst]; intro _ hnone; cases hnone) (fun _ hnone => by cases hnone) ?_
    rw [List.append_nil, hst]
    exact hrecorded.recount hst .live rfl rfl (by decide) (by decide) rfl (by simp [one, Stage.countedLive])
  | dropLifecycle conn =>
    have hst : stage conn = .marked := h.placed.served t _ conn .marked hcall rfl
    refine hmoved conn _ _ [] (by rw [hst]; exact fun _ => id) (by rw [hst]; rfl)
      (by rw [hst]; exact fun call' hcall' => .inl (by cases hcall'; rfl))
      (fun call' hcall' hholds => by cases hcall'; cases hholds) ?_
    rw [List.append_nil, hst]
    exact hrecorded.recount hst .dropped rfl rfl (by decide) (by decide) rfl rfl
  | countClosed conn =>
    have hst : stage conn = .dropped := h.placed.served t _ conn .dropped hcall rfl
    refine hmoved conn _ _ [] (by rw [hst]; exact fun _ => id) (by rw [hst]; rfl)
      (by rw [hst]; exact fun call' hcall' => .inl (by cases hcall'; rfl))
      (fun call' hcall' hholds => by cases hcall'; cases hholds) ?_
    rw [List.append_nil, hst]
    exact hrecorded.recount hst .left rfl rfl (by decide) (by decide) rfl (by simp [one, Stage.countedLive])
  | enqueue conn =>
    have hst : stage conn = .left := h.placed.served t _ conn .left hcall rfl
    refine hmoved conn _ _ [.queued conn] (by rw [hst]; intro _ hnone; cases hnone) (by rw [hst]; rfl)
      (fun call' hcall' => .inr (by cases hcall'; rfl)) (fun _ _ _ => .inl rfl) ?_
    rw [queuedOf_append, hst]
    exact hrecorded.move (by rw [hst]; decide) (by decide) rfl ((hrecorded.lifecycle conn).trans (by rw [hst]; rfl))
      (fun _ _ => rfl) ((hrecorded.entries conn).trans (by rw [hst]; rfl)) (fun _ _ => Iff.rfl)
      (hrecorded.queue.push hst) (by rw [hst]; rfl) (by rw [hst]; rfl)
  | lockLifecycle conn =>
    rw [Call.act]
    split
    · rename_i hopen
      have hst : stage conn = .live := live_of_opened (h.placed.allowed t _ hcall)
        ((hrecorded.lifecycle conn).symm.trans hopen)
      have hrecord : Recorded (Function.update stage conn .marked) (queuedOf events)
          (s.metrics.update conn fun s => { s with lifecycle := .closed }) := by
        refine hrecorded.move (by rw [hst]; decide) (by decide) rfl ?_ ?_
          ((hrecorded.entries conn).trans (by rw [hst]; rfl)) (fun _ _ => Iff.rfl)
          (hrecorded.queue.other (by rw [hst]; decide) (by decide))
          (by rw [hst]; rfl) (by rw [hst]; rfl)
        · exact update_closed_lifecycle hopen
        · exact fun i hi => update_lifecycle_of_ne _ _ hi
      refine ⟨Function.update stage conn .marked, .inr ⟨conn, by rw [hst]; rfl⟩, ?_, ?_⟩
      · refine h.placed.move ?_ (fun t' call' st _ hcall' => h.placed.not_served (by rw [hst]; rfl) hcall' st)
          (fun _ => rfl) ?_ ?_ (fun call' hcall' => hcall') ?_
        · intro call' id' st hcall' hserves
          obtain rfl := Option.some.inj (hcall.symm.trans hcall')
          cases hserves
        · intro call' id' st hcall' hserves
          cases hcall'
          cases hserves
          exact ⟨rfl, rfl⟩
        · intro call' hcall'
          cases hcall'
          trivial
        · intro call' hcall' hholds
          cases hcall'
          cases hholds
      · rw [List.append_nil]
        exact hrecord
    · exact ⟨stage, .inl rfl, h.returns hcall rfl rfl⟩
  | evict conn =>
    have hreturn : ∃ stage', Moves stage stage' ∧ Tracks stage' (s.setCall t none) (events ++ []) :=
      ⟨stage, .inl rfl, h.returns hcall rfl rfl⟩
    rw [Call.act]
    split
    · cases hclosed : s.metrics.closed with
      | nil => exact hreturn
      | cons id closed =>
        dsimp only
        have hst : stage id = .queued :=
          (hrecorded.queue.deque id).mp (by rw [hclosed]; exact List.mem_cons_self)
        have hqueue := hrecorded.queue
        rw [hclosed] at hqueue
        refine ⟨Function.update stage id .evicted, .inr ⟨id, by rw [hst]; rfl⟩, ?_, ?_⟩
        · refine h.placed.move ?_
            (fun t' call' st _ hcall' => h.placed.not_served (by rw [hst]; rfl) hcall' st)
            (fun _ => rfl) ?_ ?_ (fun _ hnone => by cases hnone) (fun call' _ _ => hother (.inr rfl))
          · intro call' id' st hcall' hserves
            obtain rfl := Option.some.inj (hcall.symm.trans hcall')
            cases hserves
          · intro call' id' st hcall' hserves
            cases hcall'
            cases hserves
          · intro call' hcall'
            cases hcall'
            trivial
        · rw [List.append_nil]
          exact hrecorded.move (by rw [hst]; decide) (by decide) rfl
            ((hrecorded.lifecycle id).trans (by rw [hst]; rfl)) (fun _ _ => rfl)
            (iff_of_false (Finset.notMem_erase id _) (by decide))
            (fun i hi => Finset.mem_erase.trans (and_iff_right hi)) hqueue.pop
            (by rw [hst]; rfl) (by rw [hst]; rfl)
    · exact hreturn
  | lockRates caller =>
    exact hidle rfl (.dropRates caller) rfl trivial fun hholds => absurd hholds Bool.false_ne_true
  | dropRates caller =>
    cases caller with
    | snapshot => exact hidle rfl .lockRegistry rfl trivial fun hholds => absurd hholds Bool.false_ne_true
    | summary | sampleRates => exact ⟨stage, .inl rfl, h.returns hcall rfl rfl⟩
  | lockRegistry => exact hidle rfl (.readLifecycles s.metrics.entries []) rfl trivial fun _ => .inl rfl
  | readLifecycles todo connections =>
    rw [Call.act]
    split
    · exact ⟨stage, .inl rfl, h.returns hcall rfl rfl⟩
    · split
      · exact hidle rfl (.readLifecycles _ _) rfl trivial fun _ => .inr rfl
      · exact hidle rfl (.readLifecycles todo connections) rfl trivial fun _ => .inr rfl

/-- **One step of the store** moves at most one handle on. -/
theorem storeStep_tracks [Fintype T] (h : Tracks stage s events) (op : StoreOp T) :
    ∃ stage', Moves stage stage' ∧ Tracks stage' (storeStep s op).1 (events ++ (storeStep s op).2) := by
  have hsame : ∃ stage', Moves stage stage' ∧ Tracks stage' s (events ++ []) :=
    ⟨stage, .inl rfl, by rwa [List.append_nil]⟩
  have hbegins : ∀ t call, s.calls t = none → call.serves = none → call.Allowed stage →
      call.holdsRegistry = false →
      ∃ stage', Moves stage stage' ∧ Tracks stage' (s.setCall t (some call)) (events ++ []) := by
    intro t call hidle hserves hallowed hholds
    refine ⟨stage, .inl rfl, h.idle (fun _ hcall => ?_) (fun _ hcall => ?_) (fun _ hcall hheld => ?_) rfl⟩
    · cases hidle.symm.trans hcall
    · obtain rfl := Option.some.inj hcall
      exact ⟨hserves, hallowed⟩
    · obtain rfl := Option.some.inj hcall
      cases hholds.symm.trans hheld
  have hrates : ∀ t caller,
      ∃ stage', Moves stage stage' ∧ Tracks stage' (s.beginRates t caller) (events ++ []) := by
    intro t caller
    rw [Store.beginRates]
    split
    · rename_i hidle
      exact hbegins t _ hidle rfl trivial rfl
    · exact hsame
  cases op with
  | openConnection t client server encrypted =>
    rw [storeStep]
    split
    · rename_i hidle
      have hfresh : stage s.metrics.nextConnId = .fresh := (h.recorded.fresh _).mpr (.inr (Nat.le_refl _))
      refine ⟨Function.update stage s.metrics.nextConnId .taken, .inr ⟨_, by rw [hfresh]; rfl⟩, ?_, ?_⟩
      · refine h.placed.move ?_ (fun t' call' st _ hcall' => h.placed.not_served (by rw [hfresh]; rfl) hcall' st)
          ?_ ?_ ?_ (fun _ hcall => hcall) ?_
        · intro call id' st hcall
          cases hidle.symm.trans hcall
        · rw [hfresh]
          intro hreturned
          cases hreturned
        · intro call id' st hcall hserves
          cases hcall
          cases hserves
          exact ⟨rfl, rfl⟩
        · intro call hcall
          cases hcall
          trivial
        · intro call hcall hholds
          cases hcall
          cases hholds
      · rw [List.append_nil]
        exact h.recorded.newHandle client server encrypted
    · exact hsame
  | closeConnection t conn =>
    rw [storeStep]
    split
    · rename_i hbegin
      exact hbegins t _ hbegin.1 rfl (h.returned hbegin.2) rfl
    · exact hsame
  | snapshot t => exact hrates t .snapshot
  | summary t => exact hrates t .summary
  | sampleRates t => exact hrates t .sampleRates
  | advance t pick =>
    rw [storeStep]
    cases hcall : s.calls t with
    | none => exact hsame
    | some call =>
      dsimp only
      split
      · rename_i henabled
        exact act_tracks h pick hcall henabled.1
      · exact hsame

end Action

/-! ### Every interleaving -/

section Run

variable [Fintype T] [DecidableEq T]

omit [Fintype T] [DecidableEq T] in
theorem tracks_start (cap : ℕ) : Tracks (fun _ => .fresh) (Store.withLimits cap : Store T) [] := by
  have hplaced : Placed (fun _ => .fresh) (Store.withLimits cap : Store T).calls :=
    ⟨fun _ _ _ _ hcall => (by cases hcall), fun _ _ hcall => (by cases hcall),
      fun _ _ hcall => (by cases hcall), fun _ _ _ _ _ _ _ hcall => (by cases hcall),
      fun _ _ _ _ hcall => (by cases hcall)⟩
  have hnone : ∀ p : Stage → Bool, p .fresh = false →
      tally (Finset.range 1) p (fun _ => .fresh) = 0 := by
    intro p hp
    simp [tally, hp]
  refine ⟨hplaced, Nat.one_pos, fun id => ?_, fun _ => rfl, fun _ => ?_, ?_, (hnone _ rfl).symm,
    congrArg Nat.cast (hnone _ rfl).symm⟩
  · exact iff_of_true rfl (Nat.eq_zero_or_pos id)
  · exact iff_of_false (Finset.notMem_empty _) (by decide)
  · exact ⟨fun _ => iff_of_false List.not_mem_nil (by decide),
      ⟨[], rfl, fun _ => iff_of_false List.not_mem_nil (by decide)⟩, List.nodup_nil⟩

/-- **In every run** the store is what the stages of its handles say. -/
theorem calls_tracked (cap : ℕ) (ops : List (StoreOp T)) :
    ∃ stage, Tracks stage (run storeStep (.withLimits cap) ops).1
      (run storeStep (.withLimits cap) ops).2 := by
  refine run_invariant storeStep (fun _ s events => ∃ stage, Tracks stage s events)
    ⟨_, tracks_start cap⟩ ?_ ops
  rintro past s events op ⟨stage, h⟩
  obtain ⟨stage', _, h'⟩ := storeStep_tracks h op
  exact ⟨stage', h'⟩

variable {stage : ConnId → Stage} {s : Store T} {events : List StoreEvent}

omit [Fintype T] [DecidableEq T] in
/-- `conns_live` is at no time below zero, or above `conns_opened`. -/
theorem Tracks.live_bounds (h : Tracks stage s events) :
    0 ≤ s.metrics.connsLive ∧ s.metrics.connsLive ≤ s.metrics.connsOpened := by
  rw [h.recorded.live, h.recorded.opened]
  refine ⟨Int.natCast_nonneg _, Int.ofNat_le.mpr (tally_mono fun id _ hlive => ?_)⟩
  cases hst : stage id with
  | fresh | taken | entered | counted | left | queued | evicted =>
    rw [hst] at hlive
    cases hlive
  | live | marked | dropped => rfl

omit [Fintype T] [DecidableEq T] in
/-- With no call in flight a handle rests. -/
theorem Tracks.rests (h : Tracks stage s events) (hidle : ∀ t, s.calls t = none) (id : ConnId) :
    stage id = .fresh ∨ stage id = .live ∨ stage id = .queued ∨ stage id = .evicted := by
  have hnot : ∀ call, (stage id).call id ≠ some call := by
    intro call hcall
    obtain ⟨t, ht⟩ := h.placed.busy id call hcall
    cases (hidle t).symm.trans ht
  cases hst : stage id with
  | fresh => exact .inl rfl
  | live => exact .inr (.inl rfl)
  | queued => exact .inr (.inr (.inl rfl))
  | evicted => exact .inr (.inr (.inr rfl))
  | taken | entered | counted | marked | dropped | left =>
    rw [hst] at hnot
    exact absurd rfl (hnot _)

omit [Fintype T] [DecidableEq T] in
/-- **With no call in flight** the registry is exact, as after calls made one after the other. -/
theorem Tracks.exact (h : Tracks stage s events) (hidle : ∀ t, s.calls t = none) :
    Exact (queuedOf events) s.metrics ∧ s.metrics.connsOpened + 1 = s.metrics.nextConnId := by
  have hrests := h.rests hidle
  have hrecorded := h.recorded
  obtain ⟨evicted, hcut, hevicted⟩ := hrecorded.queue.cut
  have hclosed : ∀ id, id ∈ queuedOf events ↔ s.metrics.lifecycleOf id = some .closed := by
    intro id
    rw [hcut, List.mem_append, hevicted, hrecorded.queue.deque, hrecorded.lifecycle]
    rcases hrests id with hst | hst | hst | hst <;> rw [hst] <;> decide
  have hopen : ∀ id, s.metrics.lifecycleOf id = some .opened ↔ stage id = .live := by
    intro id
    rw [hrecorded.lifecycle]
    rcases hrests id with hst | hst | hst | hst <;> rw [hst] <;> decide
  refine ⟨⟨hclosed, hrecorded.queue.once, ?_, ?_, ?_, evicted, hcut, ?_⟩, ?_⟩
  · rw [hrecorded.live, Metrics.openIds, tally]
    congr 2
    refine Finset.filter_congr fun id _ => ?_
    rw [hopen]
    rcases hrests id with hst | hst | hst | hst <;> rw [hst] <;> decide
  · intro id hlife
    rw [hrecorded.entries, (hopen id).mp hlife]
    rfl
  · have hgone : ∀ id ∈ evicted, ¬(id ∈ s.metrics.entries) := by
      intro id hid
      rw [hrecorded.entries, (hevicted id).mp hid]
      decide
    have hkept : ∀ id ∈ s.metrics.closed, id ∈ s.metrics.entries := by
      intro id hid
      rw [hrecorded.entries, (hrecorded.queue.deque id).mp hid]
      rfl
    rw [hcut, List.filter_append, List.filter_eq_nil_iff.mpr fun id hid => by simpa using hgone id hid,
      List.filter_eq_self.mpr fun id hid => by simpa using hkept id hid, List.nil_append]
  · intro id hknown
    rw [hrecorded.entries, hevicted]
    rw [hrecorded.lifecycle] at hknown
    rcases hrests id with hst | hst | hst | hst
    · rw [hst] at hknown
      exact absurd rfl hknown
    · rw [hst]
      decide
    · rw [hst]
      decide
    · rw [hst]
      decide
  · have hcounted : (Finset.range s.metrics.nextConnId).filter (fun id => (stage id).countedOpened)
        = (Finset.range s.metrics.nextConnId).erase 0 := by
      ext id
      rw [Finset.mem_filter, Finset.mem_erase, and_comm]
      refine and_congr_left fun hid => ?_
      have hfresh := hrecorded.fresh id
      rw [or_iff_left (Nat.not_le_of_lt (Finset.mem_range.mp hid))] at hfresh
      rw [Ne, ← hfresh]
      rcases hrests id with hst | hst | hst | hst <;> rw [hst] <;> decide
    rw [hrecorded.opened, tally, hcounted,
      Finset.card_erase_of_mem (Finset.mem_range.mpr hrecorded.pos), Finset.card_range]
    exact Nat.sub_add_cancel hrecorded.pos

/-- **The registry under concurrent calls.**  In every run of any interleaving the store is what the stages
of its handles say, so `conns_live` never underflows nor exceeds `conns_opened`; and whenever no call is in
flight the registry is exact. -/
theorem calls_exact (cap : ℕ) (ops : List (StoreOp T)) :
    (∃ stage, Tracks stage (run storeStep (.withLimits cap) ops).1 (run storeStep (.withLimits cap) ops).2) ∧
      0 ≤ (run storeStep (Store.withLimits cap) ops).1.metrics.connsLive ∧
      (run storeStep (Store.withLimits cap) ops).1.metrics.connsLive
        ≤ (run storeStep (Store.withLimits cap) ops).1.metrics.connsOpened ∧
      ((∀ t, (run storeStep (Store.withLimits cap) ops).1.calls t = none) →
        Exact (queuedOf (run storeStep (.withLimits cap) ops).2)
            (run storeStep (Store.withLimits cap) ops).1.metrics ∧
          (run storeStep (Store.withLimits cap) ops).1.metrics.connsOpened + 1
            = (run storeStep (Store.withLimits cap) ops).1.metrics.nextConnId) := by
  obtain ⟨stage, h⟩ := calls_tracked (T := T) cap ops
  exact ⟨⟨stage, h⟩, h.live_bounds.1, h.live_bounds.2, h.exact⟩

end Run

end Tapgres.State
