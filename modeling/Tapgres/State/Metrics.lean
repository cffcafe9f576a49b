import Mathlib.Data.Finset.Card
import Tapgres.Net

/-!
# Connection and traffic metrics

The store of `state.rs`.  A `ConnStats` is shared by `Arc` between the registry and the connection that
updates it; here the handle is the `ConnId`, and `Metrics.arcs` holds the target of every handle ever
given out, retained by the registry or not.  Clock readings (`since`, `ended`) are left out.  The counters
are unbounded; those of the source have 64 bits and wrap, as they do in `State.Rates`.
-/

namespace Tapgres.State

open Tapgres.Net

abbrev ConnId := ℕ

inductive TrafficDirection where
  | «in»
  | out
  deriving DecidableEq, Repr

inductive ConnectionLifecycle where
  | opened
  | closed
  deriving DecidableEq, Repr

/-- A connection handle kept by a traffic source for counter updates. -/
structure ConnStats where
  id : ConnId
  client : SocketAddr
  server : SocketAddr
  lifecycle : ConnectionLifecycle
  encrypted : Bool
  msgsIn : ℕ
  msgsOut : ℕ
  bytesIn : ℕ
  bytesOut : ℕ
  deriving DecidableEq, Repr

/-- The shared store.  `connsLive` is an integer, so that an underflow would show as a negative value. -/
structure Metrics where
  connsOpened : ℕ
  connsLive : ℤ
  nextConnId : ConnId
  msgsIn : ℕ
  msgsOut : ℕ
  bytesIn : ℕ
  bytesOut : ℕ
  arcs : ConnId → Option ConnStats
  /-- The keys of the registry's `entries`. -/
  entries : Finset ConnId
  /-- The registry's `closed` deque, oldest first. -/
  closed : List ConnId
  connectionCap : ℕ

def Metrics.withLimits (connectionCap : ℕ) : Metrics :=
  { connsOpened := 0, connsLive := 0, nextConnId := 1, msgsIn := 0, msgsOut := 0, bytesIn := 0
    bytesOut := 0, arcs := fun _ => none, entries := ∅, closed := [], connectionCap }

/-- `DEFAULT_CONNECTION_CAP` -/
def defaultConnectionCap : ℕ := 10000

def Metrics.new : Metrics := Metrics.withLimits defaultConnectionCap

/-- Change the target of a handle. -/
def Metrics.update (m : Metrics) (conn : ConnId) (f : ConnStats → ConnStats) : Metrics :=
  { m with arcs := fun id => if id = conn then (m.arcs id).map f else m.arcs id }

def Metrics.openConnection (m : Metrics) (client server : SocketAddr) (encrypted : Bool) :
    Metrics × ConnId :=
  let id := m.nextConnId
  let stats : ConnStats :=
    { id, client, server, lifecycle := .opened, encrypted, msgsIn := 0, msgsOut := 0, bytesIn := 0
      bytesOut := 0 }
  ({ m with
      nextConnId := id + 1
      arcs := fun i => if i = id then some stats else m.arcs i
      entries := insert id m.entries
      connsOpened := m.connsOpened + 1
      connsLive := m.connsLive + 1 }, id)

/-- Account for `count` decoded messages (`bytes` of wire data) flowing in `direction` on `conn`. -/
def Metrics.recordMessages (m : Metrics) (conn : ConnId) (direction : TrafficDirection)
    (count bytes : ℕ) : Metrics :=
  match direction with
  | .in =>
    { m with msgsIn := m.msgsIn + count, bytesIn := m.bytesIn + bytes }.update conn fun s =>
      { s with msgsIn := s.msgsIn + count, bytesIn := s.bytesIn + bytes }
  | .out =>
    { m with msgsOut := m.msgsOut + count, bytesOut := m.bytesOut + bytes }.update conn fun s =>
      { s with msgsOut := s.msgsOut + count, bytesOut := s.bytesOut + bytes }

def Metrics.setEncrypted (m : Metrics) (conn : ConnId) (encrypted : Bool) : Metrics :=
  m.update conn fun s => { s with encrypted := encrypted }

/-- The eviction loop: oldest closed records go while more than `cap` are retained. -/
def evict (cap : ℕ) : Finset ConnId → List ConnId → Finset ConnId × List ConnId
  | entries, [] => (entries, [])
  | entries, id :: closed =>
    if entries.card > cap then evict cap (entries.erase id) closed else (entries, id :: closed)

def Metrics.closeConnection (m : Metrics) (conn : ConnId) : Metrics :=
  match (m.arcs conn).map ConnStats.lifecycle with
  | some .opened =>
    let m := m.update conn fun s => { s with lifecycle := .closed }
    let (entries, closed) := evict m.connectionCap m.entries (m.closed ++ [conn])
    { m with connsLive := m.connsLive - 1, entries := entries, closed := closed }
  | _ => m

/-! ### What each operation leaves alone -/

section Frame

variable (m : Metrics) (conn : ConnId)

@[simp] theorem update_connsOpened (f) : (m.update conn f).connsOpened = m.connsOpened := rfl
@[simp] theorem update_connsLive (f) : (m.update conn f).connsLive = m.connsLive := rfl
@[simp] theorem update_nextConnId (f) : (m.update conn f).nextConnId = m.nextConnId := rfl
@[simp] theorem update_msgsIn (f) : (m.update conn f).msgsIn = m.msgsIn := rfl
@[simp] theorem update_msgsOut (f) : (m.update conn f).msgsOut = m.msgsOut := rfl
@[simp] theorem update_bytesIn (f) : (m.update conn f).bytesIn = m.bytesIn := rfl
@[simp] theorem update_bytesOut (f) : (m.update conn f).bytesOut = m.bytesOut := rfl

@[simp] theorem setEncrypted_connsOpened (b) : (m.setEncrypted conn b).connsOpened = m.connsOpened := rfl
@[simp] theorem setEncrypted_connsLive (b) : (m.setEncrypted conn b).connsLive = m.connsLive := rfl
@[simp] theorem setEncrypted_nextConnId (b) : (m.setEncrypted conn b).nextConnId = m.nextConnId := rfl

@[simp] theorem recordMessages_connsOpened (dir n k) :
    (m.recordMessages conn dir n k).connsOpened = m.connsOpened := by
  cases dir <;> rfl

@[simp] theorem recordMessages_connsLive (dir n k) :
    (m.recordMessages conn dir n k).connsLive = m.connsLive := by
  cases dir <;> rfl

@[simp] theorem recordMessages_nextConnId (dir n k) :
    (m.recordMessages conn dir n k).nextConnId = m.nextConnId := by
  cases dir <;> rfl

@[simp] theorem closeConnection_connsOpened :
    (m.closeConnection conn).connsOpened = m.connsOpened := by
  unfold Metrics.closeConnection
  split <;> rfl

@[simp] theorem closeConnection_nextConnId :
    (m.closeConnection conn).nextConnId = m.nextConnId := by
  unfold Metrics.closeConnection
  split <;> rfl

end Frame

/-! ### Opening and closing -/

/-- The lifecycle in the record of a handle. -/
def Metrics.lifecycleOf (m : Metrics) (conn : ConnId) : Option ConnectionLifecycle :=
  (m.arcs conn).map ConnStats.lifecycle

theorem update_lifecycleOf (m : Metrics) (conn id : ConnId) {f : ConnStats → ConnStats}
    (hf : ∀ s, (f s).lifecycle = s.lifecycle) : (m.update conn f).lifecycleOf id = m.lifecycleOf id := by
  rw [Metrics.lifecycleOf, Metrics.lifecycleOf, Metrics.update]
  dsimp only
  split
  · cases m.arcs id <;> simp [hf]
  · rfl

@[simp] theorem setEncrypted_lifecycleOf (m : Metrics) (conn id : ConnId) (b : Bool) :
    (m.setEncrypted conn b).lifecycleOf id = m.lifecycleOf id :=
  update_lifecycleOf m conn id fun _ => rfl

@[simp] theorem recordMessages_lifecycleOf (m : Metrics) (conn id : ConnId) (dir : TrafficDirection)
    (n k : ℕ) : (m.recordMessages conn dir n k).lifecycleOf id = m.lifecycleOf id := by
  cases dir <;> exact update_lifecycleOf _ conn id fun _ => rfl

/-- A fresh handle is open. -/
theorem openConnection_lifecycleOf (m : Metrics) (client server : SocketAddr) (b : Bool) :
    (m.openConnection client server b).1.lifecycleOf m.nextConnId = some .opened := by
  simp [Metrics.lifecycleOf, Metrics.openConnection]

/-- Closing an open connection takes it out of the live ones and marks it. -/
theorem closeConnection_of_opened {m : Metrics} {conn : ConnId}
    (h : m.lifecycleOf conn = some .opened) :
    (m.closeConnection conn).connsLive = m.connsLive - 1 ∧
      (m.closeConnection conn).lifecycleOf conn = some .closed := by
  rw [Metrics.lifecycleOf] at h
  obtain ⟨s, hs, _⟩ := Option.map_eq_some_iff.mp h
  rw [Metrics.closeConnection, h]
  refine ⟨rfl, ?_⟩
  simp [Metrics.lifecycleOf, Metrics.update, hs]

/-- Closing it again does nothing. -/
theorem closeConnection_of_closed {m : Metrics} {conn : ConnId}
    (h : m.lifecycleOf conn = some .closed) : m.closeConnection conn = m := by
  rw [Metrics.lifecycleOf] at h
  rw [Metrics.closeConnection, h]

/-! ### What was counted -/

def Metrics.msgs (m : Metrics) : TrafficDirection → ℕ
  | .in => m.msgsIn
  | .out => m.msgsOut

def Metrics.bytes (m : Metrics) : TrafficDirection → ℕ
  | .in => m.bytesIn
  | .out => m.bytesOut

def ConnStats.msgs (s : ConnStats) : TrafficDirection → ℕ
  | .in => s.msgsIn
  | .out => s.msgsOut

def ConnStats.bytes (s : ConnStats) : TrafficDirection → ℕ
  | .in => s.bytesIn
  | .out => s.bytesOut

/-- From `m` to `m'`, `msgs` messages and `bytes` wire bytes were counted on `conn`, in the totals and in
its own record, and nothing on any other connection. -/
structure Counted (conn : ConnId) (msgs bytes : TrafficDirection → ℕ) (m m' : Metrics) : Prop where
  nextConnId : m'.nextConnId = m.nextConnId
  totalMsgs : ∀ d, m'.msgs d = m.msgs d + msgs d
  totalBytes : ∀ d, m'.bytes d = m.bytes d + bytes d
  other : ∀ id, id ≠ conn → m'.arcs id = m.arcs id
  own : ∀ s, m.arcs conn = some s → ∃ s', m'.arcs conn = some s' ∧
    ∀ d, s'.msgs d = s.msgs d + msgs d ∧ s'.bytes d = s.bytes d + bytes d

theorem Counted.refl (conn : ConnId) (m : Metrics) : Counted conn (fun _ => 0) (fun _ => 0) m m :=
  ⟨rfl, fun _ => rfl, fun _ => rfl, fun _ _ => rfl, fun s hs => ⟨s, hs, fun _ => ⟨rfl, rfl⟩⟩⟩

theorem Counted.trans {conn : ConnId} {n k n' k' : TrafficDirection → ℕ} {m₁ m₂ m₃ : Metrics}
    (h : Counted conn n k m₁ m₂) (h' : Counted conn n' k' m₂ m₃) :
    Counted conn (fun d => n d + n' d) (fun d => k d + k' d) m₁ m₃ := by
  refine ⟨h'.nextConnId.trans h.nextConnId, ?_, ?_, ?_, ?_⟩
  · intro d
    rw [h'.totalMsgs, h.totalMsgs, Nat.add_assoc]
  · intro d
    rw [h'.totalBytes, h.totalBytes, Nat.add_assoc]
  · intro id hid
    rw [h'.other id hid, h.other id hid]
  · intro s hs
    obtain ⟨s₂, hs₂, h₂⟩ := h.own s hs
    obtain ⟨s₃, hs₃, h₃⟩ := h'.own s₂ hs₂
    refine ⟨s₃, hs₃, fun d => ⟨?_, ?_⟩⟩
    · rw [(h₃ d).1, (h₂ d).1, Nat.add_assoc]
    · rw [(h₃ d).2, (h₂ d).2, Nat.add_assoc]

/-- An update of one record that adds to its counters, with totals that grow as much. -/
theorem counted_update {conn : ConnId} {msgs bytes : TrafficDirection → ℕ} {m total : Metrics}
    {f : ConnStats → ConnStats} (harcs : total.arcs = m.arcs) (hnext : total.nextConnId = m.nextConnId)
    (hm : ∀ d, total.msgs d = m.msgs d + msgs d) (hb : ∀ d, total.bytes d = m.bytes d + bytes d)
    (hf : ∀ s d, (f s).msgs d = s.msgs d + msgs d ∧ (f s).bytes d = s.bytes d + bytes d) :
    Counted conn msgs bytes m (total.update conn f) := by
  refine ⟨hnext, ?_, ?_, ?_, ?_⟩
  · intro d
    rw [← hm]
    cases d <;> rfl
  · intro d
    rw [← hb]
    cases d <;> rfl
  · intro id hid
    simp [Metrics.update, hid, harcs]
  · intro s hs
    exact ⟨f s, by simp [Metrics.update, harcs, hs], hf s⟩

theorem setEncrypted_counted (m : Metrics) (conn : ConnId) (b : Bool) :
    Counted conn (fun _ => 0) (fun _ => 0) m (m.setEncrypted conn b) :=
  counted_update rfl rfl (fun _ => rfl) (fun _ => rfl) fun s d => by cases d <;> exact ⟨rfl, rfl⟩

theorem recordMessages_counted (m : Metrics) (conn : ConnId) (direction : TrafficDirection)
    (count bytes : ℕ) :
    Counted conn (fun d => if d = direction then count else 0)
      (fun d => if d = direction then bytes else 0) m (m.recordMessages conn direction count bytes) := by
  cases direction with
  | «in» =>
    refine counted_update rfl rfl (fun d => ?_) (fun d => ?_) fun s d => ?_
    · cases d <;> rfl
    · cases d <;> rfl
    · cases d <;> exact ⟨rfl, rfl⟩
  | out =>
    refine counted_update rfl rfl (fun d => ?_) (fun d => ?_) fun s d => ?_
    · cases d <;> rfl
    · cases d <;> rfl
    · cases d <;> exact ⟨rfl, rfl⟩

theorem closeConnection_counted (m : Metrics) (conn : ConnId) :
    Counted conn (fun _ => 0) (fun _ => 0) m (m.closeConnection conn) := by
  unfold Metrics.closeConnection
  split
  · have h : Counted conn (fun _ => 0) (fun _ => 0) m
        (m.update conn fun s => { s with lifecycle := .closed }) :=
      counted_update rfl rfl (fun _ => rfl) (fun _ => rfl) fun s d => by cases d <;> exact ⟨rfl, rfl⟩
    exact ⟨h.nextConnId, h.totalMsgs, h.totalBytes, h.other, h.own⟩
  · exact Counted.refl conn m

end Tapgres.State
