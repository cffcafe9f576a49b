import Mathlib.Algebra.BigOperators.Intervals
import Mathlib.Algebra.Group.Int.Defs
import Mathlib.Tactic.Abel
import Tapgres.State.Metrics

/-!
# The records behind the aggregate counters

Every operation of the store on a connection that has a record changes that record, and moves the
aggregate counters by as much as the record's share in them moves (`Amends`).  Two consequences:

* `Summed` — the aggregate counters are the sums over all records ever opened;
* `Renumbers` — the records of one connection do not depend on how handles are given out
  (`Renumbers.opened`, `Renumbers.amend`), nor on other connections (`Renumbers.frame`).
-/

namespace Tapgres.State

open Tapgres.Net

/-- The aggregate counters. -/
inductive Counter where
  | connsOpened
  | connsLive
  | msgsIn
  | msgsOut
  | bytesIn
  | bytesOut
  deriving DecidableEq, Repr

def Metrics.total (m : Metrics) : Counter → ℤ
  | .connsOpened => m.connsOpened
  | .connsLive => m.connsLive
  | .msgsIn => m.msgsIn
  | .msgsOut => m.msgsOut
  | .bytesIn => m.bytesIn
  | .bytesOut => m.bytesOut

/-- What one record stands for in an aggregate counter. -/
def ConnStats.share (s : ConnStats) : Counter → ℤ
  | .connsOpened => 1
  | .connsLive => if s.lifecycle = .opened then 1 else 0
  | .msgsIn => s.msgsIn
  | .msgsOut => s.msgsOut
  | .bytesIn => s.bytesIn
  | .bytesOut => s.bytesOut

/-- The targets of all handles. -/
abbrev Records := ConnId → Option ConnStats

/-- Change one record. -/
def amend (arcs : Records) (conn : ConnId) (f : ConnStats → ConnStats) : Records :=
  fun id => if id = conn then (arcs id).map f else arcs id

theorem amend_self (arcs : Records) (conn : ConnId) (f : ConnStats → ConnStats) :
    amend arcs conn f conn = (arcs conn).map f := if_pos rfl

theorem amend_of_ne (arcs : Records) {conn id : ConnId} (f : ConnStats → ConnStats) (h : id ≠ conn) :
    amend arcs conn f id = arcs id := if_neg h

/-- The record under another handle. -/
def ConnStats.renumber (s : ConnStats) (id : ConnId) : ConnStats := { s with id }

@[simp] theorem renumber_share (s : ConnStats) (id : ConnId) : (s.renumber id).share = s.share := by
  funext counter
  cases counter <;> rfl

/-- A change of a record that keeps its addresses, and does not read its handle. -/
structure KeepsAddresses (f : ConnStats → ConnStats) : Prop where
  client : ∀ s, (f s).client = s.client
  server : ∀ s, (f s).server = s.server
  renumber : ∀ s id, f (s.renumber id) = (f s).renumber id

theorem KeepsAddresses.comp {f g : ConnStats → ConnStats} (hg : KeepsAddresses g) (hf : KeepsAddresses f) :
    KeepsAddresses (g ∘ f) := by
  refine ⟨?_, ?_, ?_⟩
  · intro s
    rw [Function.comp_apply, hg.client, hf.client]
  · intro s
    rw [Function.comp_apply, hg.server, hf.server]
  · intro s id
    rw [Function.comp_apply, hf.renumber, hg.renumber, Function.comp_apply]

theorem keepsAddresses_id : KeepsAddresses id := ⟨fun _ => rfl, fun _ => rfl, fun _ _ => rfl⟩

/-! ### The operations on a record -/

/-- From `m` to `m'`, the record of `conn` is changed by `f`, and the aggregate counters with it. -/
structure Amends (conn : ConnId) (f : ConnStats → ConnStats) (m m' : Metrics) : Prop where
  next : m'.nextConnId = m.nextConnId
  arcs : m'.arcs = amend m.arcs conn f
  total : ∀ s, m.arcs conn = some s → m'.total - m.total = (f s).share - s.share

theorem Amends.refl (conn : ConnId) (m : Metrics) : Amends conn id m m := by
  refine ⟨rfl, funext fun i => ?_, fun s _ => ?_⟩
  · rw [amend, Option.map_id, id, ite_self]
  · rw [sub_self, id, sub_self]

theorem Amends.trans {conn : ConnId} {f g : ConnStats → ConnStats} {m₁ m₂ m₃ : Metrics}
    (h : Amends conn f m₁ m₂) (h' : Amends conn g m₂ m₃) : Amends conn (g ∘ f) m₁ m₃ := by
  refine ⟨h'.next.trans h.next, funext fun i => ?_, fun s hs => ?_⟩
  · rw [h'.arcs, h.arcs]
    by_cases hi : i = conn
    · rw [hi, amend_self, amend_self, amend_self, Option.map_map]
    · rw [amend_of_ne _ _ hi, amend_of_ne _ _ hi, amend_of_ne _ _ hi]
  · have hs' : m₂.arcs conn = some (f s) := by rw [h.arcs, amend_self, hs, Option.map_some]
    rw [← sub_add_sub_cancel m₃.total m₂.total, h'.total _ hs', h.total _ hs, sub_add_sub_cancel,
      Function.comp_apply]

theorem setEncrypted_amends (m : Metrics) (conn : ConnId) (b : Bool) :
    Amends conn (fun s => { s with encrypted := b }) m (m.setEncrypted conn b) := by
  refine ⟨rfl, rfl, fun s _ => funext fun counter => ?_⟩
  cases counter <;> simp [Metrics.setEncrypted, Metrics.update, Metrics.total, ConnStats.share]

/-- The record with some more messages. -/
def ConnStats.count (direction : TrafficDirection) (count bytes : ℕ) (s : ConnStats) : ConnStats :=
  match direction with
  | .in => { s with msgsIn := s.msgsIn + count, bytesIn := s.bytesIn + bytes }
  | .out => { s with msgsOut := s.msgsOut + count, bytesOut := s.bytesOut + bytes }

theorem recordMessages_amends (m : Metrics) (conn : ConnId) (direction : TrafficDirection)
    (count bytes : ℕ) :
    Amends conn (ConnStats.count direction count bytes) m
      (m.recordMessages conn direction count bytes) := by
  refine ⟨recordMessages_nextConnId m conn direction count bytes, ?_, fun s _ => funext fun counter => ?_⟩
  · cases direction <;> rfl
  · cases direction <;> cases counter <;>
      simp [Metrics.recordMessages, Metrics.update, Metrics.total, ConnStats.count, ConnStats.share]

/-- The record, closed. -/
def ConnStats.close (s : ConnStats) : ConnStats := { s with lifecycle := .closed }

theorem closeConnection_amends (m : Metrics) (conn : ConnId) :
    Amends conn ConnStats.close m (m.closeConnection conn) := by
  refine ⟨closeConnection_nextConnId m conn, ?_, fun s hs => funext fun counter => ?_⟩
  · unfold Metrics.closeConnection
    split
    · rfl
    · rename_i hlife
      funext id
      rw [amend]
      split
      · rename_i hid
        subst hid
        cases hs : m.arcs id with
        | none => rfl
        | some s =>
          -- closed before
          have hclosed : s.lifecycle = .closed := by
            cases hs' : s.lifecycle with
            | opened => simp [hs, hs'] at hlife
            | closed => rfl
          rw [Option.map_some, ConnStats.close, ← hclosed]
      · rfl
  · unfold Metrics.closeConnection
    rw [hs]
    cases hlife : s.lifecycle <;>
      cases counter <;>
      simp [hlife, Metrics.update, Metrics.total, ConnStats.share, ConnStats.close]

/-! ### Sums -/

/-- The share of a handle's record. -/
def shareAt (arcs : Records) (id : ConnId) : Counter → ℤ :=
  (arcs id).elim 0 ConnStats.share

/-- The aggregate counters are the sums over all records, and no handle is given out twice. -/
structure Summed (m : Metrics) : Prop where
  total : m.total = ∑ id ∈ Finset.range m.nextConnId, shareAt m.arcs id
  fresh : ∀ id, m.nextConnId ≤ id → m.arcs id = none

theorem summed_withLimits (connectionCap : ℕ) : Summed (Metrics.withLimits connectionCap) := by
  refine ⟨funext fun counter => ?_, fun _ _ => rfl⟩
  cases counter <;> rfl

theorem Summed.lt {m : Metrics} (h : Summed m) {id : ConnId} {s : ConnStats} (hs : m.arcs id = some s) :
    id < m.nextConnId := by
  by_contra hle
  rw [h.fresh id (Nat.le_of_not_lt hle)] at hs
  cases hs

theorem Summed.amend {m m' : Metrics} (h : Summed m) {conn : ConnId} {f : ConnStats → ConnStats}
    {s : ConnStats} (hs : m.arcs conn = some s) (hamends : Amends conn f m m') : Summed m' := by
  have hmem : conn ∈ Finset.range m.nextConnId := Finset.mem_range.mpr (h.lt hs)
  refine ⟨?_, ?_⟩
  · rw [hamends.next, sub_eq_iff_eq_add'.mp (hamends.total s hs), h.total,
      ← Finset.sum_erase_add _ (shareAt m.arcs) hmem, ← Finset.sum_erase_add _ (shareAt m'.arcs) hmem]
    have hothers : ∑ id ∈ (Finset.range m.nextConnId).erase conn, shareAt m'.arcs id
        = ∑ id ∈ (Finset.range m.nextConnId).erase conn, shareAt m.arcs id := by
      apply Finset.sum_congr rfl
      intro id hid
      rw [shareAt, shareAt, hamends.arcs, amend_of_ne _ _ (Finset.ne_of_mem_erase hid)]
    have hold : shareAt m.arcs conn = s.share := by rw [shareAt, hs, Option.elim_some]
    have hnew : shareAt m'.arcs conn = (f s).share := by
      rw [shareAt, hamends.arcs, amend_self, hs, Option.map_some, Option.elim_some]
    rw [hothers, hold, hnew]
    abel
  · intro id hid
    have hne : id ≠ conn := by
      rintro rfl
      exact absurd (h.lt hs) (not_lt.mpr (hamends.next ▸ hid))
    rw [hamends.arcs, amend_of_ne _ _ hne]
    exact h.fresh id (hamends.next ▸ hid)

/-- The record a connection is opened with. -/
def ConnStats.start (id : ConnId) (client server : SocketAddr) (encrypted : Bool) : ConnStats :=
  { id, client, server, lifecycle := .opened, encrypted, msgsIn := 0, msgsOut := 0, bytesIn := 0
    bytesOut := 0 }

section Open

variable (m : Metrics) (client server : SocketAddr) (encrypted : Bool)

theorem openConnection_arcs : (m.openConnection client server encrypted).1.arcs
    = Function.update m.arcs m.nextConnId
        (some (ConnStats.start m.nextConnId client server encrypted)) := by
  funext id
  by_cases hid : id = m.nextConnId
  · subst hid
    rw [Function.update_self]
    exact if_pos rfl
  · rw [Function.update_of_ne hid]
    exact if_neg hid

theorem openConnection_total : (m.openConnection client server encrypted).1.total - m.total
    = (ConnStats.start m.nextConnId client server encrypted).share := by
  funext counter
  cases counter <;> simp [Metrics.openConnection, Metrics.total, ConnStats.share, ConnStats.start]

variable {m} in
theorem Summed.openConnection (h : Summed m) : Summed (m.openConnection client server encrypted).1 := by
  refine ⟨?_, ?_⟩
  · have hnext : (m.openConnection client server encrypted).1.nextConnId = m.nextConnId + 1 := rfl
    have htotal := sub_eq_iff_eq_add'.mp (openConnection_total m client server encrypted)
    rw [htotal, hnext, Finset.sum_range_succ, openConnection_arcs, h.total]
    refine congrArg₂ (· + ·) (Finset.sum_congr rfl fun id hid => ?_) ?_
    · rw [shareAt, shareAt, Function.update_of_ne (Finset.mem_range.mp hid).ne]
    · rw [shareAt, Function.update_self, Option.elim_some]
  · intro id hid
    have hlt : m.nextConnId < id := hid
    rw [openConnection_arcs, Function.update_of_ne hlt.ne']
    exact h.fresh id hlt.le

end Open

/-! ### The records of one connection -/

theorem amend_isSome (arcs : Records) (conn : ConnId) (f : ConnStats → ConnStats) (id : ConnId) :
    (amend arcs conn f id).isSome = (arcs id).isSome := by
  rw [amend]
  split
  · rw [Option.isSome_map]
  · rfl

/-- Under the handles `ρ`, the records of `lone` are those of `full` that have these addresses, in the
order in which they were opened. -/
structure Renumbers (client server : SocketAddr) (ρ : ConnId → ConnId) (full lone : Records) : Prop where
  record : ∀ id s, lone id = some s →
    full (ρ id) = some (s.renumber (ρ id)) ∧ s.client = client ∧ s.server = server
  all : ∀ id s, full id = some s → s.client = client → s.server = server →
    ∃ i, (lone i).isSome = true ∧ ρ i = id
  increasing : ∀ i j, (lone i).isSome = true → (lone j).isSome = true → i < j → ρ i < ρ j

theorem renumbers_none (client server : SocketAddr) (ρ : ConnId → ConnId) :
    Renumbers client server ρ (fun _ => none) (fun _ => none) := by
  refine ⟨?_, ?_, ?_⟩
  · intro id s hs
    cases hs
  · intro id s hs
    cases hs
  · intro i j hi
    cases hi

section Renumbers

variable {client server : SocketAddr} {ρ : ConnId → ConnId} {full lone : Records}

theorem Renumbers.ne (h : Renumbers client server ρ full lone) {i j : ConnId} (hi : (lone i).isSome = true)
    (hj : (lone j).isSome = true) (hne : i ≠ j) : ρ i ≠ ρ j := by
  rcases Nat.lt_or_gt_of_ne hne with hlt | hlt
  · exact (h.increasing i j hi hj hlt).ne
  · exact (h.increasing j i hj hi hlt).ne'

/-- The same change of the same record. -/
theorem Renumbers.amend (h : Renumbers client server ρ full lone) {f : ConnStats → ConnStats}
    (hf : KeepsAddresses f) {conn : ConnId} {s : ConnStats} (hs : lone conn = some s) :
    Renumbers client server ρ (amend full (ρ conn) f) (amend lone conn f) := by
  have hsome : (lone conn).isSome = true := by rw [hs, Option.isSome_some]
  refine ⟨?_, ?_, ?_⟩
  · intro id s' hs'
    by_cases hid : id = conn
    · subst hid
      obtain ⟨hfull, hclient, hserver⟩ := h.record id s hs
      rw [amend_self, hs, Option.map_some] at hs'
      obtain rfl := Option.some.inj hs'
      rw [amend_self, hfull, Option.map_some, hf.renumber, hf.client, hf.server]
      exact ⟨rfl, hclient, hserver⟩
    · rw [amend_of_ne _ _ hid] at hs'
      have hne := h.ne (by rw [hs', Option.isSome_some]) hsome hid
      rw [amend_of_ne _ _ hne]
      exact h.record id s' hs'
  · intro id s' hs' hclient hserver
    simp only [amend_isSome]
    by_cases hid : id = ρ conn
    · exact ⟨conn, hsome, hid.symm⟩
    · rw [amend_of_ne _ _ hid] at hs'
      exact h.all id s' hs' hclient hserver
  · intro i j
    simp only [amend_isSome]
    exact h.increasing i j

/-- Records with other addresses do not matter. -/
theorem Renumbers.frame (h : Renumbers client server ρ full lone) {full' : Records}
    (hkept : ∀ id s, s.client = client → s.server = server → (full' id = some s ↔ full id = some s)) :
    Renumbers client server ρ full' lone := by
  refine ⟨?_, ?_, h.increasing⟩
  · intro id s hs
    obtain ⟨hfull, hclient, hserver⟩ := h.record id s hs
    exact ⟨(hkept _ (s.renumber (ρ id)) hclient hserver).mpr hfull, hclient, hserver⟩
  · intro id s hs hclient hserver
    exact h.all id s ((hkept id s hclient hserver).mp hs) hclient hserver

/-- The next handle of the one is the next handle of the other. -/
theorem Renumbers.opened (h : Renumbers client server ρ full lone) {n n' : ConnId}
    (hfull : ∀ id s, full id = some s → id < n) (hlone : ∀ id s, lone id = some s → id < n')
    (encrypted : Bool) :
    Renumbers client server (Function.update ρ n' n)
      (Function.update full n (some (ConnStats.start n client server encrypted)))
      (Function.update lone n' (some (ConnStats.start n' client server encrypted))) := by
  have hlt : ∀ id, id ≠ n' →
      (Function.update lone n' (some (ConnStats.start n' client server encrypted)) id).isSome = true →
      ∃ s, lone id = some s ∧ id < n' ∧ ρ id < n := by
    intro id hid hsome
    rw [Function.update_of_ne hid] at hsome
    obtain ⟨s, hs⟩ := Option.isSome_iff_exists.mp hsome
    exact ⟨s, hs, hlone id s hs, hfull _ _ (h.record id s hs).1⟩
  refine ⟨?_, ?_, ?_⟩
  · intro id s hs
    by_cases hid : id = n'
    · subst hid
      rw [Function.update_self] at hs
      obtain rfl := Option.some.inj hs
      rw [Function.update_self, Function.update_self]
      exact ⟨rfl, rfl, rfl⟩
    · obtain ⟨s', hs', _, hρ⟩ := hlt id hid (by rw [hs, Option.isSome_some])
      rw [Function.update_of_ne hid] at hs ⊢
      rw [Function.update_of_ne hρ.ne]
      exact h.record id s hs
  · intro id s hs hclient hserver
    by_cases hid : id = n
    · subst hid
      exact ⟨n', by rw [Function.update_self, Option.isSome_some], Function.update_self ..⟩
    · rw [Function.update_of_ne hid] at hs
      obtain ⟨i, hi, rfl⟩ := h.all id s hs hclient hserver
      obtain ⟨s', hs'⟩ := Option.isSome_iff_exists.mp hi
      have hne := (hlone i s' hs').ne
      exact ⟨i, by rw [Function.update_of_ne hne, hi], Function.update_of_ne hne ..⟩
  · intro i j hi hj hij
    by_cases hi' : i = n'
    · -- nothing comes after the handle given out last
      subst hi'
      obtain ⟨_, _, hjn, _⟩ := hlt j hij.ne' hj
      exact absurd hij (Nat.lt_asymm hjn)
    · obtain ⟨s, hs, _, hρ⟩ := hlt i hi' hi
      rw [Function.update_of_ne hi']
      by_cases hj' : j = n'
      · rw [hj', Function.update_self]
        exact hρ
      · rw [Function.update_of_ne hj'] at hj ⊢
        exact h.increasing i j (by rw [hs, Option.isSome_some]) hj hij

end Renumbers

end Tapgres.State
