import Tapgres.Lib.Tally
import Tapgres.Proxy.Server

/-!
# What the store says of the proxy

The tasks of `Proxy.Server` share the store of the metrics: a task registers its connection, its pumps count
on it, and the guard that it holds closes it on every way to return.

* `Moved` — what a step of a task does to the store, and to the task's share of the account;
* `serve_accounts` — the store always says what the tasks have done: each connection is open in the registry
  exactly while its task runs, and every message is counted once, on its own connection;
* `serve_reports` — and what a connection has forwarded has been reported, and counted.
-/

namespace Tapgres.Proxy

open Relation (ReflTransGen)
open Tapgres.Net Tapgres.Pgwire Tapgres.Decode Tapgres.Flow Tapgres.State Tapgres.Lib.Tally

/-! ### What a step of a pump counts -/

theorem read_lifecycleOf (pg : Decoder) (stats : ConnId) (p : Pump) (metrics : Metrics) (chunk : Bytes) :
    (p.read pg stats metrics chunk).2.1.connsOpened = metrics.connsOpened ∧
      (p.read pg stats metrics chunk).2.1.connsLive = metrics.connsLive ∧
      ∀ id, (p.read pg stats metrics chunk).2.1.lifecycleOf id = metrics.lifecycleOf id := by
  rw [Pump.read]
  split
  · exact ⟨rfl, rfl, fun _ => rfl⟩
  · dsimp only
    split
    · exact ⟨recordMessages_connsOpened .., recordMessages_connsLive .., fun id => recordMessages_lifecycleOf ..⟩
    · exact ⟨rfl, rfl, fun _ => rfl⟩

/-- A step of the relay, or an error, opens and closes nothing. -/
theorem faultyStep_lifecycleOf {pg : Decoder} {stats : ConnId} {f f' : FaultyRelay}
    (hstep : FaultyStep pg stats f f') :
    f'.relay.metrics.connsOpened = f.relay.metrics.connsOpened ∧
      f'.relay.metrics.connsLive = f.relay.metrics.connsLive ∧
      ∀ id, f'.relay.metrics.lifecycleOf id = f.relay.metrics.lifecycleOf id := by
  cases hstep with
  | fail role _ => exact ⟨rfl, rfl, fun _ => rfl⟩
  | abort role _ _ => exact ⟨rfl, rfl, fun _ => rfl⟩
  | step hstep =>
    cases hstep with
    | read role chunk rest _ _ _ => exact read_lifecycleOf pg stats _ _ chunk
    | send _ _ _ | close _ _ | eof _ _ _ _ | write _ _ _ _ _ _ | abort _ _ _ => exact ⟨rfl, rfl, fun _ => rfl⟩

/-- The legs of a relay that runs alone. -/
theorem Lone.ok {pg : Decoder} (hpg : pg.Consumes) {conn : ConnId} {client : SocketAddr} {initial : Bytes}
    {legs : Role → Leg} {output : List Event} {failed : Role → Bool}
    (h : Lone pg conn client initial legs output failed) (role : Role) : (legs role).Ok role := by
  obtain ⟨m, hreach⟩ := h Metrics.new
  obtain ⟨r, hreach', hstopped⟩ := faulty_simulated hreach
  have hok := relay_ok hpg hreach' role
  rcases hstopped.leg role with hleg | hleg
  · rw [show legs role = r.legs role from hleg]
    exact hok
  · rw [show legs role = _ from hleg]
    exact ⟨hok.role, hok.dir, hok.written_taken, fun hfinished => by cases hfinished⟩

/-- What it emits is counted, on its own connection. -/
theorem faultyStep_counted {pg : Decoder} (hpg : pg.Consumes) {stats : ConnId} {f f' : FaultyRelay}
    (hok : ∀ role, (f.relay.legs role).Ok role) (hstep : FaultyStep pg stats f f') :
    ∃ es, f'.relay.output = f.relay.output ++ es ∧
      Counted stats (fun d => messagesOf (side d) es) (fun d => wireOf (side d) es) f.relay.metrics
        f'.relay.metrics := by
  have hnothing : f'.relay.output = f.relay.output → f'.relay.metrics = f.relay.metrics →
      ∃ es, f'.relay.output = f.relay.output ++ es ∧
        Counted stats (fun d => messagesOf (side d) es) (fun d => wireOf (side d) es) f.relay.metrics
          f'.relay.metrics := by
    intro houtput hmetrics
    refine ⟨[], by rw [houtput, List.append_nil], ?_⟩
    rw [hmetrics]
    exact Counted.refl stats _
  cases hstep with
  | fail role _ => exact hnothing rfl rfl
  | abort role _ _ => exact hnothing rfl rfl
  | step hstep =>
    rcases relayStep_arrival hpg hok hstep with ⟨_, _, houtput, hmetrics⟩ | ⟨_, _, es, _, _, houtput, hes⟩
    · exact hnothing houtput hmetrics
    · exact ⟨es, houtput, hes⟩

/-! ### Accounting -/

def Progress.over : Progress → Bool
  | .returned _ _ => true
  | _ => false

def Task.registered (t : Task) : Bool := t.conn.isSome

/-- It is registered and has not returned. -/
def Task.live (t : Task) : Bool := t.conn.isSome && !t.progress.over

def Task.lifecycle (t : Task) : ConnectionLifecycle := if t.progress.over then .closed else .opened

/-- The store's record of a task: open until it returns, with the messages that it has emitted. -/
structure Task.Recorded (metrics : Metrics) (t : Task) (conn : ConnId) : Prop where
  below : conn < metrics.nextConnId
  lifecycle : metrics.lifecycleOf conn = some t.lifecycle
  counts : ∃ stats, metrics.arcs conn = some stats ∧
    ∀ d, stats.msgs d = messagesOf (side d) t.output ∧ stats.bytes d = wireOf (side d) t.output

/-- **The store says what the tasks have done.** -/
structure Server.Accounts (s : Server) : Prop where
  recorded : ∀ i, i < s.accepted → ∀ conn, (s.tasks i).conn = some conn →
    (s.tasks i).Recorded s.metrics conn
  distinct : ∀ i j conn, i < s.accepted → j < s.accepted → (s.tasks i).conn = some conn →
    (s.tasks j).conn = some conn → i = j
  opened : s.metrics.connsOpened = tally (Finset.range s.accepted) Task.registered s.tasks
  live : s.metrics.connsLive = tally (Finset.range s.accepted) Task.live s.tasks
  msgs : ∀ d, s.metrics.msgs d = ∑ i ∈ Finset.range s.accepted, messagesOf (side d) (s.tasks i).output
  bytes : ∀ d, s.metrics.bytes d = ∑ i ∈ Finset.range s.accepted, wireOf (side d) (s.tasks i).output
  statuses : ∀ status, s.statuses.count status
    = tally (Finset.range s.accepted) (fun t => t.status = some status) s.tasks

/-- What a step of a task does to the store and to the task's share of the account. -/
structure Moved (metrics metrics' : Metrics) (t t' : Task) : Prop where
  recorded : ∀ conn, t'.conn = some conn → t'.Recorded metrics' conn
  conn : t'.conn = t.conn ∨ t'.conn = some metrics.nextConnId
  nextConnId : metrics.nextConnId ≤ metrics'.nextConnId
  others : ∀ id, id < metrics.nextConnId → t.conn ≠ some id → metrics'.arcs id = metrics.arcs id
  opened : metrics'.connsOpened + one t.registered = metrics.connsOpened + one t'.registered
  live : metrics'.connsLive + one t.live = metrics.connsLive + one t'.live
  msgs : ∀ d, metrics'.msgs d + messagesOf (side d) t.output
    = metrics.msgs d + messagesOf (side d) t'.output
  bytes : ∀ d, metrics'.bytes d + wireOf (side d) t.output = metrics.bytes d + wireOf (side d) t'.output
  status : t.status = none

section Moves

variable {metrics : Metrics} {t : Task}

/-- A task that stays the same to the store. -/
theorem moved_same {t' : Task} (hrecorded : ∀ conn, t.conn = some conn → t.Recorded metrics conn)
    (hconn : t'.conn = t.conn) (houtput : t'.output = t.output) (hover : t.progress.over = false)
    (hover' : t'.progress.over = false) (hstatus : t.status = none) : Moved metrics metrics t t' := by
  have hlive : t'.live = t.live := by rw [Task.live, Task.live, hconn, hover, hover']
  refine ⟨fun conn h => ?_, .inl hconn, Nat.le_refl _, fun _ _ _ => rfl, ?_, ?_, fun d => ?_, fun d => ?_, hstatus⟩
  · obtain ⟨hbelow, hlifecycle, hcounts⟩ := hrecorded conn (hconn.symm.trans h)
    refine ⟨hbelow, ?_, by rw [houtput]; exact hcounts⟩
    rw [hlifecycle, Task.lifecycle, Task.lifecycle, hover, hover']
  · rw [Task.registered, Task.registered, hconn]
  · rw [hlive]
  · rw [houtput]
  · rw [houtput]

/-- A task that returns: the guard closes its connection. -/
theorem moved_finish (hrecorded : ∀ conn, t.conn = some conn → t.Recorded metrics conn)
    (hover : t.progress.over = false) (last : Last) (error : Option String) :
    Moved metrics (t.finish metrics last error).1 t (t.finish metrics last error).2 := by
  have hstatus : t.status = none := by
    rw [Task.status]
    cases hprogress : t.progress with
    | returned last e =>
      rw [hprogress] at hover
      cases hover
    | spawned | preparing _ | cancelling _ | relaying _ _ => rfl
  cases hconn : t.conn with
  | none =>
    have hfinish : (t.finish metrics last error).1 = metrics := by rw [Task.finish, hconn]
    rw [hfinish]
    refine ⟨fun conn h => ?_, .inl rfl, Nat.le_refl _, fun _ _ _ => rfl, rfl, ?_, fun d => rfl, fun d => rfl, hstatus⟩
    · cases hconn.symm.trans h
    · show metrics.connsLive + one (t.conn.isSome && _) = metrics.connsLive + one (t.conn.isSome && _)
      rw [hconn]
      rfl
  | some conn =>
    have hfinish : (t.finish metrics last error).1 = metrics.closeConnection conn := by rw [Task.finish, hconn]
    obtain ⟨hbelow, hlifecycle, stats, hstats, hcounts⟩ := hrecorded conn hconn
    rw [Task.lifecycle, hover] at hlifecycle
    obtain ⟨hlive, hclosed⟩ := closeConnection_of_opened hlifecycle
    have hcounted := closeConnection_counted metrics conn
    rw [hfinish]
    refine ⟨fun conn' h => ?_, .inl rfl, ?_, fun id _ hid => ?_, ?_, ?_, fun d => ?_, fun d => ?_, hstatus⟩
    · obtain rfl : conn = conn' := Option.some.inj (hconn.symm.trans h)
      obtain ⟨stats', hstats', hcounts'⟩ := hcounted.own stats hstats
      refine ⟨by rw [closeConnection_nextConnId]; exact hbelow, hclosed, stats', hstats', fun d => ?_⟩
      rw [(hcounts' d).1, (hcounts' d).2]
      exact hcounts d
    · rw [closeConnection_nextConnId]
    · exact hcounted.other id fun h => hid (by rw [hconn, h])
    · rw [closeConnection_connsOpened]
      rfl
    · show _ + ((one (t.conn.isSome && !t.progress.over) : ℕ) : ℤ) = _ + ((one (t.conn.isSome && false) : ℕ) : ℤ)
      rw [hlive, hconn, hover]
      simp [one]
    · rw [hcounted.totalMsgs]
      rfl
    · rw [hcounted.totalBytes]
      rfl

/-- A task that registers its connection. -/
theorem moved_register (hprogress : t.progress = .spawned) (hconn : t.conn = none) (houtput : t.output = [])
    (server : SocketAddr) :
    Moved metrics (metrics.openConnection t.peer server false).1 t
      { t with
        conn := some (metrics.openConnection t.peer server false).2
        progress := .preparing Setup.start } := by
  refine ⟨fun conn h => ?_, .inr rfl, Nat.le_succ _, fun id hid _ => ?_, ?_, ?_, fun d => ?_, fun d => ?_, ?_⟩
  · obtain rfl : metrics.nextConnId = conn := Option.some.inj h
    refine ⟨Nat.lt_succ_self _, openConnection_lifecycleOf metrics t.peer server false, ?_⟩
    refine ⟨_, if_pos rfl, fun d => ?_⟩
    dsimp only
    rw [houtput]
    cases d <;> exact ⟨rfl, rfl⟩
  · exact if_neg (Nat.ne_of_lt hid)
  · rw [Task.registered, hconn]
    rfl
  · rw [Task.live, hconn]
    show metrics.connsLive + 1 + ((one false : ℕ) : ℤ) = metrics.connsLive + ((one true : ℕ) : ℤ)
    simp [one]
  · cases d <;> rfl
  · cases d <;> rfl
  · rw [Task.status, hprogress]

/-- A task whose pump, or peer, does something. -/
theorem moved_pump {pg : Decoder} (hpg : pg.Consumes) {conn : ConnId} {legs : Role → Leg} {failed : Role → Bool}
    {f : FaultyRelay} (hrecorded : t.Recorded metrics conn) (hconn : t.conn = some conn)
    (hprogress : t.progress = .relaying legs failed) (hok : ∀ role, (legs role).Ok role)
    (hstep : FaultyStep pg conn ⟨⟨legs, metrics, t.output⟩, failed⟩ f) :
    Moved metrics f.relay.metrics t
      { t with output := f.relay.output, progress := .relaying f.relay.legs f.failed } := by
  obtain ⟨hopened, hlive, hlifecycle⟩ := faultyStep_lifecycleOf hstep
  obtain ⟨es, houtput, hcounted⟩ := faultyStep_counted hpg hok hstep
  dsimp only at hopened hlive hlifecycle houtput hcounted
  obtain ⟨hbelow, hopen, stats, hstats, hcounts⟩ := hrecorded
  refine ⟨fun conn' h => ?_, .inl rfl, Nat.le_of_eq hcounted.nextConnId.symm, fun id _ hid => ?_, ?_, ?_, fun d => ?_,
    fun d => ?_, by rw [Task.status, hprogress]⟩
  · obtain rfl : conn = conn' := Option.some.inj (hconn.symm.trans h)
    obtain ⟨stats', hstats', hcounts'⟩ := hcounted.own stats hstats
    refine ⟨by rw [hcounted.nextConnId]; exact hbelow, ?_, stats', hstats', fun d => ?_⟩
    · rw [hlifecycle, hopen, Task.lifecycle, Task.lifecycle, hprogress]
      rfl
    · dsimp only
      rw [(hcounts' d).1, (hcounts' d).2, (hcounts d).1, (hcounts d).2, houtput, messagesOf_append, wireOf_append]
      exact ⟨rfl, rfl⟩
  · exact hcounted.other id fun h => hid (by rw [hconn, h])
  · rw [hopened]
    rfl
  · rw [hlive, Task.live, Task.live, hprogress]
    rfl
  · dsimp only
    rw [hcounted.totalMsgs, houtput, messagesOf_append]
    omega
  · dsimp only
    rw [hcounted.totalBytes, houtput, wireOf_append]
    omega

/-- **What a step of a task does to the account.** -/
theorem taskStep_moved {pg : Decoder} (hpg : pg.Consumes) {noUpstreamTls : Bool}
    (hcourse : t.Course pg noUpstreamTls)
    (hrecorded : ∀ conn, t.conn = some conn → t.Recorded metrics conn) {after : Metrics × Task}
    (hstep : TaskStep pg noUpstreamTls metrics t after) : Moved metrics after.1 t after.2 := by
  have hrunning : ∀ {progress : Progress}, t.progress = progress → progress.over = false →
      t.progress.over = false := fun h hover => by rw [h, hover]
  cases hstep with
  | addresses e hprogress => exact moved_finish hrecorded (hrunning hprogress rfl) _ _
  | register server hprogress =>
    obtain ⟨hconn, houtput⟩ := hcourse.spawned hprogress
    exact moved_register hprogress hconn houtput server
  | resume setup result hprogress hresult =>
    have hstatus : t.status = none := by rw [Task.status, hprogress]
    cases setup.resume noUpstreamTls result with
    | await next => exact moved_same hrecorded rfl rfl (hrunning hprogress rfl) rfl hstatus
    | rawRelay head => exact moved_same hrecorded rfl rfl (hrunning hprogress rfl) rfl hstatus
    | pumps _ _ initial _ _ => exact moved_same hrecorded rfl rfl (hrunning hprogress rfl) rfl hstatus
    | returned error => exact moved_finish hrecorded (hrunning hprogress rfl) _ error
  | copy cancel action hprogress hover =>
    exact moved_same hrecorded rfl rfl (hrunning hprogress rfl) rfl (by rw [Task.status, hprogress])
  | copied cancel error hprogress hover herror => exact moved_finish hrecorded (hrunning hprogress rfl) _ error
  | pump conn legs failed f hconn hprogress hstep =>
    obtain ⟨conn', opened, hconn', _, hlone⟩ := hcourse.relay (by rw [hprogress]; rfl)
    exact moved_pump hpg (hrecorded conn hconn) hconn hprogress (hlone.ok hpg) hstep
  | joined legs failed hprogress hover => exact moved_finish hrecorded (hrunning hprogress rfl) _ none

end Moves

/-- A task's record says the same while the store leaves it alone. -/
theorem Moved.keeps {metrics metrics' : Metrics} {t t' other : Task} (h : Moved metrics metrics' t t')
    {conn : ConnId} (hother : other.Recorded metrics conn) (hne : t.conn ≠ some conn) :
    other.Recorded metrics' conn := by
  obtain ⟨hbelow, hlifecycle, hcounts⟩ := hother
  have harcs := h.others conn hbelow hne
  refine ⟨hbelow.trans_le h.nextConnId, ?_, by rw [harcs]; exact hcounts⟩
  rw [Metrics.lifecycleOf, harcs]
  exact hlifecycle

/-- **A step of one task keeps the account.** -/
theorem Server.Accounts.task {s : Server} (h : s.Accounts) {i : ℕ} (hi : i < s.accepted) {metrics' : Metrics}
    {t' : Task} (hmoved : Moved s.metrics metrics' (s.tasks i) t') :
    Server.Accounts { s with
      metrics := metrics'
      tasks := Function.update s.tasks i t'
      statuses := s.statuses ++ t'.status.toList } := by
  have hmem : i ∈ Finset.range s.accepted := Finset.mem_range.mpr hi
  -- a handle of another task is neither the old nor the new one of this
  have hother : ∀ j conn, j < s.accepted → j ≠ i → (s.tasks j).conn = some conn →
      (s.tasks i).conn ≠ some conn ∧ t'.conn ≠ some conn := by
    intro j conn hj hji hconn
    have hold : (s.tasks i).conn ≠ some conn := fun hsame => hji (h.distinct j i conn hj hi hconn hsame)
    refine ⟨hold, ?_⟩
    rcases hmoved.conn with hsame | hfresh
    · rw [hsame]
      exact hold
    · rw [hfresh]
      intro heq
      have hbelow := (h.recorded j hj conn hconn).below
      rw [Option.some.inj heq] at hbelow
      exact absurd hbelow (Nat.lt_irrefl conn)
  refine ⟨fun j hj conn hconn => ?_, fun j k conn hj hk hjconn hkconn => ?_, ?_, ?_, fun d => ?_, fun d => ?_,
    fun status => ?_⟩
  · dsimp only at hj hconn ⊢
    by_cases hji : j = i
    · rw [hji, Function.update_self] at hconn ⊢
      exact hmoved.recorded conn hconn
    · rw [Function.update_of_ne hji] at hconn ⊢
      exact hmoved.keeps (h.recorded j hj conn hconn) (hother j conn hj hji hconn).1
  · dsimp only at hj hk hjconn hkconn
    by_cases hji : j = i
    · by_cases hki : k = i
      · rw [hji, hki]
      · rw [hji, Function.update_self] at hjconn
        rw [Function.update_of_ne hki] at hkconn
        exact absurd hjconn (hother k conn hk hki hkconn).2
    · rw [Function.update_of_ne hji] at hjconn
      by_cases hki : k = i
      · rw [hki, Function.update_self] at hkconn
        exact absurd hkconn (hother j conn hj hji hjconn).2
      · rw [Function.update_of_ne hki] at hkconn
        exact h.distinct j k conn hj hk hjconn hkconn
  · have htally := tally_update hmem Task.registered s.tasks t'
    have hopened := hmoved.opened
    have hbefore := h.opened
    dsimp only
    omega
  · have htally := tally_update hmem Task.live s.tasks t'
    have hlive := hmoved.live
    have hbefore := h.live
    dsimp only
    omega
  · have hsum := sum_update hmem (fun t => messagesOf (side d) t.output) s.tasks t'
    have hmsgs := hmoved.msgs d
    have hbefore := h.msgs d
    dsimp only at hsum ⊢
    omega
  · have hsum := sum_update hmem (fun t => wireOf (side d) t.output) s.tasks t'
    have hbytes := hmoved.bytes d
    have hbefore := h.bytes d
    dsimp only at hsum ⊢
    omega
  · have htally := tally_update hmem (fun t => decide (t.status = some status)) s.tasks t'
    have hbefore := h.statuses status
    have hnone : one (decide ((s.tasks i).status = some status)) = 0 := by
      rw [hmoved.status]
      rfl
    have hcount : t'.status.toList.count status = one (decide (t'.status = some status)) := by
      cases t'.status with
      | none => rfl
      | some e => by_cases he : e = status <;> simp [one, he]
    dsimp only
    rw [List.count_append, hcount]
    omega

/-- A connection more keeps it. -/
theorem Server.Accounts.accept {s : Server} (h : s.Accounts) (peer : SocketAddr) (sent : Bytes)
    (reply : Option UInt8) :
    Server.Accounts { s with
      accepted := s.accepted + 1
      tasks := Function.update s.tasks s.accepted (Task.new peer sent reply) } := by
  have hold : ∀ j, j < s.accepted →
      Function.update s.tasks s.accepted (Task.new peer sent reply) j = s.tasks j :=
    fun j hj => Function.update_of_ne (Nat.ne_of_lt hj) ..
  have hcase : ∀ j conn, j < s.accepted + 1 →
      (Function.update s.tasks s.accepted (Task.new peer sent reply) j).conn = some conn →
      j < s.accepted ∧ (s.tasks j).conn = some conn := by
    intro j conn hj hconn
    by_cases hnew : j = s.accepted
    · rw [hnew, Function.update_self] at hconn
      cases hconn
    · have hlt : j < s.accepted := by omega
      rw [hold j hlt] at hconn
      exact ⟨hlt, hconn⟩
  have hnew : Function.update s.tasks s.accepted (Task.new peer sent reply) s.accepted
      = Task.new peer sent reply := Function.update_self ..
  refine ⟨fun j hj conn hconn => ?_, fun j k conn hj hk hjconn hkconn => ?_, ?_, ?_, fun d => ?_, fun d => ?_,
    fun status => ?_⟩
  · obtain ⟨hlt, hconn'⟩ := hcase j conn hj hconn
    dsimp only
    rw [hold j hlt]
    exact h.recorded j hlt conn hconn'
  · obtain ⟨hj', hjconn'⟩ := hcase j conn hj hjconn
    obtain ⟨hk', hkconn'⟩ := hcase k conn hk hkconn
    exact h.distinct j k conn hj' hk' hjconn' hkconn'
  · dsimp only
    rw [tally_range_succ, tally_update_of_notMem Finset.notMem_range_self, hnew, h.opened]
    rfl
  · dsimp only
    rw [tally_range_succ, tally_update_of_notMem Finset.notMem_range_self, hnew, h.live]
    rfl
  · have hsum := sum_update_of_notMem (@Finset.notMem_range_self s.accepted)
      (fun t : Task => messagesOf (side d) t.output) s.tasks (Task.new peer sent reply)
    dsimp only at hsum ⊢
    rw [Finset.sum_range_succ, hnew, hsum, h.msgs]
    rfl
  · have hsum := sum_update_of_notMem (@Finset.notMem_range_self s.accepted)
      (fun t : Task => wireOf (side d) t.output) s.tasks (Task.new peer sent reply)
    dsimp only at hsum ⊢
    rw [Finset.sum_range_succ, hnew, hsum, h.bytes]
    rfl
  · dsimp only
    rw [tally_range_succ, tally_update_of_notMem Finset.notMem_range_self, hnew, h.statuses]
    rfl

/-- In every state of the server the account is right. -/
theorem serve_account {pg : Decoder} (hpg : pg.Consumes) {noUpstreamTls : Bool} {cap : ℕ} {s : Server}
    (hreach : ReflTransGen (ServeStep pg noUpstreamTls) (Server.start (Metrics.withLimits cap)) s) :
    s.Accounts := by
  induction hreach with
  | refl =>
    refine ⟨fun i hi => absurd hi (Nat.not_lt_zero i), fun i j conn hi => absurd hi (Nat.not_lt_zero i), rfl, rfl,
      fun d => ?_, fun d => ?_, fun _ => rfl⟩ <;> cases d <;> rfl
  | tail hpast hstep ih =>
    cases hstep with
    | accept peer sent reply => exact ih.accept peer sent reply
    | task i hi hstep =>
      exact ih.task hi (taskStep_moved hpg (serve_course hpast i hi) (ih.recorded i hi) hstep)

/-! ### The server -/

/-- The first eight bytes at most have been read before the relay. -/
theorem handleConnection_initial {noUpstreamTls : Bool} {reply : Option UInt8} {sent : Bytes} {opened : Opened}
    (h : handleConnection noUpstreamTls reply sent = .relay opened) : opened.initial.length ≤ 8 := by
  rw [handleConnection] at h
  split at h
  · cases h
  · dsimp only at h
    split at h
    · cases h
    · cases h
      dsimp only
      split
      · exact Nat.zero_le 8
      · split
        · exact Nat.zero_le 8
        · exact List.length_take_le 8 sent

/-- **The store always says what the tasks have done.**  However the tasks run and fail, as many connections
have been opened as tasks registered one, and as many are live as have not returned; each task's record is
open until it returns and then closed, and counts the messages of its own pumps; the totals are the sums; and
there is one status line for each task that returned an error.  So nothing is live once all have returned. -/
theorem serve_accounts (pg : Decoder) (hpg : pg.Consumes) (noUpstreamTls : Bool) (cap : ℕ) (s : Server)
    (hreach : ReflTransGen (ServeStep pg noUpstreamTls) (Server.start (Metrics.withLimits cap)) s) :
    s.Accounts ∧ s.metrics.connsLive ≤ s.metrics.connsOpened ∧
      ((∀ i, i < s.accepted → (s.tasks i).progress.over = true) → s.metrics.connsLive = 0) := by
  have haccounts := serve_account hpg hreach
  refine ⟨haccounts, ?_, fun hover => ?_⟩
  · have hle : tally (Finset.range s.accepted) Task.live s.tasks
        ≤ tally (Finset.range s.accepted) Task.registered s.tasks :=
      tally_mono fun i _ hlive => by
        rw [Task.live, Bool.and_eq_true] at hlive
        exact hlive.1
    rw [haccounts.live, haccounts.opened]
    exact_mod_cast hle
  · have hnone : tally (Finset.range s.accepted) Task.live s.tasks = 0 := by
      rw [tally, Finset.card_eq_zero, Finset.filter_eq_empty_iff]
      intro i hi
      rw [Task.live, hover i (Finset.mem_range.mp hi), Bool.not_true, Bool.and_false]
      exact Bool.false_ne_true
    rw [haccounts.live, hnone]
    rfl

theorem serve_accounts_two : ∃ s,
    ReflTransGen (ServeStep framed true) (Server.start (Metrics.withLimits 10)) s ∧
      s.statuses = [(noClient, "not connected")] ∧ s.Accounts ∧
      s.metrics.connsLive ≤ s.metrics.connsOpened := by
  obtain ⟨s, hreach, _, hstatuses, _⟩ := served_reachable
  obtain ⟨haccounts, hle, _⟩ := serve_accounts framed framed_lawful.consumes true 10 s hreach
  exact ⟨s, hreach, hstatuses, haccounts, hle⟩

/-- **What the server has forwarded has been reported, and counted.**  While the streams of a relayed
connection are those of a cleartext session, each side's records and message count, in the output and in the
connection's record in the store, lie between those of what has been forwarded and those of the stream,
whatever fails and whatever the other connections do.  So it is also when the relay has returned. -/
theorem serve_reports (pg : Decoder) (hpg : pg.Lawful) (noUpstreamTls : Bool) (cap : ℕ) (s : Server)
    (hreach : ReflTransGen (ServeStep pg noUpstreamTls) (Server.start (Metrics.withLimits cap)) s) (i : ℕ)
    (hi : i < s.accepted) (legs : Role → Leg) (failed : Role → Bool)
    (hrelay : (s.tasks i).progress.relay = some (legs, failed)) (streams : Role → Bytes)
    (hstreams : ∀ role, IsStream pg role (streams role))
    (hbegun : ∀ role, (legs role).taken <+: streams role) :
    ∃ conn stats, (s.tasks i).conn = some conn ∧ s.metrics.arcs conn = some stats ∧ ∀ d,
      stats.msgs d = messagesOf (side d) (s.tasks i).output ∧
        Between pg (side d) (legs (side d)).written (streams (side d)) (s.tasks i).output := by
  obtain ⟨conn, opened, hconn, hopened, hlone⟩ := (serve_course hreach i hi).relay hrelay
  obtain ⟨_, _, stats, hstats, hcounts⟩ := (serve_account hpg.consumes hreach).recorded i hi conn hconn
  obtain ⟨m, hlone'⟩ := hlone Metrics.new
  refine ⟨conn, stats, hconn, hstats, fun d => ⟨(hcounts d).1, ?_⟩⟩
  exact forwarded_reported hpg (handleConnection_initial hopened) hstreams hlone' hbegun (side d)

/-- The relay that has failed, and returned, has forwarded the Startup and reported the Sync behind it too. -/
theorem serve_reports_two : ∃ s legs failed,
    ReflTransGen (ServeStep framed true) (Server.start (Metrics.withLimits 10)) s ∧
      (s.tasks 0).progress = .returned (.relay legs failed) none ∧ failed .client = true ∧
      ∃ conn stats, (s.tasks 0).conn = some conn ∧ s.metrics.arcs conn = some stats ∧ ∀ d,
        stats.msgs d = messagesOf (side d) (s.tasks 0).output ∧
          Between framed (side d) (legs (side d)).written (shortSession (side d)) (s.tasks 0).output := by
  obtain ⟨s, hreach, haccepted, _, legs, failed, hprogress, hfailed, hbegun⟩ := served_reachable
  exact ⟨s, legs, failed, hreach, hprogress, hfailed, serve_reports framed framed_lawful true 10 s hreach 0
    (by omega) legs failed (by rw [hprogress]; rfl) shortSession shortSession_streams hbegun⟩

end Tapgres.Proxy
