import Tapgres.Proxy.Awaits
import Tapgres.Proxy.Cancel
import Tapgres.Proxy.Faults

/-!
# The proxy as a whole

The accept loop of `serve` (`proxy.rs`) and the tasks it spawns, one for each connection accepted.  The
tasks take their steps in any order; what they share is the store of the metrics.  An error of `accept`,
which ends `serve`, is left out, and a step's call of the metrics counts as one action (`State.Calls` and
`State.Rates` take these calls apart).

* `ServeStep` — a connection is accepted, or a task goes on: its setup, its relay, or its return, with an
  error or without;
* `Task.Course` — where a task stands, seen alone, also after its return;
* `serve_isolates` — whatever the other tasks do, a task does what it would do alone.
-/

namespace Tapgres.Proxy

open Relation (ReflTransGen)
open Tapgres.Net Tapgres.Pgwire Tapgres.Decode Tapgres.Flow Tapgres.State
open Tapgres.Lib.Run

/-! ### Tasks -/

/-- From where a task has returned. -/
inductive Last where
  /-- `peer_addr` or `local_addr`. -/
  | addresses
  /-- An await of the setup, which has ended so. -/
  | setup (setup : Setup) (result : Except String Bytes)
  | cancel (cancel : Cancel)
  | relay (legs : Role → Leg) (failed : Role → Bool)

/-- How far a task has got. -/
inductive Progress where
  /-- Not in `handle_connection` proper: the addresses of the stream are still to be asked for. -/
  | spawned
  | preparing (setup : Setup)
  /-- In `raw_relay`. -/
  | cancelling (cancel : Cancel)
  /-- In the `select!` over the two pumps. -/
  | relaying (legs : Role → Leg) (failed : Role → Bool)
  /-- Returned, and the guard dropped. -/
  | returned (last : Last) (error : Option String)

/-- A spawned task, with what its peers do: `sent` is what the client sends in the clear, and `reply` what
the server answers to the probe. -/
structure Task where
  peer : SocketAddr
  sent : Bytes
  reply : Option UInt8
  /-- Its handle in the store, once it is registered. -/
  conn : Option ConnId
  /-- What its pumps have emitted. -/
  output : List Event
  progress : Progress

def Task.new (peer : SocketAddr) (sent : Bytes) (reply : Option UInt8) : Task :=
  { peer, sent, reply, conn := none, output := [], progress := .spawned }

/-- `handle_connection` returns: the guard, if there is one already, closes the connection. -/
def Task.finish (t : Task) (metrics : Metrics) (last : Last) (error : Option String) : Metrics × Task :=
  let metrics := match t.conn with
    | none => metrics
    | some conn => metrics.closeConnection conn
  (metrics, { t with progress := .returned last error })

/-- What a task does after an await of its setup, the last one if it returns. -/
def Task.proceed (t : Task) (metrics : Metrics) (last : Last) : Continues → Metrics × Task
  | .await next => (metrics, { t with progress := .preparing next })
  | .rawRelay head => (metrics, { t with progress := .cancelling (Cancel.start head) })
  | .pumps _ _ initial _ _ =>
    let f := FaultyRelay.start t.peer metrics initial
    (metrics, { t with progress := .relaying f.relay.legs f.failed })
  | .returned error => t.finish metrics last error

/-- One step of a task, on the store that it shares with the others. -/
inductive TaskStep (pg : Decoder) (noUpstreamTls : Bool) (metrics : Metrics) (t : Task) :
    Metrics × Task → Prop
  /-- `peer_addr` or `local_addr` fails: nothing is registered. -/
  | addresses (e : String) (hprogress : t.progress = .spawned) :
      TaskStep pg noUpstreamTls metrics t (t.finish metrics .addresses (some e))
  | register (server : SocketAddr) (hprogress : t.progress = .spawned) :
      TaskStep pg noUpstreamTls metrics t
        ((metrics.openConnection t.peer server false).1,
          { t with
            conn := some (metrics.openConnection t.peer server false).2
            progress := .preparing Setup.start })
  | resume (setup : Setup) (result : Except String Bytes) (hprogress : t.progress = .preparing setup)
      (hresult : setup.await.Supplied t.reply t.sent result) :
      TaskStep pg noUpstreamTls metrics t
        (t.proceed metrics (.setup setup result) (setup.resume noUpstreamTls result))
  | copy (cancel : Cancel) (action : CancelAction) (hprogress : t.progress = .cancelling cancel)
      (hover : cancel.over = false) :
      TaskStep pg noUpstreamTls metrics t
        (metrics, { t with progress := .cancelling (cancelStep cancel action).1 })
  | copied (cancel : Cancel) (error : Option String) (hprogress : t.progress = .cancelling cancel)
      (hover : cancel.over = true) (herror : error.isSome = cancel.failed) :
      TaskStep pg noUpstreamTls metrics t (t.finish metrics (.cancel cancel) error)
  | pump (conn : ConnId) (legs : Role → Leg) (failed : Role → Bool) (f : FaultyRelay)
      (hconn : t.conn = some conn) (hprogress : t.progress = .relaying legs failed)
      (hstep : FaultyStep pg conn ⟨⟨legs, metrics, t.output⟩, failed⟩ f) :
      TaskStep pg noUpstreamTls metrics t
        (f.relay.metrics, { t with output := f.relay.output, progress := .relaying f.relay.legs f.failed })
  /-- The `select!` is through, and the aborted pump awaited; an error of a pump is not returned. -/
  | joined (legs : Role → Leg) (failed : Role → Bool) (hprogress : t.progress = .relaying legs failed)
      (hover : ∀ role, (legs role).pump.phase.running = false) :
      TaskStep pg noUpstreamTls metrics t (t.finish metrics (.relay legs failed) none)

/-- What `connection from {peer}: {e}` says, when the task has returned an error. -/
def Task.status (t : Task) : Option (SocketAddr × String) :=
  match t.progress with
  | .returned _ (some e) => some (t.peer, e)
  | _ => none

/-! ### The accept loop -/

structure Server where
  metrics : Metrics
  /-- How many connections have been accepted. -/
  accepted : ℕ
  tasks : ℕ → Task
  /-- The status lines written. -/
  statuses : List (SocketAddr × String)

def Server.start (metrics : Metrics) : Server :=
  { metrics, accepted := 0, tasks := fun _ => Task.new noClient [] none, statuses := [] }

/-- A connection is accepted, or a task makes a step; one that returns an error reports it. -/
inductive ServeStep (pg : Decoder) (noUpstreamTls : Bool) (s : Server) : Server → Prop
  | accept (peer : SocketAddr) (sent : Bytes) (reply : Option UInt8) :
      ServeStep pg noUpstreamTls s
        { s with
          accepted := s.accepted + 1
          tasks := Function.update s.tasks s.accepted (Task.new peer sent reply) }
  | task (i : ℕ) (hi : i < s.accepted) {metrics' : Metrics} {t' : Task}
      (hstep : TaskStep pg noUpstreamTls s.metrics (s.tasks i) (metrics', t')) :
      ServeStep pg noUpstreamTls s
        { s with
          metrics := metrics'
          tasks := Function.update s.tasks i t'
          statuses := s.statuses ++ t'.status.toList }

/-! ### A task alone -/

/-- The relay on its own, whatever its store held before. -/
def Lone (pg : Decoder) (conn : ConnId) (client : SocketAddr) (initial : Bytes) (legs : Role → Leg)
    (output : List Event) (failed : Role → Bool) : Prop :=
  ∀ m₀, ∃ m, ReflTransGen (FaultyStep pg conn) (FaultyRelay.start client m₀ initial)
    ⟨⟨legs, m, output⟩, failed⟩

/-- Nothing is registered, nor emitted. -/
def Task.Unregistered (t : Task) : Prop := t.conn = none ∧ t.output = []

/-- The task is in its setup, or was: this is as far as its own awaits have led. -/
def Task.Prepares (noUpstreamTls : Bool) (t : Task) (setup : Setup) : Prop :=
  t.conn ≠ none ∧ t.output = [] ∧ ReflTransGen (Resumes noUpstreamTls t.reply t.sent) Setup.start setup

/-- Its cancel relay has got as far as some run of one. -/
def Task.Cancels (noUpstreamTls : Bool) (t : Task) (cancel : Cancel) : Prop :=
  t.conn ≠ none ∧ t.output = [] ∧ ∃ head unread actions,
    handleConnection noUpstreamTls t.reply t.sent = .cancel head unread ∧
      cancel = (run cancelStep (Cancel.start head) actions).1

/-- Its relay has got as far as some run of one, and has emitted what that run emits. -/
def Task.Relays (pg : Decoder) (noUpstreamTls : Bool) (t : Task) (legs : Role → Leg)
    (failed : Role → Bool) : Prop :=
  ∃ conn opened, t.conn = some conn ∧ handleConnection noUpstreamTls t.reply t.sent = .relay opened ∧
    Lone pg conn t.peer opened.initial legs t.output failed

/-- Where a task stands, as far as it can be seen from itself and its peers; one that has returned has done
so from there, for the reason that it had there. -/
def Task.Course (pg : Decoder) (noUpstreamTls : Bool) (t : Task) : Prop :=
  match t.progress with
  | .spawned => t.Unregistered
  | .preparing setup => t.Prepares noUpstreamTls setup
  | .cancelling cancel => t.Cancels noUpstreamTls cancel
  | .relaying legs failed => t.Relays pg noUpstreamTls legs failed
  | .returned .addresses error => t.Unregistered ∧ error ≠ none
  | .returned (.setup setup result) error =>
    t.Prepares noUpstreamTls setup ∧ setup.await.Supplied t.reply t.sent result ∧
      setup.resume noUpstreamTls result = .returned error
  | .returned (.cancel cancel) error =>
    t.Cancels noUpstreamTls cancel ∧ cancel.over = true ∧ error.isSome = cancel.failed
  | .returned (.relay legs failed) error =>
    t.Relays pg noUpstreamTls legs failed ∧ (∀ role, (legs role).pump.phase.running = false) ∧ error = none

/-- The legs of a task's relay, also of one that has returned. -/
def Progress.relay : Progress → Option ((Role → Leg) × (Role → Bool))
  | .relaying legs failed | .returned (.relay legs failed) _ => some (legs, failed)
  | _ => none

/-! ### The relay on another store -/

/-- What a pump reads and does does not depend on the store. -/
theorem read_rebase (pg : Decoder) (stats : ConnId) (p : Pump) (metrics metrics' : Metrics) (chunk : Bytes) :
    (p.read pg stats metrics chunk).1 = (p.read pg stats metrics' chunk).1 ∧
      (p.read pg stats metrics chunk).2.2 = (p.read pg stats metrics' chunk).2.2 := by
  rw [Pump.read, Pump.read]
  split
  · exact ⟨rfl, rfl⟩
  · exact ⟨rfl, rfl⟩

theorem relayStep_rebase {pg : Decoder} {stats : ConnId} {r r' : Relay} (hstep : RelayStep pg stats r r')
    (metrics : Metrics) :
    ∃ metrics', RelayStep pg stats { r with metrics := metrics } { r' with metrics := metrics' } := by
  cases hstep with
  | send role bytes hopen => exact ⟨metrics, .send (r := { r with metrics := metrics }) role bytes hopen⟩
  | close role hopen => exact ⟨metrics, .close (r := { r with metrics := metrics }) role hopen⟩
  | read role chunk rest hphase hchunk hunread =>
    obtain ⟨hpump, hevents⟩ := read_rebase pg stats (r.legs role).pump r.metrics metrics chunk
    rw [hpump, hevents]
    exact ⟨_, .read (r := { r with metrics := metrics }) role chunk rest hphase hchunk hunread⟩
  | eof role hphase hclosed hunread =>
    exact ⟨metrics, .eof (r := { r with metrics := metrics }) role hphase hclosed hunread⟩
  | write role left n hphase hn hle =>
    exact ⟨metrics, .write (r := { r with metrics := metrics }) role left n hphase hn hle⟩
  | abort role hother hphase => exact ⟨metrics, .abort (r := { r with metrics := metrics }) role hother hphase⟩

theorem Lone.step {pg : Decoder} {conn : ConnId} {client : SocketAddr} {initial : Bytes} {legs : Role → Leg}
    {output : List Event} {failed : Role → Bool} (h : Lone pg conn client initial legs output failed)
    {metrics : Metrics} {f : FaultyRelay} (hstep : FaultyStep pg conn ⟨⟨legs, metrics, output⟩, failed⟩ f) :
    Lone pg conn client initial f.relay.legs f.relay.output f.failed := by
  intro m₀
  obtain ⟨m, hreach⟩ := h m₀
  cases hstep with
  | step hstep =>
    obtain ⟨m', hstep'⟩ := relayStep_rebase hstep m
    exact ⟨m', hreach.tail (.step hstep')⟩
  | fail role hrunning => exact ⟨m, hreach.tail (.fail role hrunning)⟩
  | abort role hother hrunning => exact ⟨m, hreach.tail (.abort role hother hrunning)⟩

/-! ### Isolation -/

section Course

variable {pg : Decoder} {noUpstreamTls : Bool}

theorem Task.Course.spawned {t : Task} (h : t.Course pg noUpstreamTls) (hprogress : t.progress = .spawned) :
    t.Unregistered := by
  rw [Task.Course, hprogress] at h
  exact h

theorem Task.Course.preparing {t : Task} (h : t.Course pg noUpstreamTls) {setup : Setup}
    (hprogress : t.progress = .preparing setup) : t.Prepares noUpstreamTls setup := by
  rw [Task.Course, hprogress] at h
  exact h

theorem Task.Course.cancelling {t : Task} (h : t.Course pg noUpstreamTls) {cancel : Cancel}
    (hprogress : t.progress = .cancelling cancel) : t.Cancels noUpstreamTls cancel := by
  rw [Task.Course, hprogress] at h
  exact h

theorem Task.Course.relay {t : Task} (h : t.Course pg noUpstreamTls) {legs : Role → Leg}
    {failed : Role → Bool} (hrelay : t.progress.relay = some (legs, failed)) :
    t.Relays pg noUpstreamTls legs failed := by
  rw [Task.Course] at h
  cases hprogress : t.progress with
  | relaying legs' failed' =>
    rw [hprogress] at h hrelay
    cases hrelay
    exact h
  | returned last error =>
    rw [hprogress] at h hrelay
    cases last with
    | relay legs' failed' =>
      cases hrelay
      exact h.1
    | addresses | setup _ _ | cancel _ => cases hrelay
  | spawned | preparing _ | cancelling _ =>
    rw [hprogress] at hrelay
    cases hrelay

/-- **An await of the setup keeps the course.** -/
theorem Task.Course.resume {t : Task} (h : t.Course pg noUpstreamTls) {setup : Setup}
    (hprogress : t.progress = .preparing setup) {result : Except String Bytes}
    (hresult : setup.await.Supplied t.reply t.sent result) (metrics : Metrics) :
    (t.proceed metrics (.setup setup result) (setup.resume noUpstreamTls result)).2.Course pg
      noUpstreamTls := by
  have hprepares := h.preparing hprogress
  obtain ⟨hconn, houtput, hreach⟩ := id hprepares
  have hends := fun h => setup_ends (h := h) hreach hresult
  cases hcont : setup.resume noUpstreamTls result with
  | await next => exact ⟨hconn, houtput, hreach.tail ⟨result, hresult, hcont⟩⟩
  | rawRelay head =>
    exact ⟨hconn, houtput, head, t.sent.drop 8, [], (hends _ (by rw [hcont]; rfl)).symm, rfl⟩
  | pumps replies probe initial client server =>
    obtain ⟨conn, hsome⟩ := Option.ne_none_iff_exists'.mp hconn
    refine ⟨conn, _, hsome, (hends _ (by rw [hcont]; rfl)).symm, fun m₀ => ⟨m₀, ?_⟩⟩
    show ReflTransGen _ _ (FaultyRelay.mk ⟨_, m₀, t.output⟩ _)
    rw [houtput]
    exact .refl
  | returned error => exact ⟨hprepares, hresult, hcont⟩

/-- **A step of a task keeps its course**, whatever the store holds. -/
theorem taskStep_course {metrics metrics' : Metrics} {t t' : Task} (h : t.Course pg noUpstreamTls)
    (hstep : TaskStep pg noUpstreamTls metrics t (metrics', t')) : t'.Course pg noUpstreamTls := by
  generalize hafter : (metrics', t') = after at hstep
  have ht' : t' = after.2 := by rw [← hafter]
  rw [ht']
  cases hstep with
  | addresses e hprogress => exact ⟨h.spawned hprogress, Option.some_ne_none e⟩
  | register server hprogress => exact ⟨Option.some_ne_none _, (h.spawned hprogress).2, .refl⟩
  | resume setup result hprogress hresult => exact h.resume hprogress hresult metrics
  | copy cancel action hprogress hover =>
    obtain ⟨hconn, houtput, head, unread, actions, hhandled, hcancel⟩ := h.cancelling hprogress
    refine ⟨hconn, houtput, head, unread, actions ++ [action], hhandled, ?_⟩
    rw [run_append, run_singleton, ← hcancel]
  | copied cancel error hprogress hover herror => exact ⟨h.cancelling hprogress, hover, herror⟩
  | pump conn legs failed f hconn hprogress hstep =>
    obtain ⟨conn', opened, hconn', hhandled, hlone⟩ := h.relay (by rw [hprogress]; rfl)
    obtain rfl : conn = conn' := Option.some.inj (hconn.symm.trans hconn')
    exact ⟨conn, opened, hconn, hhandled, hlone.step hstep⟩
  | joined legs failed hprogress hover => exact ⟨h.relay (by rw [hprogress]; rfl), hover, rfl⟩

/-- Every task keeps its course. -/
theorem serve_course {metrics : Metrics} {s : Server}
    (hreach : ReflTransGen (ServeStep pg noUpstreamTls) (Server.start metrics) s) :
    ∀ i, i < s.accepted → (s.tasks i).Course pg noUpstreamTls := by
  induction hreach with
  | refl => exact fun i hi => absurd hi (Nat.not_lt_zero i)
  | @tail s s' _ hstep ih =>
    intro i hi
    cases hstep with
    | accept peer sent reply =>
      by_cases hnew : i = s.accepted
      · rw [hnew]
        dsimp only
        rw [Function.update_self]
        exact ⟨rfl, rfl⟩
      · dsimp only at hi ⊢
        rw [Function.update_of_ne hnew]
        exact ih i (by omega)
    | task j hj hstep =>
      dsimp only at hi ⊢
      by_cases hij : i = j
      · subst hij
        rw [Function.update_self]
        exact taskStep_course (ih i hi) hstep
      · rw [Function.update_of_ne hij]
        exact ih i hi

end Course

/-! ### The server -/

/-- Two clients: the relay of the one fails while it writes, and returns; the address of the other cannot be
had. -/
theorem served_reachable : ∃ s, ReflTransGen (ServeStep framed true) (Server.start (Metrics.withLimits 10)) s ∧
    s.accepted = 2 ∧ s.statuses = [(noClient, "not connected")] ∧
    ∃ legs failed, (s.tasks 0).progress = .returned (.relay legs failed) none ∧ failed .client = true ∧
      ∀ role, (legs role).taken <+: shortSession role := by
  have hstart := ReflTransGen.refl (r := ServeStep framed true) (a := Server.start (Metrics.withLimits 10))
  have haccept := hstart.tail (.accept ⟨.v4 1, 5000⟩ (shortSession .client) none)
  have hregister := haccept.tail (.task 0 (by decide) (.register ⟨.v4 2, 5432⟩ rfl))
  have haccept' := hregister.tail (.accept noClient [] none)
  have hhead := haccept'.tail (.task 0 (by decide)
    (.resume Setup.start (.ok [0, 0, 0, 9, 0, 3, 0, 0]) rfl ⟨by decide, rfl⟩))
  have hconnect := hhead.tail (.task 0 (by decide) (.resume _ (.ok []) rfl rfl))
  have hforward := hconnect.tail (.task 0 (by decide) (.resume _ (.ok []) rfl rfl))
  have hsend := hforward.tail (.task 0 (by decide)
    (.pump 1 _ _ _ rfl rfl (.step (.send .client [0, 0x53, 0, 0, 0, 4, 0x58, 0] rfl))))
  have haddress := hsend.tail (.task 1 (by decide) (.addresses "not connected" rfl))
  have hread := haddress.tail (.task 0 (by decide)
    (.pump 1 _ _ _ rfl rfl (.step (.read .client [0, 0x53, 0, 0, 0, 4] [0x58, 0] rfl (by simp) rfl))))
  have hwrite := hread.tail (.task 0 (by decide)
    (.pump 1 _ _ _ rfl rfl (.step (.write .client [0, 0x53, 0, 0, 0, 4] 1 rfl (by decide) (by decide)))))
  have hfail := hwrite.tail (.task 0 (by decide) (.pump 1 _ _ _ rfl rfl (.fail .client rfl)))
  have habort := hfail.tail (.task 0 (by decide) (.pump 1 _ _ _ rfl rfl (.abort .server rfl rfl)))
  have hjoin := habort.tail (.task 0 (by decide) (.joined _ _ rfl fun role => by cases role <;> rfl))
  refine ⟨_, hjoin, rfl, rfl, _, _, rfl, rfl, fun role => ?_⟩
  cases role
  · exact ⟨[0x58, 0], rfl⟩
  · exact List.nil_prefix

/-- **Tasks do not influence one another.**  In every state of the server, each task stands where it could
stand alone: its setup leads where `handleConnection` says, its cancel relay is a run of one, and its relay
is a run of one, from the bytes that the setup has read.  One that has returned stood there when it did, and
returned for what had happened to it there. -/
theorem serve_isolates (pg : Decoder) (noUpstreamTls : Bool) (metrics : Metrics) (s : Server)
    (hreach : ReflTransGen (ServeStep pg noUpstreamTls) (Server.start metrics) s) (i : ℕ)
    (hi : i < s.accepted) : (s.tasks i).Course pg noUpstreamTls :=
  serve_course hreach i hi

theorem serve_isolates_two : ∃ s,
    ReflTransGen (ServeStep framed true) (Server.start (Metrics.withLimits 10)) s ∧
      (s.tasks 0).Course framed true ∧ (s.tasks 1).Course framed true := by
  obtain ⟨s, hreach, haccepted, _⟩ := served_reachable
  have hisolates := serve_isolates framed true (Metrics.withLimits 10) s hreach
  rw [haccepted] at hisolates
  exact ⟨s, hreach, hisolates 0 (by decide), hisolates 1 (by decide)⟩

end Tapgres.Proxy
