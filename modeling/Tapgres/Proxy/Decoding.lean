import Tapgres.Flow.Accounting
import Tapgres.Flow.InOrder
import Tapgres.Pgwire.Framed
import Tapgres.Proxy.Relay

/-!
# Both traffic sources decode alike

A capture decodes a connection from TCP segments, the proxy from what it reads off two sockets; the
capture's client direction starts with the SSL flag set, the proxy's with the flag cleared and, perhaps,
with the first bytes of the Startup already in its buffer.

* `relay_tracks` — a read of the proxy is an `Arrival`, so the pumps' directions stay on track;
* `both_sources_report` — however the two streams of a cleartext session are cut and interleaved, either
  source reports what one drain of each stream reports.
-/

namespace Tapgres.Proxy

open Relation (ReflTransGen)
open Tapgres.Net Tapgres.Pgwire Tapgres.Decode Tapgres.Flow Tapgres.State Tapgres.Lib.Run

/-! ### The proxy's reads -/

def Relay.dirs (r : Relay) (role : Role) : Direction := (r.legs role).pump.dir

def Relay.taken (r : Relay) (role : Role) : Bytes := (r.legs role).taken

/-- What a read counts. -/
theorem read_counted {pg : Decoder} (hpg : pg.Consumes) (stats : ConnId) {p : Pump}
    (hrole : p.dir.role = p.role) (metrics : Metrics) {chunk : Bytes} (hchunk : chunk ≠ []) :
    Counted stats (fun d => messagesOf (side d) (p.read pg stats metrics chunk).2.2)
      (fun d => wireOf (side d) (p.read pg stats metrics chunk).2.2) metrics
      (p.read pg stats metrics chunk).2.1 := by
  have hcounted := drain_counted (drain_account hpg { p.dir with rxbuf := p.dir.rxbuf ++ chunk }) stats
    metrics
  rw [Pump.read, if_neg (by simpa using hchunk), ← hrole]
  exact hcounted

/-- What a step of the relay does to the decoding: nothing, or one arrival. -/
theorem relayStep_arrival {pg : Decoder} (hpg : pg.Consumes) {stats : ConnId} {r r' : Relay}
    (hok : ∀ role, (r.legs role).Ok role) (hstep : RelayStep pg stats r r') :
    (r'.taken = r.taken ∧ r'.dirs = r.dirs ∧ r'.output = r.output ∧ r'.metrics = r.metrics) ∨
      ∃ mine chunk es, r'.taken = Function.update r.taken mine (r.taken mine ++ chunk) ∧
        Arrival pg r.dirs r'.dirs mine chunk (r.dirs mine).nextSeq es ∧ r'.output = r.output ++ es ∧
        Counted stats (fun d => messagesOf (side d) es) (fun d => wireOf (side d) es) r.metrics
          r'.metrics := by
  have hset : ∀ mine leg, leg.taken = r.taken mine → leg.pump.dir = r.dirs mine →
      (r.setLeg mine leg).taken = r.taken ∧ (r.setLeg mine leg).dirs = r.dirs ∧
        (r.setLeg mine leg).output = r.output ∧ (r.setLeg mine leg).metrics = r.metrics := by
    intro mine leg htaken hdir
    refine ⟨funext fun role => ?_, funext fun role => ?_, rfl, rfl⟩ <;> by_cases hr : role = mine
    · subst hr
      rw [Relay.taken, setLeg_legs_self, htaken]
    · rw [Relay.taken, setLeg_legs_of_ne r hr, ← Relay.taken]
    · subst hr
      rw [Relay.dirs, setLeg_legs_self, hdir]
    · rw [Relay.dirs, setLeg_legs_of_ne r hr, ← Relay.dirs]
  cases hstep with
  | send mine bytes _ => exact .inl (hset mine _ rfl rfl)
  | close mine _ => exact .inl (hset mine _ rfl rfl)
  | read mine chunk rest hphase hchunk hunread =>
    obtain ⟨_, _, hdir, hevents⟩ := read_some pg stats (r.legs mine).pump r.metrics hchunk
    refine .inr ⟨mine, chunk, _, funext fun role => ?_, ⟨hevents, ?_, fun _ role hr => ?_⟩, rfl,
      read_counted hpg stats ((hok mine).dir.trans (hok mine).role.symm) r.metrics hchunk⟩
    · by_cases hr : role = mine
      · subst hr
        rw [Function.update_self, Relay.taken]
        simp only [setLeg_legs_self]
        rfl
      · rw [Function.update_of_ne hr, Relay.taken]
        simp only [setLeg_legs_of_ne r hr]
        rfl
    · rw [Relay.dirs]
      simp only [setLeg_legs_self, hdir]
      rfl
    · rw [Relay.dirs]
      simp only [setLeg_legs_of_ne r hr]
      rfl
  | eof mine _ _ _ => exact .inl (hset mine _ rfl rfl)
  | write mine left n _ _ _ => exact .inl (hset mine _ rfl rfl)
  | abort mine _ _ => exact .inl (hset mine _ rfl rfl)

/-- What a leg has taken only grows. -/
theorem relayStep_taken {pg : Decoder} (hpg : pg.Consumes) {stats : ConnId} {r r' : Relay}
    (hok : ∀ role, (r.legs role).Ok role) (hstep : RelayStep pg stats r r') (role : Role) :
    r.taken role <+: r'.taken role := by
  rcases relayStep_arrival hpg hok hstep with ⟨htaken, _⟩ | ⟨mine, chunk, _, htaken, _⟩
  · rw [htaken]
  · rw [htaken]
    by_cases hr : role = mine
    · subst hr
      rw [Function.update_self]
      exact List.prefix_append ..
    · rw [Function.update_of_ne hr]

/-- **The pumps stay on track** as long as what they have read begins the two streams. -/
theorem relay_tracks {pg : Decoder} (hpg : pg.Lawful) {stats : ConnId} {client : SocketAddr}
    {m₀ : Metrics} {initial : Bytes} (hshort : initial.length ≤ 8) {streams : Role → Bytes}
    (hstreams : ∀ role, IsStream pg role (streams role)) {r : Relay}
    (h : ReflTransGen (RelayStep pg stats) (Relay.start client m₀ initial) r)
    (hbegun : ∀ role, r.taken role <+: streams role) :
    Tracks pg (fun role => Direction.forDecoding role client) r.taken r.dirs r.output ∧
      Counted stats (fun d => messagesOf (side d) r.output) (fun d => wireOf (side d) r.output) m₀
        r.metrics := by
  have hsmooth : ∀ role, Smooth pg (Direction.forDecoding role client) (streams role) := fun role =>
    (stream_smooth hpg rfl (forDecoding_starts role client) (hstreams role)).1
  induction h with
  | refl =>
    refine ⟨?_, Counted.refl stats m₀⟩
    have hdirs : (Relay.start client m₀ initial).dirs = fun role =>
        { Direction.forDecoding role client with rxbuf := (Relay.start client m₀ initial).taken role } := by
      funext role
      cases role <;> rfl
    rw [hdirs]
    apply tracks_start hpg.consumes
    intro role
    cases role with
    | client => exact startup_begun hpg rfl rfl (hstreams .client) (hbegun .client) hshort
    | server => exact empty_quiet hpg.idles rfl
  | tail hpast hstep ih =>
    have hok := relay_ok hpg.consumes hpast
    obtain ⟨htracks, hcounted⟩ :=
      ih fun role => (relayStep_taken hpg.consumes hok hstep role).trans (hbegun role)
    rcases relayStep_arrival hpg.consumes hok hstep with ⟨htaken, hdirs, houtput, hmetrics⟩ |
      ⟨mine, chunk, es, htaken, harr, houtput, hes⟩
    · rw [htaken, hdirs, houtput, hmetrics]
      exact ⟨htracks, hcounted⟩
    · have hafter := hbegun mine
      rw [htaken, Function.update_self] at hafter
      have hbefore := (List.prefix_append _ chunk).trans hafter
      rw [htaken, houtput]
      refine ⟨tracks_arrival hpg.consumes (fun _ => rfl) htracks (hsmooth mine _ hbefore) (hsmooth mine _ hafter)
        harr, ?_⟩
      simpa only [messagesOf_append, wireOf_append] using hcounted.trans hes

/-! ### The two sources -/

/-- Each side's records, last row description and counts are those of one drain of its stream. -/
structure Reported (pg : Decoder) (streams : Role → Bytes) (dirs : Role → Direction) (stats : ConnId)
    (m₀ m : Metrics) (events : List Event) : Prop where
  records : ∀ role, recordsOf role events = (streamReport pg role (streams role)).records
  rowDesc : ∀ role, (dirs role).rowDesc = (streamReport pg role (streams role)).rowDesc
  counted : Counted stats (fun d => (streamReport pg (side d) (streams (side d))).msgs)
    (fun d => (streamReport pg (side d) (streams (side d))).bytes) m₀ m

theorem reported_of_tracks {pg : Decoder} (hpg : pg.Lawful) {start : Role → Direction}
    (hrole : ∀ role, (start role).role = role) (hstart : ∀ role, Starts (start role))
    {streams : Role → Bytes} (hstreams : ∀ role, IsStream pg role (streams role))
    {dirs : Role → Direction} {stats : ConnId} {m₀ m : Metrics} {events : List Event}
    (htracks : Tracks pg start streams dirs events)
    (hcounted : Counted stats (fun d => messagesOf (side d) events) (fun d => wireOf (side d) events) m₀ m) :
    Reported pg streams dirs stats m₀ m events := by
  have hreport := htracks.reported hpg hrole hstart hstreams
  refine ⟨fun role => by rw [← hreport], fun role => by rw [← hreport], ?_⟩
  have hmsgs : ∀ d, (streamReport pg (side d) (streams (side d))).msgs = messagesOf (side d) events :=
    fun d => by rw [← hreport]
  have hbytes : ∀ d, (streamReport pg (side d) (streams (side d))).bytes = wireOf (side d) events :=
    fun d => by rw [← hreport]
  simpa only [hmsgs, hbytes] using hcounted

/-- **Decoding does not depend on the cutting, or on the source.**  Let the two streams be those of a
cleartext session, perhaps with an incomplete message at their ends.  A connection that captures them in
order, and a proxy that reads them, with the first bytes of the client's read before, both report what
one drain of each stream reports. -/
theorem both_sources_report (pg : Decoder) (hpg : pg.Lawful) (streams : Role → Bytes)
    (hstreams : ∀ role, IsStream pg role (streams role)) :
    (∀ (pgPort : UInt16) (stats : ConnId) (client : SocketAddr) (m₀ : Metrics) (segs : List TcpSegment),
        (∀ role, InOrder none (segmentsOf pgPort role segs) (streams role)) →
        Reported pg streams (run (connStep pg pgPort) (Connection.new stats client, m₀) segs).1.1.dir stats
          m₀ (run (connStep pg pgPort) (Connection.new stats client, m₀) segs).1.2
          (run (connStep pg pgPort) (Connection.new stats client, m₀) segs).2) ∧
      ∀ (stats : ConnId) (client : SocketAddr) (m₀ : Metrics) (initial : Bytes) (r : Relay),
        initial.length ≤ 8 → ReflTransGen (RelayStep pg stats) (Relay.start client m₀ initial) r →
        r.taken = streams → Reported pg streams r.dirs stats m₀ r.metrics r.output := by
  refine ⟨?_, ?_⟩
  · intro pgPort stats client m₀ segs hcut
    have hdir := new_dir stats client
    have hstart := tracks_new hpg.toStepwise stats client
    have hrun := inOrder_run hpg.consumes pgPort segs (Connection.new stats client) m₀
      (fun role => by rw [hdir]; rfl) streams fun role => by rw [hdir]; exact hcut role
    obtain ⟨conn', m', events, hrun', htracks, _, _, hcounted⟩ := arrivals_track hpg.consumes (fun _ => rfl)
      (fun role => (stream_smooth hpg rfl (new_starts role client) (hstreams role)).1)
      (arrivalsOf pgPort segs) (Connection.new stats client) m₀ m₀ [] (fun _ => []) hstart rfl
      (Counted.refl stats m₀) fun role => (hcut role).bytesOf.symm
    rw [show (Connection.new stats client).forget = Connection.new stats client from rfl, hrun'] at hrun
    obtain ⟨rfl, rfl⟩ := Prod.mk.inj (Prod.mk.inj hrun).1
    obtain rfl := (Prod.mk.inj hrun).2
    have hreported := reported_of_tracks hpg (fun _ => rfl) (fun role => new_starts role client) hstreams
      htracks hcounted
    exact ⟨hreported.records, fun role => by rw [← hreported.rowDesc role, forget_dir]; rfl,
      hreported.counted⟩
  · intro stats client m₀ initial r hshort hreach htaken
    obtain ⟨htracks, hcounted⟩ := relay_tracks hpg hshort hstreams hreach fun role => by rw [htaken]
    rw [htaken] at htracks
    exact reported_of_tracks hpg (fun _ => rfl) (fun role => forDecoding_starts role client) hstreams
      htracks hcounted

/-- A client that starts, syncs and begins to terminate, and a server that gets ready. -/
def shortSession : Role → Bytes
  | .client => [0, 0, 0, 9, 0, 3, 0, 0, 0] ++ ([0x53, 0, 0, 0, 4] ++ [0x58, 0])
  | .server => [0x5a, 0, 0, 0, 5, 0x49] ++ []

theorem shortSession_streams (role : Role) : IsStream framed role (shortSession role) := by
  cases role with
  | client =>
    refine ⟨[0, 0, 0, 9, 0, 3, 0, 0, 0], _, ⟨⟨⟨3, 0, []⟩, by decide⟩, by decide, by decide, by decide⟩, ?_, rfl⟩
    exact .message [0x53, 0, 0, 0, 4] [0x58, 0] ⟨.sync, by decide⟩
      (.tail [0x58, 0] [0, 0, 4] (by simp) ⟨.terminate, by decide⟩)
  | server => exact .message [0x5a, 0, 0, 0, 5, 0x49] [] ⟨.readyForQuery .idle, by decide⟩ .nil

/-- The session cut inside the Startup's header and inside the Sync. -/
def shortCapture : List TcpSegment :=
  [{ clientSegment 0 [] with syn := true }, clientSegment 1 [0, 0, 0, 9, 0],
    clientSegment 6 [3, 0, 0, 0, 0x53, 0], serverSegment 7 [0x5a, 0, 0, 0, 5, 0x49],
    clientSegment 12 [0, 0, 4, 0x58, 0]]

theorem shortCapture_inOrder (role : Role) :
    InOrder none (segmentsOf 5432 role shortCapture) (shortSession role) := by
  cases role with
  | client =>
    show InOrder none [{ clientSegment 0 [] with syn := true }, clientSegment 1 [0, 0, 0, 9, 0],
      clientSegment 6 [3, 0, 0, 0, 0x53, 0], clientSegment 12 [0, 0, 4, 0x58, 0]]
      ([0, 0, 0, 9, 0] ++ ([3, 0, 0, 0, 0x53, 0] ++ ([0, 0, 4, 0x58, 0] ++ [])))
    exact .syn rfl rfl (.inl rfl) (.data rfl (by decide) (.inr rfl)
      (.data rfl (by decide) (.inr rfl) (.data rfl (by decide) (.inr rfl) (.nil _))))
  | server =>
    show InOrder none [serverSegment 7 [0x5a, 0, 0, 0, 5, 0x49]] ([0x5a, 0, 0, 0, 5, 0x49] ++ [])
    exact .data rfl (by decide) (.inl rfl) (.nil _)

theorem both_sources_report_short :
    Reported framed shortSession
        (run (connStep framed 5432) (Connection.new 1 noClient, Metrics.withLimits 10) shortCapture).1.1.dir
        1 (Metrics.withLimits 10)
        (run (connStep framed 5432) (Connection.new 1 noClient, Metrics.withLimits 10) shortCapture).1.2
        (run (connStep framed 5432) (Connection.new 1 noClient, Metrics.withLimits 10) shortCapture).2 ∧
      ∃ r, ReflTransGen (RelayStep framed 1)
          (Relay.start noClient (Metrics.withLimits 10) [0, 0, 0, 9, 0, 3, 0, 0]) r ∧
        Reported framed shortSession r.dirs 1 (Metrics.withLimits 10) r.metrics r.output := by
  refine ⟨(both_sources_report framed framed_lawful shortSession shortSession_streams).1 5432 1 noClient
    (Metrics.withLimits 10) shortCapture shortCapture_inOrder, ?_⟩
  have hreach := ReflTransGen.refl (r := RelayStep framed 1)
    (a := Relay.start noClient (Metrics.withLimits 10) [0, 0, 0, 9, 0, 3, 0, 0])
  have hsend := hreach.tail (.send .client [0, 0x53, 0, 0, 0, 4, 0x58, 0] rfl)
  have hread := hsend.tail (.read .client [0, 0x53, 0] [0, 0, 4, 0x58, 0] rfl (by simp) rfl)
  have hwrite := hread.tail (.write .client [0, 0x53, 0] 3 rfl (by decide) (by decide))
  have hread' := hwrite.tail (.read .client [0, 0, 4, 0x58, 0] [] rfl (by simp) rfl)
  have hserver := hread'.tail (.send .server [0x5a, 0, 0, 0, 5, 0x49] rfl)
  have hall := hserver.tail (.read .server [0x5a, 0, 0, 0, 5, 0x49] [] rfl (by simp) rfl)
  refine ⟨_, hall, (both_sources_report framed framed_lawful shortSession shortSession_streams).2 1 noClient
    (Metrics.withLimits 10) _ _ (by decide) hall ?_⟩
  funext role
  cases role <;> rfl

end Tapgres.Proxy
