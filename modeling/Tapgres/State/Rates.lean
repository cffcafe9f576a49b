import Tapgres.Lib.FetchAdd
import Tapgres.Lib.Run
import Tapgres.State.Metrics

/-!
# Rate samples

The aggregate counters under `record_messages` calls of any number of threads, and the one thread that
samples them.  The calls are taken apart into their atomic steps: each add, each load of a counter and the
part of `sample_rates` under the lock are steps of their own, interleaved in any way.  The accesses are
`Relaxed`, and those of one call may come in any order, of which the order of the source is one.

* `recordMessagesAdds`, `totals`, `RateHistory.sampleRates` — the three functions in their steps;
* `rateStep` — the store as a machine that is fed these steps and writes the samples;
* `settled_agrees` — with no call in flight the counters are those of the calls made one after the other;
* `Sampled` — the samples add up to the totals loaded last, which no counter falls behind;
* `LoadedFor` — where in a run a counter was loaded for a sample;
* `rate_samples_exact` — what this says of every run.
-/

namespace Tapgres.State

open Tapgres.Lib.FetchAdd Tapgres.Lib.Run

/-! ### The store -/

/-- The four counters of the store, or of one connection. -/
inductive TrafficCounter where
  | msgs (direction : TrafficDirection)
  | bytes (direction : TrafficDirection)
  deriving DecidableEq, Repr

structure RateSample where
  msgsIn : BitVec 64
  msgsOut : BitVec 64
  bytesIn : BitVec 64
  bytesOut : BitVec 64
  deriving DecidableEq, Repr

structure Totals where
  msgsIn : BitVec 64
  msgsOut : BitVec 64
  bytesIn : BitVec 64
  bytesOut : BitVec 64
  deriving DecidableEq, Repr

def RateSample.get (sample : RateSample) : TrafficCounter → BitVec 64
  | .msgs .in => sample.msgsIn
  | .msgs .out => sample.msgsOut
  | .bytes .in => sample.bytesIn
  | .bytes .out => sample.bytesOut

def Totals.get (totals : Totals) : TrafficCounter → BitVec 64
  | .msgs .in => totals.msgsIn
  | .msgs .out => totals.msgsOut
  | .bytes .in => totals.bytesIn
  | .bytes .out => totals.bytesOut

structure RateHistory where
  previous : Totals
  /-- Oldest first. -/
  samples : List RateSample

/-- The atomics: four aggregate ones, and four of each connection. -/
inductive Atomic where
  | total (counter : TrafficCounter)
  | conn (conn : ConnId) (counter : TrafficCounter)
  deriving DecidableEq, Repr

/-- The store while calls are in flight. -/
structure SharedMetrics where
  atomics : Memory Atomic 64
  /-- What the running `sample_rates` has loaded of its totals. -/
  loaded : TrafficCounter → Option (BitVec 64)
  rates : RateHistory
  rateHistory : ℕ

def SharedMetrics.withLimits (rateHistory : ℕ) : SharedMetrics where
  atomics := ⟨fun _ => 0, []⟩
  loaded := fun _ => none
  rates := ⟨⟨0, 0, 0, 0⟩, []⟩
  rateHistory := rateHistory

/-- An aggregate counter. -/
def SharedMetrics.total (s : SharedMetrics) (counter : TrafficCounter) : BitVec 64 :=
  s.atomics.value (.total counter)

/-- What calls in flight have still to add to it. -/
def SharedMetrics.inFlight (s : SharedMetrics) (counter : TrafficCounter) : ℕ :=
  amountTo (.total counter) s.atomics.pending

/-! ### Its operations -/

/-- The `fetch_add`s of `record_messages`. -/
def recordMessagesAdds (conn : ConnId) (direction : TrafficDirection) (count bytes : BitVec 64) :
    List (Add Atomic 64) :=
  [⟨.total (.msgs direction), count⟩, ⟨.total (.bytes direction), bytes⟩,
    ⟨.conn conn (.msgs direction), count⟩, ⟨.conn conn (.bytes direction), bytes⟩]

/-- `totals`, once the four counters are loaded. -/
def totals (loaded : TrafficCounter → Option (BitVec 64)) : Option Totals := do
  let msgsIn ← loaded (.msgs .in)
  let msgsOut ← loaded (.msgs .out)
  let bytesIn ← loaded (.bytes .in)
  let bytesOut ← loaded (.bytes .out)
  pure { msgsIn, msgsOut, bytesIn, bytesOut }

/-- `u64::saturating_sub` -/
def saturatingSub (a b : BitVec 64) : BitVec 64 := if b ≤ a then a - b else 0

/-- The loop of `sample_rates`: the oldest samples go while there are more than `cap`. -/
def popSamples (cap : ℕ) : List RateSample → List RateSample
  | [] => []
  | sample :: samples =>
    if (sample :: samples).length > cap then popSamples cap samples else sample :: samples

/-- `sample_rates` with its totals, under the lock. -/
def RateHistory.sampleRates (history : RateHistory) (rateHistory : ℕ) (totals : Totals) :
    RateHistory × RateSample :=
  let sample : RateSample :=
    { msgsIn := saturatingSub totals.msgsIn history.previous.msgsIn
      msgsOut := saturatingSub totals.msgsOut history.previous.msgsOut
      bytesIn := saturatingSub totals.bytesIn history.previous.bytesIn
      bytesOut := saturatingSub totals.bytesOut history.previous.bytesOut }
  ({ previous := totals
     samples :=
      if rateHistory ≠ 0 then popSamples rateHistory (history.samples ++ [sample])
      else history.samples }, sample)

/-- What happens to the store. -/
inductive RateOp where
  /-- `record_messages` is called. -/
  | record (conn : ConnId) (direction : TrafficDirection) (count bytes : BitVec 64)
  /-- A call in flight makes one of its adds. -/
  | add (i : ℕ)
  /-- The sampler loads a counter, if the sample it takes still needs it. -/
  | load (counter : TrafficCounter)
  /-- With its totals complete the sampler takes the lock, and returns the sample. -/
  | sample

def SharedMetrics.load (s : SharedMetrics) (counter : TrafficCounter) : SharedMetrics :=
  match s.loaded counter with
  | some _ => s
  | none => { s with loaded := Function.update s.loaded counter (some (s.total counter)) }

def rateStep (s : SharedMetrics) : RateOp → SharedMetrics × List RateSample
  | .record conn direction count bytes =>
    ({ s with atomics := s.atomics.issue (recordMessagesAdds conn direction count bytes) }, [])
  | .add i => ({ s with atomics := s.atomics.perform i }, [])
  | .load counter => (s.load counter, [])
  | .sample =>
    match totals s.loaded with
    | some totals =>
      let (rates, sample) := s.rates.sampleRates s.rateHistory totals
      ({ s with rates, loaded := fun _ => none }, [sample])
    | none => (s, [])

/-! ### The totals -/

/-- What a call adds to a counter. -/
def TrafficCounter.share (counter : TrafficCounter) (direction : TrafficDirection) (count bytes : ℕ) : ℕ :=
  match counter with
  | .msgs d => if d = direction then count else 0
  | .bytes d => if d = direction then bytes else 0

/-- What the calls have recorded in an aggregate counter. -/
def recorded (counter : TrafficCounter) (ops : List RateOp) : ℕ :=
  (ops.map fun
    | .record _ direction count bytes => counter.share direction count.toNat bytes.toNat
    | _ => 0).sum

theorem recorded_append (counter : TrafficCounter) (ops ops' : List RateOp) :
    recorded counter (ops ++ ops') = recorded counter ops + recorded counter ops' := by
  rw [recorded, List.map_append, List.sum_append]
  rfl

theorem amountTo_total (conn : ConnId) (direction : TrafficDirection) (count bytes : BitVec 64)
    (counter : TrafficCounter) : amountTo (.total counter) (recordMessagesAdds conn direction count bytes)
      = counter.share direction count.toNat bytes.toNat := by
  cases counter with
  | msgs d => simp [amountTo, recordMessagesAdds, Add.to, TrafficCounter.share, eq_comm]
  | bytes d => simp [amountTo, recordMessagesAdds, Add.to, TrafficCounter.share, eq_comm]

theorem amountTo_conn (conn id : ConnId) (direction : TrafficDirection) (count bytes : BitVec 64)
    (counter : TrafficCounter) : amountTo (.conn id counter) (recordMessagesAdds conn direction count bytes)
      = if id = conn then counter.share direction count.toNat bytes.toNat else 0 := by
  by_cases hid : id = conn
  · subst hid
    cases counter with
    | msgs d => simp [amountTo, recordMessagesAdds, Add.to, TrafficCounter.share, eq_comm]
    | bytes d => simp [amountTo, recordMessagesAdds, Add.to, TrafficCounter.share, eq_comm]
  · simp [amountTo, recordMessagesAdds, Add.to, hid, Ne.symm hid]

/-! ### The calls one after the other -/

def Metrics.counter (m : Metrics) : TrafficCounter → ℕ
  | .msgs d => m.msgs d
  | .bytes d => m.bytes d

def ConnStats.counter (stats : ConnStats) : TrafficCounter → ℕ
  | .msgs d => stats.msgs d
  | .bytes d => stats.bytes d

/-- The calls, each made whole before the next. -/
def Metrics.recordAll (m : Metrics) (ops : List RateOp) : Metrics :=
  ops.foldl (fun m op =>
    match op with
    | .record conn direction count bytes => m.recordMessages conn direction count.toNat bytes.toNat
    | _ => m) m

/-- The atomics hold these counters, as numbers of 64 bits. -/
structure Agrees (m : Metrics) (s : SharedMetrics) : Prop where
  totals : ∀ counter, s.total counter = BitVec.ofNat 64 (m.counter counter)
  records : ∀ id stats, m.arcs id = some stats →
    ∀ counter, s.atomics.value (.conn id counter) = BitVec.ofNat 64 (stats.counter counter)

/-- The same while calls are in flight: the atomics have the counters but for what is pending. -/
structure Accounted (m : Metrics) (s : SharedMetrics) : Prop where
  totals : ∀ counter, Accounts s.atomics (.total counter) (m.counter counter)
  records : ∀ id stats, m.arcs id = some stats →
    ∀ counter, Accounts s.atomics (.conn id counter) (stats.counter counter)

section Sequential

variable {m : Metrics} {s : SharedMetrics}

theorem recordMessages_counter (conn : ConnId) (direction : TrafficDirection) (count bytes : ℕ)
    (counter : TrafficCounter) : (m.recordMessages conn direction count bytes).counter counter
      = m.counter counter + counter.share direction count bytes := by
  have hcounted := recordMessages_counted m conn direction count bytes
  cases counter with
  | msgs d => exact hcounted.totalMsgs d
  | bytes d => exact hcounted.totalBytes d

/-- A record after a call was there before, with as much less in it. -/
theorem recordMessages_record {conn id : ConnId} {direction : TrafficDirection} {count bytes : ℕ}
    {stats : ConnStats} (h : (m.recordMessages conn direction count bytes).arcs id = some stats) :
    ∃ before, m.arcs id = some before ∧ ∀ counter, stats.counter counter
      = before.counter counter + if id = conn then counter.share direction count bytes else 0 := by
  have hcounted := recordMessages_counted m conn direction count bytes
  by_cases hid : id = conn
  · subst hid
    cases hbefore : m.arcs id with
    | none => cases direction <;> simp [Metrics.recordMessages, Metrics.update, hbefore] at h
    | some before =>
      obtain ⟨after, hafter, hshares⟩ := hcounted.own before hbefore
      rw [h, Option.some.injEq] at hafter
      subst hafter
      refine ⟨before, rfl, fun counter => ?_⟩
      rw [if_pos rfl]
      cases counter with
      | msgs d => exact (hshares d).1
      | bytes d => exact (hshares d).2
  · rw [hcounted.other id hid] at h
    exact ⟨stats, h, fun counter => by rw [if_neg hid, Nat.add_zero]⟩

theorem Agrees.accounted (h : Agrees m s) (hpending : s.atomics.pending = []) : Accounted m s := by
  have hatomics : s.atomics = ⟨s.atomics.value, []⟩ := by
    rw [← hpending]
  refine ⟨fun counter => ?_, fun id stats hstats counter => ?_⟩
  · rw [hatomics]
    exact .start (h.totals counter)
  · rw [hatomics]
    exact .start (h.records id stats hstats counter)

theorem Accounted.agrees (h : Accounted m s) (hpending : s.atomics.pending = []) : Agrees m s :=
  ⟨fun counter => (h.totals counter).settled hpending,
    fun id stats hstats counter => (h.records id stats hstats counter).settled hpending⟩

/-- **Each step** keeps the atomics at what the calls have recorded. -/
theorem Accounted.step (h : Accounted m s) (op : RateOp) :
    Accounted (m.recordAll [op]) (rateStep s op).1 := by
  cases op with
  | record conn direction count bytes =>
    refine ⟨fun counter => ?_, fun id stats hstats counter => ?_⟩
    · show Accounts (s.atomics.issue _) _ ((m.recordMessages _ _ _ _).counter counter)
      rw [recordMessages_counter, ← amountTo_total conn]
      exact (h.totals counter).issue _
    · obtain ⟨before, hbefore, hcounter⟩ := recordMessages_record hstats
      rw [hcounter, ← amountTo_conn]
      exact (h.records id before hbefore counter).issue _
  | add i =>
    exact ⟨fun counter => (h.totals counter).perform i,
      fun id stats hstats counter => (h.records id stats hstats counter).perform i⟩
  | load counter =>
    show Accounted m (s.load counter)
    unfold SharedMetrics.load
    split
    · exact h
    · exact ⟨h.totals, h.records⟩
  | sample =>
    show Accounted m (rateStep s .sample).1
    unfold rateStep
    dsimp only
    split
    · exact ⟨h.totals, h.records⟩
    · exact h

/-- **With no call in flight** the counters are those of the calls made one after the other, however their
steps were interleaved. -/
theorem settled_agrees (h : Agrees m s) (hstart : s.atomics.pending = []) (ops : List RateOp)
    (hend : (run rateStep s ops).1.atomics.pending = []) :
    Agrees (m.recordAll ops) (run rateStep s ops).1 := by
  have hrun := run_invariant rateStep (fun past s _ => Accounted (m.recordAll past) s)
    (h.accounted hstart) ?_ ops
  · exact hrun.agrees hend
  · intro past s _ op h
    rw [Metrics.recordAll, List.foldl_append]
    exact h.step op

end Sequential

/-! ### One sample -/

theorem saturatingSub_of_le {a b : BitVec 64} (h : b ≤ a) :
    b.toNat + (saturatingSub a b).toNat = a.toNat := by
  have hle : b.toNat ≤ a.toNat := BitVec.le_def.mp h
  rw [saturatingSub, if_pos h, BitVec.toNat_sub_of_le h]
  omega

theorem popSamples_eq (cap : ℕ) (samples : List RateSample) :
    popSamples cap samples = samples.drop (samples.length - cap) := by
  induction samples with
  | nil => rw [popSamples, List.drop_nil]
  | cons sample samples ih =>
    rw [popSamples, List.length_cons]
    split
    · rw [ih, show samples.length + 1 - cap = samples.length - cap + 1 by omega, List.drop_succ_cons]
    · rw [show samples.length + 1 - cap = 0 by omega, List.drop_zero]

theorem totals_loaded {loaded : TrafficCounter → Option (BitVec 64)} {t : Totals}
    (h : totals loaded = some t) (counter : TrafficCounter) : loaded counter = some (t.get counter) := by
  simp only [totals, Option.bind_eq_bind, Option.bind_eq_some_iff] at h
  obtain ⟨msgsIn, hmsgsIn, msgsOut, hmsgsOut, bytesIn, hbytesIn, bytesOut, hbytesOut, h⟩ := h
  obtain rfl := Option.some.inj h
  cases counter with
  | msgs direction =>
    cases direction with
    | «in» => exact hmsgsIn
    | out => exact hmsgsOut
  | bytes direction =>
    cases direction with
    | «in» => exact hbytesIn
    | out => exact hbytesOut

theorem sampleRates_get (history : RateHistory) (rateHistory : ℕ) (t : Totals)
    (counter : TrafficCounter) : (history.sampleRates rateHistory t).2.get counter
      = saturatingSub (t.get counter) (history.previous.get counter) := by
  cases counter with
  | msgs direction => cases direction <;> rfl
  | bytes direction => cases direction <;> rfl

/-- The samples kept of those that have been returned. -/
def newestSamples (rateHistory : ℕ) (samples : List RateSample) : List RateSample :=
  samples.drop (samples.length - rateHistory)

theorem sampleRates_samples {history : RateHistory} {rateHistory : ℕ} {returned : List RateSample}
    (h : history.samples = newestSamples rateHistory returned) (t : Totals) :
    (history.sampleRates rateHistory t).1.samples
      = newestSamples rateHistory (returned ++ [(history.sampleRates rateHistory t).2]) := by
  generalize hsample : (history.sampleRates rateHistory t).2 = sample
  have hkept : (history.sampleRates rateHistory t).1.samples
      = if rateHistory ≠ 0 then popSamples rateHistory (history.samples ++ [sample])
        else history.samples := by
    rw [← hsample]
    rfl
  rw [hkept, h, newestSamples, newestSamples, List.length_append, List.length_singleton]
  split
  · rw [← List.drop_append_of_le_length (by omega), popSamples_eq, List.drop_drop, List.length_drop,
      List.length_append, List.length_singleton]
    congr 1
    omega
  · rename_i hzero
    rw [show rateHistory = 0 by omega, Nat.sub_zero, Nat.sub_zero, List.drop_length]
    exact (List.drop_eq_nil_of_le (by simp)).symm

theorem newestSamples_length (rateHistory : ℕ) (samples : List RateSample) :
    (newestSamples rateHistory samples).length = min rateHistory samples.length := by
  rw [newestSamples, List.length_drop]
  omega

/-! ### The samples of a run -/

/-- What the samples add up to. -/
def sampled (counter : TrafficCounter) (samples : List RateSample) : ℕ :=
  (samples.map fun sample => (sample.get counter).toNat).sum

theorem sampled_snoc (counter : TrafficCounter) (samples : List RateSample) (sample : RateSample) :
    sampled counter (samples ++ [sample]) = sampled counter samples + (sample.get counter).toNat := by
  rw [sampled, List.map_append, List.sum_append, List.map_singleton, List.sum_singleton]
  rfl

/-- **The samples add up to the totals loaded last**, no counter has fallen behind what was loaded of it,
and the newest samples are kept. -/
structure Sampled (rateHistory : ℕ) (ops : List RateOp) (s : SharedMetrics) (returned : List RateSample) :
    Prop where
  accounts : ∀ counter, Accounts s.atomics (.total counter) (recorded counter ops)
  loaded : ∀ counter v, s.loaded counter = some v →
    s.rates.previous.get counter ≤ v ∧ v ≤ s.total counter
  previous : ∀ counter, s.rates.previous.get counter ≤ s.total counter
  sum : ∀ counter, sampled counter returned = (s.rates.previous.get counter).toNat
  limit : s.rateHistory = rateHistory
  samples : s.rates.samples = newestSamples rateHistory returned

section Run

variable {rateHistory : ℕ} {ops : List RateOp} {s : SharedMetrics} {returned : List RateSample}

theorem sampled_start (rateHistory : ℕ) : Sampled rateHistory [] (.withLimits rateHistory) [] where
  accounts _ := .start rfl
  loaded _ _ := nofun
  previous counter := by cases counter with
    | msgs direction => cases direction <;> exact BitVec.le_refl _
    | bytes direction => cases direction <;> exact BitVec.le_refl _
  sum counter := by cases counter with
    | msgs direction => cases direction <;> rfl
    | bytes direction => cases direction <;> rfl
  limit := rfl
  samples := List.drop_nil.symm

theorem Sampled.load (h : Sampled rateHistory ops s returned) (counter : TrafficCounter) :
    Sampled rateHistory ops (s.load counter) returned := by
  unfold SharedMetrics.load
  split
  · exact h
  · refine ⟨h.accounts, ?_, h.previous, h.sum, h.limit, h.samples⟩
    intro c v hv
    dsimp only at hv
    by_cases hc : c = counter
    · subst hc
      rw [Function.update_self] at hv
      obtain rfl := Option.some.inj hv
      exact ⟨h.previous c, BitVec.le_refl _⟩
    · rw [Function.update_of_ne hc] at hv
      exact h.loaded c v hv

theorem sample_of_totals {t : Totals} (htotals : totals s.loaded = some t) :
    rateStep s .sample
      = ({ s with rates := (s.rates.sampleRates s.rateHistory t).1, loaded := fun _ => none },
        [(s.rates.sampleRates s.rateHistory t).2]) := by
  rw [rateStep, htotals]

theorem sample_of_none (htotals : totals s.loaded = none) : rateStep s .sample = (s, []) := by
  rw [rateStep, htotals]

/-- With the totals at least the previous ones the differences telescope. -/
theorem Sampled.sample (h : Sampled rateHistory ops s returned) :
    Sampled rateHistory ops (rateStep s .sample).1 (returned ++ (rateStep s .sample).2) := by
  cases htotals : totals s.loaded with
  | none =>
    rw [sample_of_none htotals, List.append_nil]
    exact h
  | some t =>
    rw [sample_of_totals htotals]
    refine ⟨h.accounts, fun _ _ => nofun, ?_, ?_, h.limit, ?_⟩
    · intro counter
      exact (h.loaded counter _ (totals_loaded htotals counter)).2
    · intro counter
      have hle := (h.loaded counter _ (totals_loaded htotals counter)).1
      rw [sampled_snoc, h.sum, sampleRates_get, saturatingSub_of_le hle]
      rfl
    · rw [h.limit]
      exact sampleRates_samples h.samples t

theorem Sampled.step (h : Sampled rateHistory ops s returned) (op : RateOp)
    (hfits : ∀ counter, recorded counter ops < 2 ^ 64) :
    Sampled rateHistory (ops ++ [op]) (rateStep s op).1 (returned ++ (rateStep s op).2) := by
  cases op with
  | record conn direction count bytes =>
    rw [show (rateStep s (.record conn direction count bytes)).2 = [] from rfl, List.append_nil]
    refine ⟨fun counter => ?_, h.loaded, h.previous, h.sum, h.limit, h.samples⟩
    have hissued := (h.accounts counter).issue (recordMessagesAdds conn direction count bytes)
    rw [amountTo_total] at hissued
    rw [recorded_append]
    exact hissued
  | add i =>
    rw [show (rateStep s (.add i)).2 = [] from rfl, List.append_nil]
    have hle : ∀ counter, s.total counter ≤ (s.atomics.perform i).value (.total counter) := fun counter =>
      BitVec.le_def.mpr ((h.accounts counter).le_perform (hfits counter) i)
    refine ⟨fun counter => ?_, fun counter v hv => ?_, fun counter => ?_, h.sum, h.limit, h.samples⟩
    · rw [recorded_append]
      exact (h.accounts counter).perform i
    · have hloaded := h.loaded counter v hv
      exact ⟨hloaded.1, BitVec.le_trans hloaded.2 (hle counter)⟩
    · exact BitVec.le_trans (h.previous counter) (hle counter)
  | load counter =>
    have hload := h.load counter
    rw [show (rateStep s (.load counter)).2 = [] from rfl, List.append_nil]
    refine ⟨fun c => ?_, hload.loaded, hload.previous, hload.sum, hload.limit, hload.samples⟩
    rw [recorded_append]
    exact hload.accounts c
  | sample =>
    have hsample := h.sample
    refine ⟨fun counter => ?_, hsample.loaded, hsample.previous, hsample.sum, hsample.limit,
      hsample.samples⟩
    rw [recorded_append]
    exact hsample.accounts counter

/-- **In every run** whose calls do not overflow a total. -/
theorem run_sampled (rateHistory : ℕ) {ops : List RateOp}
    (hfits : ∀ counter, recorded counter ops < 2 ^ 64) :
    Sampled rateHistory ops (run rateStep (.withLimits rateHistory) ops).1
      (run rateStep (.withLimits rateHistory) ops).2 := by
  refine run_invariant rateStep (fun past s returned => (∀ counter, recorded counter past < 2 ^ 64) →
    Sampled rateHistory past s returned) (fun _ => sampled_start rateHistory) ?_ ops hfits
  intro past s returned op h hfits
  have hpast : ∀ counter, recorded counter past < 2 ^ 64 := by
    intro counter
    have hall := hfits counter
    rw [recorded_append] at hall
    omega
  exact (h hpast).step op hpast

end Run

/-! ### Where a counter was loaded -/

/-- Behind `before` the sampler loads the counter, and from there on `n` samples are returned: with none it
is for the sample being taken, with one for the last sample returned. -/
def LoadedFor (start : SharedMetrics) (counter : TrafficCounter) (n : ℕ) (before ops : List RateOp) : Prop :=
  ∃ after, ops = before ++ .load counter :: after ∧
    (run rateStep start before).1.loaded counter = none ∧
    (run rateStep (run rateStep start before).1 (.load counter :: after)).2.length = n

section Loads

variable {start s : SharedMetrics} {counter : TrafficCounter} {before ops : List RateOp} {n : ℕ}

/-- What has been loaded is kept until the sample is returned. -/
theorem step_keeps_loaded {v : BitVec 64} (h : s.loaded counter = some v) {op : RateOp}
    (hnone : (rateStep s op).2 = []) : (rateStep s op).1.loaded counter = some v := by
  cases op with
  | record conn direction count bytes => exact h
  | add i => exact h
  | load c =>
    show (s.load c).loaded counter = some v
    unfold SharedMetrics.load
    cases hc : s.loaded c with
    | some _ => exact h
    | none =>
      have hne : counter ≠ c := by
        rintro rfl
        rw [hc] at h
        cases h
      show Function.update s.loaded c _ counter = some v
      rw [Function.update_of_ne hne]
      exact h
  | sample =>
    unfold rateStep at hnone ⊢
    dsimp only at hnone ⊢
    split at hnone
    · cases hnone
    · exact h

theorem run_keeps_loaded {v : BitVec 64} (h : s.loaded counter = some v)
    (hnone : (run rateStep s ops).2 = []) : (run rateStep s ops).1.loaded counter = some v := by
  induction ops generalizing s with
  | nil => exact h
  | cons op ops ih =>
    rw [run_cons] at hnone
    obtain ⟨hop, hops⟩ := List.append_eq_nil_iff.mp hnone
    exact ih (step_keeps_loaded h hop) hops

theorem load_of_none (h : s.loaded counter = none) :
    s.load counter = { s with loaded := Function.update s.loaded counter (some (s.total counter)) } := by
  rw [SharedMetrics.load, h]

/-- **A counter is loaded once for a sample.** -/
theorem LoadedFor.unique {before' : List RateOp} (h : LoadedFor start counter n before ops)
    (h' : LoadedFor start counter n before' ops) : before = before' := by
  -- between two loads of one counter a sample is returned
  have hlater : ∀ {before mid : List RateOp}, LoadedFor start counter n before ops →
      ¬LoadedFor start counter n (before ++ .load counter :: mid) ops := by
    intro before mid ⟨after, hops, hnone, hlength⟩ ⟨after', hops', hnone', hlength'⟩
    rw [hops, List.append_assoc, List.append_cancel_left_eq, List.cons_append] at hops'
    obtain rfl := (List.cons.inj hops').2
    rw [run_append] at hnone' hlength'
    dsimp only at hnone' hlength'
    rw [← List.cons_append, run_append] at hlength
    dsimp only at hlength
    rw [List.length_append, hlength'] at hlength
    have hsilent : (run rateStep (run rateStep start before).1 (.load counter :: mid)).2 = [] :=
      List.eq_nil_of_length_eq_zero (by omega)
    rw [run_cons] at hnone' hsilent
    have hloaded : (rateStep (run rateStep start before).1 (.load counter)).1.loaded counter
        = some ((run rateStep start before).1.total counter) := by
      show ((run rateStep start before).1.load counter).loaded counter = _
      rw [load_of_none hnone]
      exact Function.update_self ..
    have hkept := run_keeps_loaded hloaded (List.append_eq_nil_iff.mp hsilent).2
    rw [hkept] at hnone'
    cases hnone'
  obtain ⟨after, hops, _⟩ := id h
  obtain ⟨after', hops', _⟩ := id h'
  rw [hops] at hops'
  rcases List.append_eq_append_iff.mp hops' with ⟨mid, rfl, hmid⟩ | ⟨mid, rfl, hmid⟩
  · cases mid with
    | nil => exact (List.append_nil before).symm
    | cons op mid =>
      obtain rfl := (List.cons.inj hmid).1
      exact absurd h' (hlater h)
  · cases mid with
    | nil => exact List.append_nil before'
    | cons op mid =>
      obtain rfl := (List.cons.inj hmid).1
      exact absurd h (hlater h')

theorem LoadedFor.returned_ne (h : LoadedFor start counter (n + 1) before ops) :
    (run rateStep start ops).2 ≠ [] := by
  obtain ⟨after, rfl, _, hlength⟩ := h
  intro hnil
  rw [run_append] at hnil
  rw [(List.append_eq_nil_iff.mp hnil).2] at hlength
  cases hlength

/-- The load stays where it is, and the samples that are returned count up. -/
theorem LoadedFor.snoc (h : LoadedFor start counter n before ops) (op : RateOp) :
    LoadedFor start counter (n + (rateStep (run rateStep start ops).1 op).2.length) before (ops ++ [op]) := by
  obtain ⟨after, rfl, hnone, hlength⟩ := h
  refine ⟨after ++ [op], by rw [List.append_assoc, List.cons_append], hnone, ?_⟩
  rw [← List.cons_append, run_append, run_singleton, run_append]
  dsimp only
  rw [List.length_append, hlength]

theorem loadedFor_load (hnone : (run rateStep start ops).1.loaded counter = none) :
    LoadedFor start counter 0 ops (ops ++ [.load counter]) :=
  ⟨[], rfl, hnone, by rw [run_singleton]; rfl⟩

/-- What has been loaded, and what the last sample was taken of, are totals where they were loaded. -/
structure Traced (start : SharedMetrics) (ops : List RateOp) (s : SharedMetrics)
    (returned : List RateSample) : Prop where
  reached : s = (run rateStep start ops).1
  running : ∀ counter v, s.loaded counter = some v →
    ∃ before, LoadedFor start counter 0 before ops ∧ (run rateStep start before).1.total counter = v
  last : returned ≠ [] → ∀ counter, ∃ before, LoadedFor start counter 1 before ops ∧
    (run rateStep start before).1.total counter = s.rates.previous.get counter

variable {returned : List RateSample}

theorem Traced.reached_snoc (h : Traced start ops s returned) (op : RateOp) :
    (rateStep s op).1 = (run rateStep start (ops ++ [op])).1 := by
  rw [run_append, run_singleton, h.reached]

/-- A step that neither loads a counter nor returns a sample. -/
theorem Traced.same (h : Traced start ops s returned) {op : RateOp} {after : SharedMetrics}
    (hstep : rateStep s op = (after, [])) (hloaded : after.loaded = s.loaded)
    (hrates : after.rates = s.rates) : Traced start (ops ++ [op]) after returned := by
  have hsilent : (rateStep (run rateStep start ops).1 op).2.length = 0 := by
    rw [← h.reached, hstep]
    rfl
  refine ⟨?_, fun counter v hv => ?_, fun hne counter => ?_⟩
  · rw [← h.reached_snoc, hstep]
  · rw [hloaded] at hv
    obtain ⟨before, hbefore, htotal⟩ := h.running counter v hv
    have hsnoc := hbefore.snoc op
    rw [hsilent] at hsnoc
    exact ⟨before, hsnoc, htotal⟩
  · obtain ⟨before, hbefore, htotal⟩ := h.last hne counter
    have hsnoc := hbefore.snoc op
    rw [hsilent] at hsnoc
    exact ⟨before, hsnoc, by rw [htotal, hrates]⟩

theorem Traced.load (h : Traced start ops s returned) (counter : TrafficCounter) :
    Traced start (ops ++ [.load counter]) (s.load counter) returned := by
  cases hloaded : s.loaded counter with
  | some v =>
    have hload : s.load counter = s := by
      rw [SharedMetrics.load, hloaded]
    rw [hload]
    exact h.same (by rw [rateStep, hload]) rfl rfl
  | none =>
    rw [load_of_none hloaded]
    refine ⟨?_, fun c v hv => ?_, fun hne c => ?_⟩
    · rw [← h.reached_snoc, rateStep, load_of_none hloaded]
    · dsimp only at hv
      by_cases hc : c = counter
      · subst hc
        rw [Function.update_self, Option.some.injEq, h.reached] at hv
        rw [h.reached] at hloaded
        exact ⟨ops, loadedFor_load hloaded, hv⟩
      · rw [Function.update_of_ne hc] at hv
        obtain ⟨before, hbefore, htotal⟩ := h.running c v hv
        exact ⟨before, hbefore.snoc _, htotal⟩
    · obtain ⟨before, hbefore, htotal⟩ := h.last hne c
      exact ⟨before, hbefore.snoc _, htotal⟩

theorem Traced.sample (h : Traced start ops s returned) :
    Traced start (ops ++ [.sample]) (rateStep s .sample).1 (returned ++ (rateStep s .sample).2) := by
  cases htotals : totals s.loaded with
  | none =>
    have hstep := sample_of_none htotals
    rw [hstep, List.append_nil]
    exact h.same hstep rfl rfl
  | some t =>
    have hstep := sample_of_totals htotals
    refine ⟨h.reached_snoc _, ?_, fun _ counter => ?_⟩
    · rw [hstep]
      exact fun _ _ => nofun
    · obtain ⟨before, hbefore, htotal⟩ := h.running counter _ (totals_loaded htotals counter)
      have hsnoc := hbefore.snoc .sample
      rw [← h.reached, hstep] at hsnoc
      refine ⟨before, hsnoc, ?_⟩
      rw [htotal, hstep]
      rfl

theorem run_traced (start : SharedMetrics) (hstart : ∀ counter, start.loaded counter = none)
    (ops : List RateOp) :
    Traced start ops (run rateStep start ops).1 (run rateStep start ops).2 := by
  refine run_invariant rateStep (Traced start) ⟨rfl, fun counter v hv => ?_, fun hne => absurd rfl hne⟩ ?_ ops
  · have hloaded : start.loaded counter = some v := hv
    rw [hstart counter] at hloaded
    cases hloaded
  · intro past s returned op h
    cases op with
    | record conn direction count bytes =>
      rw [show (rateStep s (.record conn direction count bytes)).2 = [] from rfl, List.append_nil]
      exact h.same rfl rfl rfl
    | add i =>
      rw [show (rateStep s (.add i)).2 = [] from rfl, List.append_nil]
      exact h.same rfl rfl rfl
    | load counter =>
      rw [show (rateStep s (.load counter)).2 = [] from rfl, List.append_nil]
      exact h.load counter
    | sample => exact h.sample

end Loads

/-- **Rate samples account for all traffic exactly once.**  In every run whose calls do not overflow a
total, a counter has what the calls recorded, but for what those in flight have still to add.  Once a
sample has been returned, all samples together are the total at the place where the last one loaded it; no
subtraction saturates; and the history has the newest samples, in order. -/
theorem rate_samples_exact (rateHistory : ℕ) {ops : List RateOp}
    (hfits : ∀ counter, recorded counter ops < 2 ^ 64) :
    let start := SharedMetrics.withLimits rateHistory
    let rest := run rateStep start ops
    (∀ counter, (rest.1.total counter).toNat + rest.1.inFlight counter = recorded counter ops) ∧
      (rest.2 ≠ [] → ∀ counter, ∃ before, LoadedFor start counter 1 before ops) ∧
      (∀ counter before, LoadedFor start counter 1 before ops →
        sampled counter rest.2 = ((run rateStep start before).1.total counter).toNat) ∧
      (∀ t, totals rest.1.loaded = some t → ∀ counter, rest.1.rates.previous.get counter ≤ t.get counter) ∧
      rest.1.rates.samples <:+ rest.2 ∧ rest.1.rates.samples.length = min rateHistory rest.2.length := by
  intro start rest
  have hsampled : Sampled rateHistory ops rest.1 rest.2 := run_sampled rateHistory hfits
  have htraced : Traced start ops rest.1 rest.2 := run_traced start (fun _ => rfl) ops
  refine ⟨fun counter => (hsampled.accounts counter).toNat (hfits counter), ?_, ?_, ?_, ?_, ?_⟩
  · intro hne counter
    obtain ⟨before, hbefore, _⟩ := htraced.last hne counter
    exact ⟨before, hbefore⟩
  · intro counter before hbefore
    have hne : rest.2 ≠ [] := hbefore.returned_ne
    obtain ⟨before', hbefore', htotal⟩ := htraced.last hne counter
    rw [hbefore.unique hbefore', htotal]
    exact hsampled.sum counter
  · intro t htotals counter
    exact (hsampled.loaded counter _ (totals_loaded htotals counter)).1
  · rw [hsampled.samples]
    exact List.drop_suffix _ _
  · rw [hsampled.samples]
    exact newestSamples_length rateHistory rest.2

/-- A call is sampled between its two aggregate adds: the bytes are left for the next sample. -/
def sampledCall : List RateOp :=
  [.record 1 .in 1 12, .add 0, .load (.msgs .in), .load (.msgs .out), .load (.bytes .in),
    .load (.bytes .out), .add 0, .sample]

theorem rate_samples_exact_call :
    let start := SharedMetrics.withLimits 2
    let rest := run rateStep start sampledCall
    (∀ counter, ∃ before, LoadedFor start counter 1 before sampledCall ∧
        sampled counter rest.2 = ((run rateStep start before).1.total counter).toNat) ∧
      sampled (.msgs .in) rest.2 = 1 ∧ sampled (.bytes .in) rest.2 = 0 ∧
      (rest.1.total (.bytes .in)).toNat = 12 := by
  intro start rest
  have hfits : ∀ counter, recorded counter sampledCall < 2 ^ 64 := by
    intro counter
    cases counter with
    | msgs direction => cases direction <;> decide
    | bytes direction => cases direction <;> decide
  obtain ⟨_, hloads, hsum, _⟩ := rate_samples_exact 2 hfits
  refine ⟨fun counter => ?_, by decide, by decide, by decide⟩
  obtain ⟨before, hbefore⟩ := hloads (by decide) counter
  exact ⟨before, hbefore, hsum counter before hbefore⟩

end Tapgres.State
