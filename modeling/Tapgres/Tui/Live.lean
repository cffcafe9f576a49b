import Tapgres.Tui.Draw
import Tapgres.Tui.Timeline

/-!
# The running TUI

`run` and `app_loop` of `tui.rs`: a source thread delivers records into a channel and changes the counters,
while the thread of the TUI empties the channel, draws, and reads keys.  What the source does and what the
user presses is left open; the two threads take their steps in any order.  Only starting a thread and the
terminal itself do not fail here.

* `liveStep_app` — each step leaves the App alone, or is one step of the machine `appStep`;
* `sound_run` — what holds in every state of a run;
* `live_refines` — so every run is one of that machine, over the records of the channel;
* `live_frames` — what a frame is drawn from;
* `live_saved` — what `--save` has written, at any moment.
-/

namespace Tapgres.Tui

open Relation (ReflTransGen)
open Tapgres.Decode Tapgres.Filter Tapgres.State Tapgres.Session Tapgres.Lib.Run

/-! ### The two threads -/

/-- What a source does next. -/
inductive SourceMove (σ : Type) where
  | work (next : σ)
  | count (metrics : Metrics) (next : σ)
  | deliver (output : Output) (next : σ)
  | closeOutput (next : σ)
  | ret

/-- A source: its states, and what it may do in each. -/
abbrev LiveSource (σ : Type) := σ → SourceMove σ → Prop

/-- Where the other thread is in `app_loop`. -/
inductive LoopPhase where
  /-- In the loop over `try_recv`. -/
  | draining
  | drawing (logH : ℕ)
  /-- In the `poll` of 100 ms. -/
  | polling (logH : ℕ)
  /-- A `poll` has said that an event is there. -/
  | reading (logH : ℕ)
  | returned (failed : Bool)
  deriving DecidableEq, Repr

structure Live (σ : Type) where
  /-- The source's state, until it returns. -/
  source : Option σ
  /-- `OUTPUT_TX` holds the sender. -/
  tx : Bool
  queue : List Output
  phase : LoopPhase
  app : App
  /-- Records that went to the terminal past the TUI. -/
  printed : List Output
  /-- The records sent into the channel so far. -/
  sent : List Output
  /-- Those that `try_recv` has given. -/
  received : List Output
  /-- What the App has done to the files. -/
  effects : List Effect
  /-- How many had been received when the history was last cleared. -/
  cleared : ℕ
  /-- How many had been sent when the channel was last found empty. -/
  drained : ℕ

variable {σ : Type}

def Live.returned (s : Live σ) : Bool :=
  match s.phase with
  | .returned _ => true
  | _ => false

/-- Everything in front of `app_loop`; `creates` is what creating the file fails with. -/
def Live.begin (creates : String → Option SessionError) (save : Option String) (mode : String)
    (metrics : Metrics) (rich : Bool) (filter : DisplayFilter) (splashLines : List String) (source : σ) :
    Except SessionError (Live σ) :=
  match save.bind creates with
  | some error => .error error
  | none =>
    .ok
      { source := some source, tx := true, queue := [], phase := .draining
        app := App.started mode metrics rich filter splashLines (save.map SessionWriter.create)
        printed := [], sent := [], received := [], effects := [], cleared := 0, drained := 0 }

/-- `deliver`: without a sender the record is printed, and without a receiver it is lost. -/
def Live.deliver (s : Live σ) (output : Output) : Live σ :=
  if s.tx then
    { s with
        queue := if s.returned then s.queue else s.queue ++ [output]
        sent := s.sent ++ [output] }
  else { s with printed := s.printed ++ [output] }

theorem deliver_of_open (s : Live σ) (htx : s.tx = true) (hlive : s.returned = false) (output : Output) :
    s.deliver output = { s with queue := s.queue ++ [output], sent := s.sent ++ [output] } := by
  rw [Live.deliver, if_pos htx, hlive]
  rfl

/-- One turn of the loop over `try_recv`. -/
def Live.recv (env : AppEnv) (s : Live σ) (output : Output) (rest : List Output) : Live σ :=
  { s with
      queue := rest, app := s.app.receive env output, received := s.received ++ [output]
      effects := s.effects ++ (receiveTrace env s.app output).2 }

/-- The channel is empty: what is done before the drawing, on a terminal of `termH` rows. -/
def Live.turn (env : AppEnv) (s : Live σ) (termH : ℕ) : Live σ :=
  { s with
      phase := .drawing (logHeight termH)
      app := (s.app.leaveSplashIfTraffic.trimHistory env).clampScroll (logHeight termH)
      drained := s.sent.length }

/-- `app_loop` returns, and the receiver is dropped with the App. -/
def Live.leave (s : Live σ) (failed : Bool) : Live σ := { s with phase := .returned failed, queue := [] }

/-- A key; `more` says whether another event is ready behind it. -/
def Live.key (senv : SessionEnv) (io : Io) (env : AppEnv) (s : Live σ) (logH : ℕ) (key : KeyEvent)
    (more : Bool) : Live σ :=
  let (app, quit) := s.app.handleKey senv io env logH key
  let clears := key = ⟨.char 'c', false⟩ ∧ s.app.commandEditing = false ∧ s.app.showSplash = false ∧
    s.app.filterEditing = false
  let next : Live σ :=
    { s with
        phase := if more then .reading logH else .draining
        app, effects := s.effects ++ s.app.keyEffects senv io env key
        cleared := if clears then s.received.length else s.cleared }
  if quit then next.leave false else next

/-- One step of either thread. -/
inductive LiveStep (fenv : FilterEnv) (senv : SessionEnv) (source : LiveSource σ) (s : Live σ) :
    Live σ → Prop where
  | work {state next : σ} (hsource : s.source = some state) (hmove : source state (.work next)) :
      LiveStep fenv senv source s { s with source := some next }
  | count {state next : σ} {metrics : Metrics} (hsource : s.source = some state)
      (hmove : source state (.count metrics next)) :
      LiveStep fenv senv source s { s with source := some next, app := { s.app with metrics } }
  | deliver {state next : σ} {output : Output} (hsource : s.source = some state)
      (hmove : source state (.deliver output next)) :
      LiveStep fenv senv source s ({ s with source := some next }.deliver output)
  | closeOutput {state next : σ} (hsource : s.source = some state)
      (hmove : source state (.closeOutput next)) :
      LiveStep fenv senv source s { s with source := some next, tx := false }
  | ret {state : σ} (hsource : s.source = some state) (hmove : source state .ret) :
      LiveStep fenv senv source s { s with source := none }
  | recv (io : Io) {output : Output} {rest : List Output} (hphase : s.phase = .draining)
      (hqueue : s.queue = output :: rest) :
      LiveStep fenv senv source s (s.recv ⟨fenv, io.faults⟩ output rest)
  | turn (io : Io) (termH : ℕ) (hphase : s.phase = .draining) (hqueue : s.queue = []) :
      LiveStep fenv senv source s (s.turn ⟨fenv, io.faults⟩ termH)
  | draw {logH : ℕ} (hphase : s.phase = .drawing logH) :
      LiveStep fenv senv source s { s with phase := .polling logH }
  | timeout {logH : ℕ} (hphase : s.phase = .polling logH) :
      LiveStep fenv senv source s { s with phase := .draining }
  | ready {logH : ℕ} (hphase : s.phase = .polling logH) :
      LiveStep fenv senv source s { s with phase := .reading logH }
  | key (io : Io) {logH : ℕ} (hphase : s.phase = .reading logH) (key : KeyEvent) (more : Bool) :
      LiveStep fenv senv source s (s.key senv io ⟨fenv, io.faults⟩ logH key more)
  /-- An event that is not the press of a key. -/
  | other {logH : ℕ} (hphase : s.phase = .reading logH) (more : Bool) :
      LiveStep fenv senv source s { s with phase := if more then .reading logH else .draining }
  /-- The terminal fails, anywhere but between two records. -/
  | fail (hlive : s.returned = false) (hqueue : s.phase = .draining → s.queue = []) :
      LiveStep fenv senv source s (s.leave true)

/-! ### The App -/

section App

variable {fenv : FilterEnv} {senv : SessionEnv} {source : LiveSource σ} {s after : Live σ}

theorem key_app (io : Io) (env : AppEnv) (s : Live σ) (logH : ℕ) (key : KeyEvent) (more : Bool) :
    (s.key senv io env logH key more).app = (s.app.handleKey senv io env logH key).1 ∧
      (s.key senv io env logH key more).effects = s.effects ++ s.app.keyEffects senv io env key := by
  unfold Live.key
  dsimp only
  split <;> exact ⟨rfl, rfl⟩

/-- **Each step is one of the machine**, or leaves the App alone. -/
theorem liveStep_app (hstep : LiveStep fenv senv source s after) :
    (after.app = s.app ∧ after.effects = s.effects) ∨
      ∃ input, after.app = (appStep fenv senv s.app input).1 ∧
        after.effects = s.effects ++ (appStep fenv senv s.app input).2 := by
  cases hstep with
  | @count _ _ metrics =>
    exact .inr ⟨(⟨fun _ _ => none, none, none, .ok []⟩, .metrics metrics), rfl, (List.append_nil _).symm⟩
  | @deliver _ _ output =>
    left
    unfold Live.deliver
    split <;> exact ⟨rfl, rfl⟩
  | @recv io output rest =>
    unfold Live.recv
    by_cases haccept : s.app.acceptSourceRecords = true
    · refine .inr ⟨(io, .push output), ?_, ?_⟩
      · exact if_pos haccept
      · show _ ++ (receiveTrace _ s.app output).2 = _
        rw [receiveTrace, if_pos haccept]
        rfl
    · refine .inl ⟨if_neg haccept, ?_⟩
      show _ ++ (receiveTrace _ s.app output).2 = _
      rw [receiveTrace, if_neg haccept]
      exact List.append_nil _
  | turn io termH => exact .inr ⟨(io, .turn [] (logHeight termH)), rfl, (List.append_nil _).symm⟩
  | @key io logH hphase key more => exact .inr ⟨(io, .key logH key), key_app io _ s logH key more⟩
  | work => exact .inl ⟨rfl, rfl⟩
  | closeOutput => exact .inl ⟨rfl, rfl⟩
  | ret => exact .inl ⟨rfl, rfl⟩
  | draw => exact .inl ⟨rfl, rfl⟩
  | timeout => exact .inl ⟨rfl, rfl⟩
  | ready => exact .inl ⟨rfl, rfl⟩
  | other => exact .inl ⟨rfl, rfl⟩
  | fail => exact .inl ⟨rfl, rfl⟩

/-! ### Keys -/

variable {io : Io} {env : AppEnv} {app : App}

/-- **A key keeps the history**, unless it opens a session or clears the view. -/
theorem handleKey_records {logH : ℕ} {key : KeyEvent} (hclears : ¬app.clears (.key logH key))
    (hopened : .opened ∉ app.keyEffects senv io env key) :
    SameRecords app (app.handleKey senv io env logH key).1 := by
  by_cases henter : app.commandEditing = true ∧ key.code = .enter
  · rw [App.keyEffects, if_pos henter] at hopened
    rw [handleKey_enter henter]
    exact (perform_records senv io env _ hopened).trans (executeCommand_records app)
  · exact (handleKey_step henter).records hclears

/-- Source records are never accepted again. -/
theorem handleKey_accepts {logH : ℕ} {key : KeyEvent}
    (h : (app.handleKey senv io env logH key).1.acceptSourceRecords = true) :
    app.acceptSourceRecords = true := by
  by_cases henter : app.commandEditing = true ∧ key.code = .enter
  · rw [handleKey_enter henter, (executeCommand_records app).acceptSourceRecords] at h
    cases hresult : app.perform senv io env (Command.parse app.commandText) with
    | error message =>
      rw [hresult] at h
      exact h
    | ok result =>
      rw [hresult] at h
      rcases perform_ok hresult with ⟨argument, _, hafter⟩ | ⟨argument, outputs, dropped, _, hafter⟩
      · rw [App.orSelf, hafter] at h
        exact h
      · rw [App.orSelf, hafter] at h
        cases h
  · by_cases hclears : app.clears (.key logH key)
    · rw [handleKey_clears hclears] at h
      exact h
    · rwa [((handleKey_step henter).records hclears).acceptSourceRecords] at h

theorem accepted_keyEffects (key : KeyEvent) : accepted (app.keyEffects senv io env key) = [] := by
  unfold App.keyEffects
  split
  · exact accepted_commandEffects senv io env app _
  · rfl

theorem accepted_receiveTrace (output : Output) :
    accepted (receiveTrace env app output).2 = if app.acceptSourceRecords then [output] else [] := by
  unfold receiveTrace
  dsimp only
  split
  · exact accepted_pushEffects app output
  · rfl

theorem opened_receiveTrace (output : Output) : .opened ∉ (receiveTrace env app output).2 := by
  unfold receiveTrace App.pushEffects
  dsimp only
  split
  · split <;> simp
  · exact List.not_mem_nil

/-- The scroll position is clamped once. -/
theorem clampScroll_scroll (logH : ℕ) :
    ((app.clampScroll logH).clampScroll logH).scroll = (app.clampScroll logH).scroll := by
  have hmin : ∀ m : ℕ, min (if app.follow then m else min (if app.follow then m else app.scroll) m) m
      = min (if app.follow then m else app.scroll) m := by
    intro m
    split <;> omega
  exact hmin _

end App

/-! ### What holds in every state -/

structure Sound (s : Live σ) : Prop where
  flow : s.received ++ s.queue <+: s.sent
  whole : s.returned = false → s.received ++ s.queue = s.sent
  drained : s.drained ≤ s.received.length
  cleared : s.cleared ≤ s.received.length
  printed : s.tx = true → s.printed = []
  accepted : accepted s.effects <+: s.received
  accepts : s.app.acceptSourceRecords = true → Tui.accepted s.effects = s.received
  history : .opened ∉ s.effects →
    s.app.acceptSourceRecords = true ∧ ∃ base, Holds (s.received.drop s.cleared) base s.app
  drawing : ∀ logH, s.phase = .drawing logH → s.drained = s.received.length ∧ 1 ≤ logH ∧
    s.app.events.length ≤ historyCap ∧ (s.app.clampScroll logH).scroll = s.app.scroll

section Sound

variable {fenv : FilterEnv} {senv : SessionEnv} {source : LiveSource σ} {s after : Live σ}

theorem begin_sound {creates : String → Option SessionError} {save : Option String} {mode : String}
    {metrics : Metrics} {rich : Bool} {filter : DisplayFilter} {splashLines : List String} {state : σ}
    (h : Live.begin creates save mode metrics rich filter splashLines state = .ok s) : Sound s := by
  unfold Live.begin at h
  split at h
  · cases h
  · cases h
    refine ⟨List.prefix_refl _, fun _ => rfl, Nat.le_refl _, Nat.le_refl _, fun _ => rfl, List.prefix_refl _,
      fun _ => rfl, fun _ => ⟨rfl, 0, 0, rfl, rfl, Nat.zero_le _⟩, ?_⟩
    intro logH hphase
    cases hphase

theorem begin_app {creates : String → Option SessionError} {save : Option String} {mode : String}
    {metrics : Metrics} {rich : Bool} {filter : DisplayFilter} {splashLines : List String} {state : σ}
    (h : Live.begin creates save mode metrics rich filter splashLines state = .ok s) :
    s.app = App.started mode metrics rich filter splashLines (save.map SessionWriter.create) ∧
      s.effects = [] := by
  unfold Live.begin at h
  split at h <;> cases h
  exact ⟨rfl, rfl⟩

theorem Sound.leave (h : Sound s) (failed : Bool) : Sound (s.leave failed) where
  flow := by
    show s.received ++ [] <+: s.sent
    rw [List.append_nil]
    exact (List.prefix_append _ _).trans h.flow
  whole := fun hlive => (by cases hlive)
  drained := h.drained
  cleared := h.cleared
  printed := h.printed
  accepted := h.accepted
  accepts := h.accepts
  history := h.history
  drawing := fun logH hphase => (by cases hphase)

/-- To another place of the loop, without drawing. -/
theorem Sound.move (h : Sound s) (hlive : s.returned = false) {phase : LoopPhase}
    (hphase : ∀ logH, phase ≠ .drawing logH) : Sound { s with phase } where
  flow := h.flow
  whole := fun _ => h.whole hlive
  drained := h.drained
  cleared := h.cleared
  printed := h.printed
  accepted := h.accepted
  accepts := h.accepts
  history := h.history
  drawing := fun logH hdrawing => absurd hdrawing (hphase logH)

theorem Sound.deliver (h : Sound s) (next : Option σ) (output : Output) :
    Sound ({ s with source := next }.deliver output) := by
  unfold Live.deliver
  split
  · refine ⟨?_, ?_, h.drained, h.cleared, h.printed, h.accepted, h.accepts, h.history, h.drawing⟩
    · show s.received ++ (if s.returned then s.queue else s.queue ++ [output]) <+: s.sent ++ [output]
      split
      · exact h.flow.trans (List.prefix_append _ _)
      · rename_i hlive
        rw [← List.append_assoc, h.whole (by simpa using hlive)]
    · intro hlive
      have hlive' : s.returned = false := hlive
      show s.received ++ (if s.returned then s.queue else s.queue ++ [output]) = s.sent ++ [output]
      rw [hlive', if_neg Bool.false_ne_true, ← List.append_assoc, h.whole hlive']
  · rename_i htx
    exact ⟨h.flow, h.whole, h.drained, h.cleared, fun htx' => absurd htx' htx, h.accepted, h.accepts,
      h.history, h.drawing⟩

theorem Sound.recv (h : Sound s) (env : AppEnv) (hphase : s.phase = .draining) {output : Output}
    {rest : List Output} (hqueue : s.queue = output :: rest) : Sound (s.recv env output rest) := by
  have hlive : s.returned = false := by rw [Live.returned, hphase]
  have hwhole := h.whole hlive
  rw [hqueue, List.append_cons] at hwhole
  have hflow : s.received ++ [output] ++ rest = s.sent := hwhole
  have hlength : (s.received ++ [output]).length = s.received.length + 1 := by
    rw [List.length_append, List.length_singleton]
  have hreceive : (s.app.receive env output).acceptSourceRecords = s.app.acceptSourceRecords :=
    (receive_controls env s.app output).acceptSourceRecords
  unfold Live.recv
  refine ⟨?_, fun _ => hflow, ?_, ?_, h.printed, ?_, ?_, ?_, ?_⟩
  · show s.received ++ [output] ++ rest <+: s.sent
    rw [hflow]
  · show s.drained ≤ (s.received ++ [output]).length
    rw [hlength]
    exact Nat.le_succ_of_le h.drained
  · show s.cleared ≤ (s.received ++ [output]).length
    rw [hlength]
    exact Nat.le_succ_of_le h.cleared
  · show Tui.accepted (s.effects ++ _) <+: s.received ++ [output]
    rw [accepted_append, accepted_receiveTrace]
    split
    · rename_i haccept
      rw [h.accepts haccept]
    · rw [List.append_nil]
      exact h.accepted.trans (List.prefix_append _ _)
  · intro haccept
    rw [hreceive] at haccept
    show Tui.accepted (s.effects ++ _) = s.received ++ [output]
    rw [accepted_append, accepted_receiveTrace, if_pos haccept, h.accepts haccept]
  · intro hopened
    obtain ⟨haccept, base, hholds⟩ := h.history fun hmem => hopened (List.mem_append_left _ hmem)
    refine ⟨hreceive.trans haccept, base, ?_⟩
    have hnext : Holds (_ ++ Tui.accepted (receiveTrace env s.app output).2) base (s.app.receive env output) :=
      hholds.receive output
    rw [accepted_receiveTrace, if_pos haccept] at hnext
    show Holds ((s.received ++ [output]).drop s.cleared) base (s.app.receive env output)
    rwa [List.drop_append_of_le_length h.cleared]
  · intro logH hdrawing
    rw [hphase] at hdrawing
    cases hdrawing

theorem Sound.turn (h : Sound s) (env : AppEnv) (termH : ℕ) (hphase : s.phase = .draining)
    (hqueue : s.queue = []) : Sound (s.turn env termH) := by
  have hlive : s.returned = false := by rw [Live.returned, hphase]
  have hwhole := h.whole hlive
  rw [hqueue, List.append_nil] at hwhole
  have hturn : (s.app.leaveSplashIfTraffic.trimHistory env).clampScroll (logHeight termH)
      = s.app.turn env [] (logHeight termH) := rfl
  unfold Live.turn
  refine ⟨h.flow, fun _ => h.whole hlive, ?_, h.cleared, h.printed, h.accepted, ?_, ?_, ?_⟩
  · show s.sent.length ≤ s.received.length
    rw [hwhole]
  · intro haccept
    refine h.accepts ?_
    rwa [← (turn_controls env s.app [] (logHeight termH)).acceptSourceRecords]
  · intro hopened
    obtain ⟨haccept, base, hholds⟩ := h.history hopened
    refine ⟨(turn_controls env s.app [] (logHeight termH)).acceptSourceRecords.trans haccept, base, ?_⟩
    have hnext : Holds (_ ++ Tui.accepted (run (receiveTrace env) s.app []).2) base
        (s.app.turn env [] (logHeight termH)) := hholds.turn [] (logHeight termH)
    rwa [run_nil, append_accepted_nil] at hnext
  · intro logH hdrawing
    cases hdrawing
    refine ⟨?_, Nat.le_max_right _ _, trimHistory_length_le env _, clampScroll_scroll _⟩
    show s.sent.length = s.received.length
    rw [hwhole]

theorem Sound.key (h : Sound s) (io : Io) (env : AppEnv) {logH : ℕ} (hphase : s.phase = .reading logH)
    (key : KeyEvent) (more : Bool) : Sound (s.key senv io env logH key more) := by
  have hlive : s.returned = false := by rw [Live.returned, hphase]
  have hnext : Sound
      { s with
          phase := if more then .reading logH else .draining
          app := (s.app.handleKey senv io env logH key).1
          effects := s.effects ++ s.app.keyEffects senv io env key
          cleared :=
            if key = ⟨.char 'c', false⟩ ∧ s.app.commandEditing = false ∧ s.app.showSplash = false ∧
                s.app.filterEditing = false then s.received.length else s.cleared } := by
    refine ⟨h.flow, fun _ => h.whole hlive, h.drained, ?_, h.printed, ?_, ?_, ?_, ?_⟩
    · dsimp only
      split
      · exact Nat.le_refl _
      · exact h.cleared
    · dsimp only
      rw [accepted_append, accepted_keyEffects, List.append_nil]
      exact h.accepted
    · intro haccept
      dsimp only
      rw [accepted_append, accepted_keyEffects, List.append_nil]
      exact h.accepts (handleKey_accepts haccept)
    · intro hopened
      obtain ⟨haccept, base, hholds⟩ := h.history fun hmem => hopened (List.mem_append_left _ hmem)
      dsimp only
      split
      · rename_i hclears
        rw [handleKey_clears hclears, List.drop_length]
        exact ⟨haccept, _, holds_start s.app.clear⟩
      · rename_i hclears
        have hsame : SameRecords s.app (s.app.handleKey senv io env logH key).1 :=
          handleKey_records hclears fun hmem => hopened (List.mem_append_right _ hmem)
        exact ⟨hsame.acceptSourceRecords.trans haccept, base, hholds.same hsame⟩
    · intro logH' hdrawing
      cases more <;> cases hdrawing
  unfold Live.key
  dsimp only
  split
  · exact hnext.leave false
  · exact hnext

theorem sound_step (h : Sound s) (hstep : LiveStep fenv senv source s after) : Sound after := by
  have hlive : ∀ logH, s.phase = .polling logH ∨ s.phase = .reading logH ∨ s.phase = .drawing logH →
      s.returned = false := by
    rintro logH (hphase | hphase | hphase) <;> rw [Live.returned, hphase]
  cases hstep with
  | work | ret =>
    exact ⟨h.flow, h.whole, h.drained, h.cleared, h.printed, h.accepted, h.accepts, h.history, h.drawing⟩
  | count =>
    refine ⟨h.flow, h.whole, h.drained, h.cleared, h.printed, h.accepted, h.accepts, ?_, ?_⟩
    · intro hopened
      obtain ⟨haccept, base, hholds⟩ := h.history hopened
      exact ⟨haccept, base, hholds.same ⟨rfl, rfl, rfl⟩⟩
    · intro logH hdrawing
      obtain ⟨hdrained, hlog, hcap, hclamp⟩ := h.drawing logH hdrawing
      exact ⟨hdrained, hlog, hcap, hclamp⟩
  | deliver => exact h.deliver _ _
  | closeOutput =>
    exact ⟨h.flow, h.whole, h.drained, h.cleared, fun htx => (by cases htx), h.accepted, h.accepts, h.history,
      h.drawing⟩
  | recv io hphase hqueue => exact h.recv _ hphase hqueue
  | turn io termH hphase hqueue => exact h.turn _ termH hphase hqueue
  | draw hphase => exact h.move (hlive _ (.inr (.inr hphase))) fun _ hdrawing => (by cases hdrawing)
  | timeout hphase => exact h.move (hlive _ (.inl hphase)) fun _ hdrawing => (by cases hdrawing)
  | ready hphase => exact h.move (hlive _ (.inl hphase)) fun _ hdrawing => (by cases hdrawing)
  | key io hphase key more => exact h.key io _ hphase key more
  | other hphase more =>
    refine h.move (hlive _ (.inr (.inl hphase))) fun _ hdrawing => ?_
    cases more <;> cases hdrawing
  | fail => exact h.leave true

theorem sound_run {start : Live σ} (h : Sound start) (hreach : ReflTransGen (LiveStep fenv senv source) start s) :
    Sound s := by
  induction hreach with
  | refl => exact h
  | tail _ hstep ih => exact sound_step ih hstep

/-- **A run of the two threads is one of the machine.** -/
theorem run_app {start : Live σ} (hstart : start.effects = [])
    (hreach : ReflTransGen (LiveStep fenv senv source) start s) :
    ∃ inputs, run (appStep fenv senv) start.app inputs = (s.app, s.effects) := by
  induction hreach with
  | refl => exact ⟨[], by rw [hstart]; rfl⟩
  | tail _ hstep ih =>
    obtain ⟨inputs, hrun⟩ := ih
    rcases liveStep_app hstep with ⟨happ, heffects⟩ | ⟨input, happ, heffects⟩
    · exact ⟨inputs, by rw [happ, heffects, hrun]⟩
    · refine ⟨inputs ++ [input], ?_⟩
      rw [run_append, run_singleton, hrun, happ, heffects]

end Sound

/-! ### The drawing -/

/-- A history within the cap is the newest of what it holds. -/
theorem Holds.newest {all : List Output} {base : ℕ} {app : App} (h : Holds all base app)
    (hcap : app.events.length ≤ historyCap) : app.events = newest all := by
  obtain ⟨n, hevicted⟩ := h
  have hlength := hevicted.length
  have hbound := hevicted.bound
  have hn : n = all.length - historyCap := by omega
  rw [hevicted.events, hn]
  rfl

section Window

variable {lineCount : List Line → ℕ → ℕ} {app : App} {logH width : ℕ}

/-- The loop over the heights always keeps its first item. -/
theorem fillRows_first {height : ℕ → Option ℕ} {mark : ℕ → ℕ} {last kept : ℕ} {item : ℕ × ℕ}
    {items : List (ℕ × ℕ)} (h : fillRows height mark logH 0 last (item :: items) = some kept) :
    ∃ first ∈ item :: items, kept = mark first.2 := by
  obtain ⟨eventIndex, i⟩ := item
  obtain ⟨n, hn, h⟩ := Option.bind_eq_some_iff.mp h
  rw [if_neg (fun hrows => hrows.1 rfl)] at h
  split at h
  · exact ⟨_, List.mem_cons_self .., (Option.some.inj h).symm⟩
  · rcases fillRows_mem h with hlast | ⟨first, hfirst, hkept⟩
    · exact ⟨_, List.mem_cons_self .., hlast⟩
    · exact ⟨first, List.mem_cons_of_mem _ hfirst, hkept⟩

/-- **Following, the newest matching event is in the window.** -/
theorem window_newest (hlog : 1 ≤ logH) (hclamp : (app.clampScroll logH).scroll = app.scroll)
    (hfollow : app.follow = true) (hne : app.visible ≠ []) {start stop : ℕ}
    (h : app.window lineCount logH width = some (start, stop)) :
    start < stop ∧ stop = app.visible.length := by
  have hpos : 0 < app.visible.length := List.length_pos_iff.mpr hne
  unfold App.window at h
  by_cases hrows : (app.wrap || app.rich) = true
  · rw [if_pos hrows, viewWindow, if_neg (Nat.ne_of_gt hpos), if_pos hfollow] at h
    obtain ⟨kept, hkept, hpair⟩ := Option.map_eq_some_iff.mp h
    cases hpair
    have hitems : app.visible.zipIdx.reverse ≠ [] := by simpa using hne
    obtain ⟨item, items, hcons⟩ := List.exists_cons_of_ne_nil hitems
    rw [hcons] at hkept
    obtain ⟨first, hfirst, hmark⟩ := fillRows_first hkept
    rw [← hcons] at hfirst
    refine ⟨?_, rfl⟩
    rw [hmark]
    exact List.snd_lt_of_mem_zipIdx (List.mem_reverse.mp hfirst)
  · rw [if_neg hrows] at h
    cases h
    have hscroll : min (app.visible.length - logH) (app.visible.length - logH) = app.scroll := by
      rw [App.clampScroll, if_neg hrows, if_pos hfollow] at hclamp
      exact hclamp
    omega

end Window

/-! ### A short run -/

/-- A source with these records, that never closes the channel. -/
def listSource : LiveSource (List Output)
  | [], .ret => True
  | output :: rest, .deliver given next => given = output ∧ next = rest
  | _, _ => False

/-- The start of a recorded run, with three records to come. -/
def threeLines : Live (List Output) :=
  { source := some [.line "a", .line "b", .line "c"], tx := true, queue := [], phase := .draining
    app := App.started "pcap" Metrics.new false {} [] (some (SessionWriter.create "out.jsonl"))
    printed := [], sent := [], received := [], effects := [], cleared := 0, drained := 0 }

theorem begin_threeLines : Live.begin (fun _ => none) (some "out.jsonl") "pcap" Metrics.new false {} []
    [Output.line "a", .line "b", .line "c"] = .ok threeLines := rfl

/-- The first record is received and drawn. -/
def oneDrawn : Live (List Output) :=
  (({ threeLines with source := some [Output.line "b", .line "c"] }.deliver (.line "a")).recv
    ⟨plainFilterEnv, fun _ _ => none⟩ (.line "a") []).turn ⟨plainFilterEnv, fun _ _ => none⟩ 24

theorem reach_oneDrawn :
    ReflTransGen (LiveStep plainFilterEnv writeOnlyEnv listSource) threeLines oneDrawn :=
  ((ReflTransGen.refl.tail (.deliver rfl ⟨rfl, rfl⟩)).tail (.recv quietIo rfl rfl)).tail
    (.turn quietIo 24 rfl rfl)

/-- The second is sent, and the user quits before the channel is emptied again. -/
def oneLost : Live (List Output) :=
  ({ ({ oneDrawn with phase := .polling 14, source := some [Output.line "c"] }.deliver (.line "b")) with
      phase := .reading 14 }.key writeOnlyEnv quietIo ⟨plainFilterEnv, quietIo.faults⟩ 14 ⟨.char 'q', false⟩ false)

theorem reach_oneLost :
    ReflTransGen (LiveStep plainFilterEnv writeOnlyEnv listSource) threeLines oneLost :=
  (((reach_oneDrawn.tail (.draw rfl)).tail (.deliver rfl ⟨rfl, rfl⟩)).tail (.ready rfl)).tail
    (.key quietIo rfl ⟨.char 'q', false⟩ false)

theorem effects_oneLost : oneLost.effects = [.accepted (.line "a")] := rfl

/-- The view is cleared, the second record received, and the third sent while it is drawn. -/
def clearedDrawn : Live (List Output) :=
  let cleared := { oneDrawn with phase := .reading 14 }.key writeOnlyEnv quietIo
    ⟨plainFilterEnv, quietIo.faults⟩ 14 ⟨.char 'c', false⟩ false
  { ((({ cleared with source := some [Output.line "c"] }.deliver (.line "b")).recv
      ⟨plainFilterEnv, quietIo.faults⟩ (.line "b") []).turn ⟨plainFilterEnv, quietIo.faults⟩ 24) with
    source := some [] }.deliver (.line "c")

theorem reach_clearedDrawn :
    ReflTransGen (LiveStep plainFilterEnv writeOnlyEnv listSource) threeLines clearedDrawn :=
  ((((((reach_oneDrawn.tail (.draw rfl)).tail (.ready rfl)).tail
    (.key quietIo rfl ⟨.char 'c', false⟩ false)).tail (.deliver rfl ⟨rfl, rfl⟩)).tail
    (.recv quietIo rfl rfl)).tail (.turn quietIo 24 rfl rfl)).tail (.deliver rfl ⟨rfl, rfl⟩)

theorem effects_clearedDrawn : clearedDrawn.effects = [.accepted (.line "a"), .accepted (.line "b")] := rfl

/-! ### Every run -/

section Run

variable (fenv : FilterEnv) (senv : SessionEnv) (source : LiveSource σ) {creates : String → Option SessionError}
  {mode : String} {metrics : Metrics} {rich : Bool} {filter : DisplayFilter} {splashLines : List String}
  {state : σ} {start s : Live σ}

/-- **The two threads refine the machine**, whatever the source does and the user presses.  The App is what
some inputs have made of it, among them each record of the channel once and in order, from the first on, and
all of them as long as no session has been opened.  Until the loop returns none is lost between the two, and
nothing is printed past the TUI as long as the source has not closed the channel. -/
theorem live_refines {save : Option String}
    (hbegin : Live.begin creates save mode metrics rich filter splashLines state = .ok start)
    (hreach : ReflTransGen (LiveStep fenv senv source) start s) :
    (∃ inputs, run (appStep fenv senv)
        (App.started mode metrics rich filter splashLines (save.map SessionWriter.create)) inputs
          = (s.app, s.effects)) ∧
      accepted s.effects <+: s.received ∧ (.opened ∉ s.effects → accepted s.effects = s.received) ∧
      s.received ++ s.queue <+: s.sent ∧ (s.returned = false → s.received ++ s.queue = s.sent) ∧
      (s.tx = true → s.printed = []) := by
  have hsound := sound_run (begin_sound hbegin) hreach
  obtain ⟨happ, heffects⟩ := begin_app hbegin
  rw [← happ]
  exact ⟨run_app heffects hreach, hsound.accepted, fun hopened => hsound.accepts (hsound.history hopened).1,
    hsound.flow, hsound.whole, hsound.printed⟩

/-- One record received, one lost. -/
theorem live_refines_quit : accepted oneLost.effects = oneLost.received ∧
    oneLost.received ++ oneLost.queue <+: oneLost.sent := by
  obtain ⟨_, _, hopened, hflow, _⟩ :=
    live_refines plainFilterEnv writeOnlyEnv listSource begin_threeLines reach_oneLost
  refine ⟨hopened ?_, hflow⟩
  rw [effects_oneLost]
  simp

/-- **What a frame is drawn from**, as long as no session has been opened: of all that had been sent when the
channel was found empty, the newest records since the history was last cleared, and of these the ones that match
the filter.  Following, the slice of them that the log is drawn from ends with the newest.  (The splash, and a
terminal of ten rows or fewer, leave no room for the log.) -/
theorem live_frames {save : Option String}
    (hbegin : Live.begin creates save mode metrics rich filter splashLines state = .ok start)
    (hreach : ReflTransGen (LiveStep fenv senv source) start s) (hopened : .opened ∉ s.effects) {logH : ℕ}
    (hphase : s.phase = .drawing logH) :
    s.received = s.sent.take s.drained ∧ s.app.events = newest (s.received.drop s.cleared) ∧
      s.app.visible = matching fenv s.app.filter s.app.events ∧
      ∀ lineCount width window, s.app.window lineCount logH width = some window → s.app.follow = true →
        s.app.visible ≠ [] → window.1 < window.2 ∧ window.2 = s.app.visible.length := by
  have hsound := sound_run (begin_sound hbegin) hreach
  obtain ⟨happ, heffects⟩ := begin_app hbegin
  obtain ⟨hdrained, hlog, hcap, hclamp⟩ := hsound.drawing logH hphase
  obtain ⟨_, base, hholds⟩ := hsound.history hopened
  refine ⟨?_, hholds.newest hcap, ?_, ?_⟩
  · have hbegins := (List.prefix_append _ _).trans hsound.flow
    rw [hdrained]
    exact List.prefix_iff_eq_take.mp hbegins
  · obtain ⟨inputs, hrun⟩ := run_app heffects hreach
    have hstart : Shown fenv start.app := by rw [happ]; rfl
    have hshown := run_invariant (appStep fenv senv) (fun _ app _ => Shown fenv app) hstart
      (fun _ _ _ input h => appStep_shown h input) inputs
    rwa [hrun] at hshown
  · intro lineCount width window hwindow hfollow hne
    exact window_newest hlog hclamp hfollow hne hwindow

/-- Two of three records have been received, and the first of them cleared. -/
theorem live_frames_cleared :
    clearedDrawn.received = clearedDrawn.sent.take 2 ∧ clearedDrawn.app.events = newest [.line "b"] ∧
      clearedDrawn.app.visible = matching plainFilterEnv {} [.line "b"] ∧
      ∃ window, clearedDrawn.app.window (fun _ _ => 1) 14 80 = some window ∧ window.1 < window.2 ∧
        window.2 = 1 := by
  have hopened : .opened ∉ clearedDrawn.effects := by
    rw [effects_clearedDrawn]
    simp
  obtain ⟨hreceived, hevents, hvisible, hwindow⟩ :=
    live_frames plainFilterEnv writeOnlyEnv listSource begin_threeLines reach_clearedDrawn hopened rfl
  have hslice : clearedDrawn.app.window (fun _ _ => 1) 14 80 = some (0, 1) := rfl
  have hne : clearedDrawn.app.visible ≠ [] := by
    intro hempty
    cases hempty
  exact ⟨hreceived, hevents, hvisible, (0, 1), hslice, hwindow _ 80 (0, 1) hslice rfl hne⟩

/-- **What `--save` has written**, as long as no write has failed and no command has replaced the recorder:
exactly the records that the TUI has received, and so at least all that had been sent when it last found the
channel empty.  So it is also when the user has quit. -/
theorem live_saved {path : String}
    (hbegin : Live.begin creates (some path) mode metrics rich filter splashLines state = .ok start)
    (hreach : ReflTransGen (LiveStep fenv senv source) start s)
    (hkeeps : ∀ effect ∈ s.effects, effect.KeepsRecorder) :
    s.app.recorder = some ⟨path, s.received⟩ ∧ s.sent.take s.drained <+: s.received ∧
      s.received <+: s.sent := by
  have hsound := sound_run (begin_sound hbegin) hreach
  obtain ⟨happ, heffects⟩ := begin_app hbegin
  have hbegins := (List.prefix_append _ _).trans hsound.flow
  have hopened : .opened ∉ s.effects := fun hmem => hkeeps _ hmem
  refine ⟨?_, ?_, hbegins⟩
  · obtain ⟨inputs, hrun⟩ := run_app heffects hreach
    have hstart : start.app.recorder = some (SessionWriter.create path) := by rw [happ]; rfl
    have hrecorder : Continues _ (run (appStep fenv senv) start.app inputs).2
        (run (appStep fenv senv) start.app inputs).1 := run_recorder hstart inputs
    rw [hrun] at hrecorder
    rw [hrecorder hkeeps, hsound.accepts (hsound.history hopened).1]
    rfl
  · rw [List.prefix_iff_eq_take.mp hbegins]
    exact List.take_prefix_take_left hsound.drained

/-- The record that is lost is not in the file. -/
theorem live_saved_quit : oneLost.app.recorder = some ⟨"out.jsonl", [.line "a"]⟩ := by
  have hsaved := live_saved plainFilterEnv writeOnlyEnv listSource begin_threeLines reach_oneLost
  refine (hsaved ?_).1
  intro effect heffect
  rw [effects_oneLost] at heffect
  cases List.mem_singleton.mp heffect
  trivial

end Run

end Tapgres.Tui
