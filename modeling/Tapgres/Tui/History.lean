import Tapgres.Tui.Recorder

/-!
# The bounded history

Records are pushed at the end of the history and evicted from its front, in chunks as they are pushed and
down to the cap once in each turn.  Both evictions are counted by one counter.

* `SameControls`, `frame_controls` — traffic leaves the filter, the modes and the texts alone;
* `trimHistory_events`, `pushOutput_events` — what the two evictions leave;
* `Evicted` — the history is all that has come but for the oldest, which are counted; kept by each step;
* `history_newest_suffix` — so it is in every run that neither clears it nor opens a session.
-/

namespace Tapgres.Tui

open Tapgres.Decode Tapgres.Filter Tapgres.State Tapgres.Session Tapgres.Lib Tapgres.Lib.Run

/-! ### What traffic leaves alone -/

/-- Nothing differs but the history, the position in it, the recorder, the notice and the splash. -/
structure SameControls (app after : App) : Prop where
  follow : after.follow = app.follow
  wrap : after.wrap = app.wrap
  rich : after.rich = app.rich
  mode : after.mode = app.mode
  metrics : after.metrics = app.metrics
  filter : after.filter = app.filter
  filterText : after.filterText = app.filterText
  filterError : after.filterError = app.filterError
  filterEditing : after.filterEditing = app.filterEditing
  commandEditing : after.commandEditing = app.commandEditing
  commandText : after.commandText = app.commandText
  acceptSourceRecords : after.acceptSourceRecords = app.acceptSourceRecords
  /-- The splash does not come back. -/
  splash : app.showSplash = false → after.showSplash = false

theorem SameControls.rfl {app : App} : SameControls app app where
  follow := .refl _
  wrap := .refl _
  rich := .refl _
  mode := .refl _
  metrics := .refl _
  filter := .refl _
  filterText := .refl _
  filterError := .refl _
  filterEditing := .refl _
  commandEditing := .refl _
  commandText := .refl _
  acceptSourceRecords := .refl _
  splash := id

theorem SameControls.trans {app mid after : App} (h : SameControls app mid)
    (h' : SameControls mid after) : SameControls app after where
  follow := h'.follow.trans h.follow
  wrap := h'.wrap.trans h.wrap
  rich := h'.rich.trans h.rich
  mode := h'.mode.trans h.mode
  metrics := h'.metrics.trans h.metrics
  filter := h'.filter.trans h.filter
  filterText := h'.filterText.trans h.filterText
  filterError := h'.filterError.trans h.filterError
  filterEditing := h'.filterEditing.trans h.filterEditing
  commandEditing := h'.commandEditing.trans h.commandEditing
  commandText := h'.commandText.trans h.commandText
  acceptSourceRecords := h'.acceptSourceRecords.trans h.acceptSourceRecords
  splash := h'.splash ∘ h.splash

section Traffic

variable (env : AppEnv) (app : App)

theorem dropOldest_controls (n : ℕ) : SameControls app ((app.dropOldest n).rebuildVisible env) :=
  ⟨rfl, rfl, rfl, rfl, rfl, rfl, rfl, rfl, rfl, rfl, rfl, rfl, id⟩

theorem trimHistory_controls : SameControls app (app.trimHistory env) := by
  unfold App.trimHistory
  split
  · exact .rfl
  · exact dropOldest_controls env app _

theorem append_controls (output : Output) :
    SameControls app ((app.record env output).append env output) :=
  ⟨rfl, rfl, rfl, rfl, rfl, rfl, rfl, rfl, rfl, rfl, rfl, rfl, id⟩

theorem pushOutput_controls (output : Output) : SameControls app (app.pushOutput env output) := by
  unfold App.pushOutput
  dsimp only
  split
  · exact (append_controls env app output).trans (trimHistory_controls env _)
  · exact append_controls env app output

theorem receive_controls (output : Output) : SameControls app (app.receive env output) := by
  unfold App.receive
  split
  · exact pushOutput_controls env app output
  · exact .rfl

theorem drain_controls (arrived : List Output) :
    SameControls app (arrived.foldl (App.receive env) app) := by
  induction arrived generalizing app with
  | nil => exact .rfl
  | cons output arrived ih => exact (receive_controls env app output).trans (ih _)

theorem leaveSplash_controls : SameControls app app.leaveSplashIfTraffic := by
  unfold App.leaveSplashIfTraffic
  split
  · exact ⟨rfl, rfl, rfl, rfl, rfl, rfl, rfl, rfl, rfl, rfl, rfl, rfl, fun _ => rfl⟩
  · exact .rfl

/-- **Traffic leaves the controls alone.** -/
theorem frame_controls (arrived : List Output) : SameControls app (app.frame env arrived) :=
  (drain_controls env app arrived).trans
    ((leaveSplash_controls _).trans (trimHistory_controls env _))

theorem turn_controls (arrived : List Output) (logH : ℕ) :
    SameControls app (app.turn env arrived logH) := by
  have hframe := frame_controls env app arrived
  exact ⟨hframe.follow, hframe.wrap, hframe.rich, hframe.mode, hframe.metrics, hframe.filter,
    hframe.filterText, hframe.filterError, hframe.filterEditing, hframe.commandEditing,
    hframe.commandText, hframe.acceptSourceRecords, hframe.splash⟩

end Traffic

/-! ### The two evictions -/

/-- How many records a push evicts, from a history of some length. -/
def pushEvicts (held : ℕ) : ℕ :=
  if held + 1 ≥ historyCap + historyTrimChunk then held + 1 - historyCap else 0

/-- How many a trim evicts. -/
def trimEvicts (held : ℕ) : ℕ := held - historyCap

section Evictions

variable (env : AppEnv) (app : App)

theorem dropOldest_events (n : ℕ) :
    ((app.dropOldest n).rebuildVisible env).events = app.events.drop n := rfl

theorem dropOldest_droppedEvents (n : ℕ) :
    ((app.dropOldest n).rebuildVisible env).droppedEvents = app.droppedEvents + n := rfl

theorem trimHistory_events :
    (app.trimHistory env).events = app.events.drop (trimEvicts app.events.length) := by
  unfold App.trimHistory trimEvicts
  split
  · rename_i hle
    rw [Nat.sub_eq_zero_of_le hle, List.drop_zero]
  · exact dropOldest_events env app _

theorem trimHistory_droppedEvents :
    (app.trimHistory env).droppedEvents = app.droppedEvents + trimEvicts app.events.length := by
  unfold App.trimHistory trimEvicts
  split
  · rename_i hle
    rw [Nat.sub_eq_zero_of_le hle, Nat.add_zero]
  · exact dropOldest_droppedEvents env app _

theorem append_events (output : Output) :
    ((app.record env output).append env output).events = app.events ++ [output] := rfl

theorem pushOutput_eq (output : Output) :
    app.pushOutput env output
      = if app.events.length + 1 ≥ historyCap + historyTrimChunk then
          ((app.record env output).append env output).trimHistory env
        else (app.record env output).append env output := by
  rw [App.pushOutput, append_events, List.length_append, List.length_singleton]

theorem pushOutput_events (output : Output) :
    (app.pushOutput env output).events = (app.events ++ [output]).drop (pushEvicts app.events.length) := by
  rw [pushOutput_eq]
  unfold pushEvicts
  split
  · rw [trimHistory_events, append_events, List.length_append, List.length_singleton]
    rfl
  · rw [List.drop_zero, append_events]

theorem pushOutput_droppedEvents (output : Output) :
    (app.pushOutput env output).droppedEvents
      = app.droppedEvents + pushEvicts app.events.length := by
  rw [pushOutput_eq]
  unfold pushEvicts
  split
  · rw [trimHistory_droppedEvents, append_events, List.length_append, List.length_singleton]
    rfl
  · rfl

/-- **After a trim** the history is within the cap. -/
theorem trimHistory_length_le : (app.trimHistory env).events.length ≤ historyCap := by
  rw [trimHistory_events, List.length_drop, trimEvicts]
  omega

/-- **After a push** it is less than a chunk over it. -/
theorem pushOutput_length_lt (output : Output) :
    (app.pushOutput env output).events.length < historyCap + historyTrimChunk := by
  rw [pushOutput_events, List.length_drop, List.length_append, List.length_singleton, pushEvicts]
  have hchunk : 0 < historyTrimChunk := by decide
  split <;> omega

end Evictions

/-! ### What keys and commands do to the history -/

/-- The same records are held, as many are counted as dropped, and source records go the same way. -/
structure SameRecords (app after : App) : Prop where
  events : after.events = app.events
  droppedEvents : after.droppedEvents = app.droppedEvents
  acceptSourceRecords : after.acceptSourceRecords = app.acceptSourceRecords

/-- A step that empties the history: `c` in the view. -/
def App.clears (app : App) : Event → Prop
  | .clear => True
  | .key _ key => key = ⟨.char 'c', false⟩ ∧ app.commandEditing = false ∧ app.showSplash = false ∧
      app.filterEditing = false
  | _ => False

theorem SameRecords.rfl {app : App} : SameRecords app app := ⟨.refl _, .refl _, .refl _⟩

theorem SameRecords.trans {app mid after : App} (h : SameRecords app mid) (h' : SameRecords mid after) :
    SameRecords app after :=
  ⟨h'.events.trans h.events, h'.droppedEvents.trans h.droppedEvents,
    h'.acceptSourceRecords.trans h.acceptSourceRecords⟩

section Keys

variable {senv : SessionEnv} {io : Io} {env : AppEnv} {app : App}

theorem updateFilter_records (text : String) :
    SameRecords app ({ app with filterText := text }.updateFilter env) := by
  rcases updateFilter_cases env { app with filterText := text } with ⟨filter, hvalid⟩ | ⟨error, hinvalid⟩
  · rw [hvalid]
    exact ⟨rfl, rfl, rfl⟩
  · rw [hinvalid]
    exact ⟨rfl, rfl, rfl⟩

/-- **A key keeps the history**, unless it enters a command or clears the view. -/
theorem KeyStep.records {after : App} {logH : ℕ} {key : KeyEvent} (h : KeyStep env app key after)
    (hclears : ¬app.clears (.key logH key)) : SameRecords app after := by
  cases h with
  | moves => exact ⟨rfl, rfl, rfl⟩
  | clears hkey hcommand hsplash hfilter => exact absurd ⟨hkey, hcommand, hsplash, hfilter⟩ hclears
  | entersEditor => exact ⟨rfl, rfl, rfl⟩
  | leavesEditor => exact ⟨rfl, rfl, rfl⟩
  | edits _ text => exact updateFilter_records text
  | clearsFilter => exact ⟨rfl, rfl, rfl⟩

variable (senv io env) in
/-- **A command keeps the history**, unless it opens a session. -/
theorem perform_records (command : Command) (hopened : .opened ∉ app.commandEffects senv io env command) :
    SameRecords app (app.orSelf (app.perform senv io env command)) := by
  cases hresult : app.perform senv io env command with
  | error message => exact .rfl
  | ok result =>
    rcases perform_ok hresult with ⟨argument, _, hafter⟩ | ⟨argument, outputs, dropped, hcommand, _⟩
    · show SameRecords app result.1
      rw [hafter]
      exact ⟨rfl, rfl, rfl⟩
    · exact absurd (opened_of_perform hcommand hresult) hopened

end Keys

/-! ### What has been evicted -/

/-- The history holds `all` but for the first `n`, which are counted on from `base`; no more have been
evicted than the cap asks for. -/
structure Evicted (all : List Output) (base n : ℕ) (app : App) : Prop where
  events : app.events = all.drop n
  droppedEvents : app.droppedEvents = base + n
  bound : n ≤ all.length - historyCap

section Evicted

variable {env : AppEnv} {all : List Output} {base n : ℕ} {app after : App}

theorem Evicted.length (h : Evicted all base n app) : app.events.length = all.length - n := by
  rw [h.events, List.length_drop]

theorem Evicted.same (h : Evicted all base n app) (hsame : SameRecords app after) :
    Evicted all base n after :=
  ⟨hsame.events.trans h.events, hsame.droppedEvents.trans h.droppedEvents, h.bound⟩

variable (env) in
theorem Evicted.trim (h : Evicted all base n app) :
    Evicted all base (n + trimEvicts app.events.length) (app.trimHistory env) where
  events := by rw [trimHistory_events, h.events, List.drop_drop]
  droppedEvents := by rw [trimHistory_droppedEvents, h.droppedEvents, Nat.add_assoc]
  bound := by
    have hbound := h.bound
    rw [h.length, trimEvicts]
    omega

variable (env) in
theorem Evicted.push (h : Evicted all base n app) (output : Output) :
    Evicted (all ++ [output]) base (n + pushEvicts app.events.length) (app.pushOutput env output) where
  events := by
    have hbound := h.bound
    rw [pushOutput_events, h.events, ← List.drop_append_of_le_length (by omega), List.drop_drop]
  droppedEvents := by rw [pushOutput_droppedEvents, h.droppedEvents, Nat.add_assoc]
  bound := by
    have hbound := h.bound
    rw [h.length, pushEvicts, List.length_append, List.length_singleton]
    split <;> omega

/-- So many have been evicted. -/
def Holds (all : List Output) (base : ℕ) (app : App) : Prop := ∃ n, Evicted all base n app

theorem evicted_start (app : App) : Evicted app.events app.droppedEvents 0 app :=
  ⟨rfl, rfl, Nat.zero_le _⟩

theorem holds_start (app : App) : Holds app.events app.droppedEvents app := ⟨0, evicted_start app⟩

theorem Holds.same (h : Holds all base app) (hsame : SameRecords app after) : Holds all base after := by
  obtain ⟨n, h⟩ := h
  exact ⟨n, h.same hsame⟩

theorem append_accepted_nil (all : List Output) : all ++ accepted [] = all := List.append_nil all

theorem accepted_pushEffects (app : App) (output : Output) :
    accepted (app.pushEffects env output) = [output] := by
  unfold App.pushEffects
  split <;> rfl

/-- What is received is held, or is not accepted. -/
theorem Holds.receive (h : Holds all base app) (output : Output) :
    Holds (all ++ accepted (receiveTrace env app output).2) base (app.receive env output) := by
  unfold receiveTrace App.receive
  by_cases haccept : app.acceptSourceRecords = true
  · simp only [if_pos haccept, accepted_pushEffects]
    obtain ⟨n, h⟩ := h
    exact ⟨_, h.push env output⟩
  · simp only [if_neg haccept]
    rwa [append_accepted_nil]

theorem Holds.drain (h : Holds all base app) (arrived : List Output) :
    Holds (all ++ accepted (run (receiveTrace env) app arrived).2) base
      (arrived.foldl (App.receive env) app) := by
  induction arrived generalizing all app with
  | nil => rwa [run_nil, append_accepted_nil]
  | cons output arrived ih =>
    rw [run_cons, accepted_append, ← List.append_assoc]
    exact ih (h.receive output)

theorem leaveSplash_records (app : App) : SameRecords app app.leaveSplashIfTraffic := by
  unfold App.leaveSplashIfTraffic
  split <;> exact ⟨rfl, rfl, rfl⟩

theorem clampScroll_records (app : App) (logH : ℕ) : SameRecords app (app.clampScroll logH) :=
  ⟨rfl, rfl, rfl⟩

theorem Holds.turn (h : Holds all base app) (arrived : List Output) (logH : ℕ) :
    Holds (all ++ accepted (run (receiveTrace env) app arrived).2) base (app.turn env arrived logH) := by
  obtain ⟨n, hdrained⟩ := (h.drain arrived).same (leaveSplash_records _)
  exact Holds.same ⟨_, hdrained.trim env⟩ (clampScroll_records _ logH)

end Evicted

section Step

variable {fenv : FilterEnv} {senv : SessionEnv}

/-- The step neither clears the history nor opens a session. -/
def KeepsHistory (fenv : FilterEnv) (senv : SessionEnv) (app : App) (input : Io × Event) : Prop :=
  ¬app.clears input.2 ∧ .opened ∉ (appStep fenv senv app input).2

theorem executeCommand_records {io : Io} {env : AppEnv} (app : App) :
    SameRecords (app.orSelf (app.perform senv io env (Command.parse app.commandText)))
      (app.executeCommand senv io env) := by
  unfold App.executeCommand
  cases app.perform senv io env (Command.parse app.commandText) <;> exact ⟨rfl, rfl, rfl⟩

variable (senv) in
theorem accepted_commandEffects (io : Io) (env : AppEnv) (app : App) (command : Command) :
    accepted (app.commandEffects senv io env command) = [] := by
  cases command with
  | save argument =>
    rw [App.commandEffects, App.saveEffects]
    split
    · rfl
    · split <;> rfl
  | «open» argument =>
    rw [App.commandEffects, App.openEffects]
    split <;> rfl
  | empty => rfl
  | unknown name => rfl

/-- **A step that keeps the history** adds to it what it accepts, and evicts from its front. -/
theorem appStep_holds {all : List Output} {base : ℕ} {app : App} (h : Holds all base app)
    {input : Io × Event} (hkeeps : KeepsHistory fenv senv app input) :
    Holds (all ++ accepted (appStep fenv senv app input).2) base (appStep fenv senv app input).1 := by
  obtain ⟨io, event⟩ := input
  obtain ⟨hclears, hopened⟩ := hkeeps
  have hquiet : ∀ after, SameRecords app after → Holds (all ++ accepted []) base after := by
    intro after hsame
    rw [append_accepted_nil]
    exact h.same hsame
  have hcommand : ∀ command, .opened ∉ app.commandEffects senv io ⟨fenv, io.faults⟩ command →
      ∀ after, SameRecords (app.orSelf (app.perform senv io ⟨fenv, io.faults⟩ command)) after →
        Holds (all ++ accepted (app.commandEffects senv io ⟨fenv, io.faults⟩ command)) base after := by
    intro command hopened after hafter
    rw [accepted_commandEffects]
    exact hquiet _ ((perform_records senv io _ command hopened).trans hafter)
  cases event with
  | turn arrived logH => exact h.turn arrived logH
  | key logH key =>
    show Holds (all ++ accepted (app.keyEffects senv io ⟨fenv, io.faults⟩ key)) base _
    have hopened' : .opened ∉ app.keyEffects senv io ⟨fenv, io.faults⟩ key := hopened
    unfold App.keyEffects at hopened' ⊢
    split at hopened'
    · rename_i henter
      rw [if_pos henter]
      refine hcommand _ hopened' _ ?_
      show SameRecords _ (app.handleKey senv io ⟨fenv, io.faults⟩ logH key).1
      rw [handleKey_enter henter]
      exact executeCommand_records app
    · rename_i henter
      rw [if_neg henter]
      exact hquiet _ ((handleKey_step henter).records hclears)
  | push output =>
    obtain ⟨n, h⟩ := h
    show Holds (all ++ accepted (app.pushEffects _ output)) base _
    rw [accepted_pushEffects]
    exact ⟨_, h.push _ output⟩
  | trim =>
    obtain ⟨n, h⟩ := h
    show Holds (all ++ accepted []) base _
    rw [append_accepted_nil]
    exact ⟨_, h.trim _⟩
  | edit text => exact hquiet _ (updateFilter_records text)
  | clearFilter => exact hquiet _ ⟨rfl, rfl, rfl⟩
  | clear => exact absurd trivial hclears
  | save argument => exact hcommand (.save argument) hopened _ .rfl
  | «open» argument => exact hcommand (.open argument) hopened _ .rfl
  | metrics metrics => exact hquiet _ ⟨rfl, rfl, rfl⟩

end Step

/-- **The retained history is the newest suffix of what was received.**  In every run in which nothing
is cleared and no session opened, the events at its start and the records pushed since are a prefix that
has been evicted, as long as the count says, and the events; nothing is evicted while the cap can hold
them all.  After each push there is less than a chunk over the cap, and after each trim nothing. -/
theorem history_newest_suffix (fenv : FilterEnv) (senv : SessionEnv) (start : App)
    (inputs : List (Io × Event)) (hkeeps : Meets (appStep fenv senv) (KeepsHistory fenv senv) start inputs) :
    let rest := run (appStep fenv senv) start inputs
    (start.droppedEvents ≤ rest.1.droppedEvents ∧
        ∃ evicted, evicted.length = rest.1.droppedEvents - start.droppedEvents ∧
          start.events ++ accepted rest.2 = evicted ++ rest.1.events) ∧
      (start.events.length + (accepted rest.2).length ≤ historyCap →
        rest.1.droppedEvents = start.droppedEvents) ∧
      (∀ env (app : App) output,
        (app.pushOutput env output).events.length < historyCap + historyTrimChunk) ∧
      ∀ env (app : App), (app.trimHistory env).events.length ≤ historyCap := by
  intro rest
  have hholds : Holds (start.events ++ accepted rest.2) start.droppedEvents rest.1 := by
    refine run_invariant_of_meets (appStep fenv senv)
      (fun _ app effects => Holds (start.events ++ accepted effects) start.droppedEvents app) ?_ ?_ hkeeps
    · rw [append_accepted_nil]
      exact holds_start start
    · intro _ app effects input h hok
      rw [accepted_append, ← List.append_assoc]
      exact appStep_holds h hok
  obtain ⟨n, hevicted⟩ := hholds
  have hbound := hevicted.bound
  rw [List.length_append] at hbound
  have hdropped := hevicted.droppedEvents
  refine ⟨⟨by omega, (start.events ++ accepted rest.2).take n, ?_, ?_⟩, by omega,
    pushOutput_length_lt, trimHistory_length_le⟩
  · rw [List.length_take, List.length_append]
    omega
  · rw [hevicted.events, List.take_append_drop]

section PushTrim

variable (fenv : FilterEnv) (senv : SessionEnv) (app : App) (io : Io) (output : Output)

/-- A push and a trim clear nothing and open nothing. -/
theorem push_trim_keeps :
    Meets (appStep fenv senv) (KeepsHistory fenv senv) app [(io, .push output), (io, .trim)] := by
  have hopened : .opened ∉ app.pushEffects ⟨fenv, io.faults⟩ output := by
    unfold App.pushEffects
    split <;> simp
  exact ⟨⟨id, hopened⟩, ⟨id, List.not_mem_nil⟩, trivial⟩

theorem push_trim_accepted :
    accepted (run (appStep fenv senv) app [(io, .push output), (io, .trim)]).2 = [output] := by
  show accepted (app.pushEffects ⟨fenv, io.faults⟩ output ++ ([] ++ [])) = [output]
  rw [List.append_nil, List.append_nil]
  exact accepted_pushEffects app output

theorem push_trim_length_le :
    (run (appStep fenv senv) app [(io, .push output), (io, .trim)]).1.events.length ≤ historyCap :=
  trimHistory_length_le ⟨fenv, io.faults⟩ (app.pushOutput ⟨fenv, io.faults⟩ output)

end PushTrim

/-- No address is read, and no regex matches. -/
def plainFilterEnv : FilterEnv := ⟨fun _ => none, fun _ => none, fun _ _ => false⟩

/-- An App with a full history. -/
def fullApp : App :=
  { App.started "pcap" Metrics.new false {} [] none with
      events := List.replicate historyCap (.line "a"), visible := List.range historyCap }

/-- A record is pushed behind a full history, and the history trimmed. -/
theorem history_newest_suffix_full :
    let rest := run (appStep plainFilterEnv writeOnlyEnv) fullApp
      [(quietIo, .push (.line "b")), (quietIo, .trim)]
    ∃ evicted, evicted ≠ [] ∧ evicted.length = rest.1.droppedEvents ∧
      fullApp.events ++ [.line "b"] = evicted ++ rest.1.events := by
  intro rest
  obtain ⟨⟨_, evicted, hlength, hall⟩, _⟩ :=
    history_newest_suffix plainFilterEnv writeOnlyEnv fullApp
      [(quietIo, .push (.line "b")), (quietIo, .trim)] (push_trim_keeps ..)
  have hnone : fullApp.droppedEvents = 0 := rfl
  rw [push_trim_accepted] at hall
  change fullApp.events ++ [.line "b"] = evicted ++ rest.1.events at hall
  rw [hnone, Nat.sub_zero] at hlength
  refine ⟨evicted, ?_, hlength, hall⟩
  rintro rfl
  -- nothing evicted would leave one record more than a trimmed history holds
  have hwhole := congrArg List.length hall
  have hle : rest.1.events.length ≤ historyCap := push_trim_length_le ..
  have hfull : fullApp.events.length = historyCap := List.length_replicate
  rw [List.nil_append, List.length_append, List.length_singleton, hfull] at hwhole
  rw [← hwhole] at hle
  exact Nat.not_succ_le_self historyCap hle

end Tapgres.Tui
