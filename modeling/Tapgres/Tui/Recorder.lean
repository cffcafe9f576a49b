import Tapgres.Tui.Commands

/-!
# What a recorder writes

A `:save` writes the retained events and leaves a recorder for what comes later; `--save` starts with a
recorder and nothing retained.  From there on each record that is accepted goes to the recorder before
the filter or the cap can hide it.

* `accepted`, `Effect.KeepsRecorder` — the records accepted in a run, and the effects that leave the
  recorder in place;
* `appStep_recorder` — a step that leaves it in place writes what it accepts, and no more;
* `recorder_exact` — so the file holds the events retained at the save and the records accepted since.
-/

namespace Tapgres.Tui

open Tapgres.Decode Tapgres.Filter Tapgres.State Tapgres.Session Tapgres.Lib.Run

/-! ### The effects of a run -/

/-- The records accepted, in order. -/
def accepted (effects : List Effect) : List Output :=
  effects.filterMap fun
    | .accepted output => some output
    | _ => none

/-- No write fails, and no recorder is replaced or taken away. -/
def Effect.KeepsRecorder : Effect → Prop
  | .accepted _ => True
  | _ => False

@[simp] theorem accepted_append (effects more : List Effect) :
    accepted (effects ++ more) = accepted effects ++ accepted more := List.filterMap_append

variable {fenv : FilterEnv} {senv : SessionEnv} {env : AppEnv}

/-! ### One step -/

/-- The recorder goes on to hold what the effects accept. -/
def Continues (writer : SessionWriter) (effects : List Effect) (app : App) : Prop :=
  (∀ effect ∈ effects, effect.KeepsRecorder) →
    app.recorder = some { writer with written := writer.written ++ accepted effects }

theorem continues_of_nil {writer : SessionWriter} {app : App} (h : app.recorder = some writer) :
    Continues writer [] app := by
  intro _
  rw [h]
  simp [accepted]

/-- Effects in two parts. -/
theorem Continues.append {writer : SessionWriter} {effects more : List Effect} {app after : App}
    (h : Continues writer effects app)
    (hmore : ∀ writer', app.recorder = some writer' → Continues writer' more after) :
    Continues writer (effects ++ more) after := by
  intro hkeeps
  have hfirst := h fun effect hmem => hkeeps effect (List.mem_append_left more hmem)
  have hrest := hmore _ hfirst fun effect hmem => hkeeps effect (List.mem_append_right effects hmem)
  rw [hrest, accepted_append, List.append_assoc]

/-- A record that is pushed is written, or the write fails. -/
theorem pushOutput_continues {app : App} {writer : SessionWriter} (h : app.recorder = some writer)
    (output : Output) : Continues writer (app.pushEffects env output) (app.pushOutput env output) := by
  intro hkeeps
  rw [(pushOutput_frame env app output).1, h]
  cases hfault : env.faults writer output with
  | none =>
    have heffects : app.pushEffects env output = [.accepted output] := by
      rw [App.pushEffects, h, recordOutput_of_none hfault]
      rfl
    rw [heffects, recordOutput_of_none hfault]
    rfl
  | some error =>
    have hfailed : Effect.writeFailed ∈ app.pushEffects env output := by
      rw [App.pushEffects, h, recordOutput_of_some hfault]
      exact List.mem_cons_of_mem _ (List.mem_singleton.mpr rfl)
    exact absurd (hkeeps _ hfailed) id

theorem receive_continues {app : App} {writer : SessionWriter} (h : app.recorder = some writer)
    (output : Output) : Continues writer (receiveTrace env app output).2 (app.receive env output) := by
  unfold receiveTrace App.receive
  by_cases haccept : app.acceptSourceRecords = true
  · simp only [if_pos haccept]
    exact pushOutput_continues h output
  · simp only [if_neg haccept]
    exact continues_of_nil h

/-- Draining the channel. -/
theorem drain_continues {app : App} {writer : SessionWriter} (h : app.recorder = some writer)
    (arrived : List Output) : Continues writer (run (receiveTrace env) app arrived).2
      (arrived.foldl (App.receive env) app) := by
  induction arrived generalizing app writer with
  | nil => exact continues_of_nil h
  | cons output arrived ih => exact (receive_continues h output).append fun _ h' => ih h'

theorem turn_recorder (app : App) (arrived : List Output) (logH : ℕ) :
    (app.turn env arrived logH).recorder = (arrived.foldl (App.receive env) app).recorder := by
  show (((arrived.foldl (App.receive env) app).leaveSplashIfTraffic).trimHistory env).recorder = _
  rw [(trimHistory_frame env _).1, (leaveSplash_frame _).1]

theorem updateFilter_recorder (app : App) : (app.updateFilter env).recorder = app.recorder := by
  rcases updateFilter_cases env app with ⟨filter, hvalid⟩ | ⟨error, hinvalid⟩
  · rw [hvalid, rebuildVisible_recorder]
  · rw [hinvalid]

variable (senv env) in
/-- A command either is a `:save` or an `:open` that succeeds, or leaves the recorder in place. -/
theorem perform_continues {io : Io} {app : App} {writer : SessionWriter} (h : app.recorder = some writer)
    (command : Command) : Continues writer (app.commandEffects senv io env command)
      (app.orSelf (app.perform senv io env command)) := by
  intro hkeeps
  cases command with
  | save argument =>
    rw [App.commandEffects, App.saveEffects] at hkeeps ⊢
    rw [App.perform]
    cases hresult : app.startRecording io argument with
    | ok result =>
      rw [hresult] at hkeeps
      exact absurd (hkeeps _ (List.mem_singleton.mpr rfl)) id
    | error message =>
      rw [hresult] at hkeeps
      dsimp only at hkeeps ⊢
      split at hkeeps
      · rename_i hbefore
        rw [if_pos hbefore]
        exact continues_of_nil h hkeeps
      · exact absurd (hkeeps _ (List.mem_singleton.mpr rfl)) id
  | «open» argument =>
    rw [App.commandEffects, App.openEffects] at hkeeps ⊢
    rw [App.perform]
    cases hresult : app.openSession senv io env argument with
    | ok result =>
      rw [hresult] at hkeeps
      exact absurd (hkeeps _ (List.mem_singleton.mpr rfl)) id
    | error message =>
      rw [hresult] at hkeeps
      exact continues_of_nil h hkeeps
  | empty => exact continues_of_nil h hkeeps
  | unknown name => exact continues_of_nil h hkeeps

theorem executeCommand_recorder {io : Io} (app : App) :
    (app.executeCommand senv io env).recorder
      = (app.orSelf (app.perform senv io env (Command.parse app.commandText))).recorder := by
  unfold App.executeCommand
  cases app.perform senv io env (Command.parse app.commandText) <;> rfl

/-- A key that enters no command leaves the recorder alone. -/
theorem KeyResult.recorder {app after : App} (hresult : KeyResult env app after) :
    after.recorder = app.recorder := by
  cases hresult with
  | view hsame => exact hsame.recorder
  | clear => rfl
  | edit text => exact updateFilter_recorder _
  | clearFilter hsame => exact hsame.recorder

theorem handleKey_continues {io : Io} {app : App} {writer : SessionWriter}
    (h : app.recorder = some writer) (logH : ℕ) (key : KeyEvent) :
    Continues writer (app.keyEffects senv io env key) (app.handleKey senv io env logH key).1 := by
  unfold App.keyEffects
  by_cases henter : app.commandEditing = true ∧ key.code = .enter
  · rw [if_pos henter]
    intro hkeeps
    rw [handleKey_enter henter, executeCommand_recorder]
    exact perform_continues senv env h _ hkeeps
  · rw [if_neg henter]
    exact continues_of_nil ((handleKey_result henter).recorder.trans h)

/-- **A step that leaves the recorder in place writes what it accepts.** -/
theorem appStep_recorder {app : App} {writer : SessionWriter} (h : app.recorder = some writer)
    (input : Io × Event) : Continues writer (appStep fenv senv app input).2
      (appStep fenv senv app input).1 := by
  obtain ⟨io, event⟩ := input
  cases event with
  | turn arrived logH =>
    intro hkeeps
    show (app.turn ⟨fenv, io.faults⟩ arrived logH).recorder = _
    rw [turn_recorder]
    exact drain_continues h arrived hkeeps
  | key logH key => exact handleKey_continues h logH key
  | push output => exact pushOutput_continues h output
  | trim => exact continues_of_nil ((trimHistory_frame ⟨fenv, io.faults⟩ app).1.trans h)
  | edit text =>
    have hrecorder : (App.updateFilter ⟨fenv, io.faults⟩ { app with filterText := text }).recorder
        = app.recorder := updateFilter_recorder _
    exact continues_of_nil (hrecorder.trans h)
  | clearFilter => exact continues_of_nil h
  | clear => exact continues_of_nil h
  | save argument => exact perform_continues senv ⟨fenv, io.faults⟩ h (.save argument)
  | «open» argument => exact perform_continues senv ⟨fenv, io.faults⟩ h (.open argument)
  | metrics metrics => exact continues_of_nil h

/-! ### A run -/

/-- The same for a run. -/
theorem run_recorder {app : App} {writer : SessionWriter} (h : app.recorder = some writer)
    (inputs : List (Io × Event)) : Continues writer (run (appStep fenv senv) app inputs).2
      (run (appStep fenv senv) app inputs).1 :=
  run_invariant (appStep fenv senv) (fun _ app effects => Continues writer effects app)
    (continues_of_nil h) (fun _ _ _ input hso => hso.append fun _ h' => appStep_recorder h' input) inputs

/-! ### The save -/

theorem pushEffects_not_saved (app : App) (output : Output) (path : String) :
    .saved path ∉ app.pushEffects env output := by
  rw [App.pushEffects]
  split <;> simp

theorem drain_not_saved (app : App) (arrived : List Output) (path : String) :
    .saved path ∉ (run (receiveTrace env) app arrived).2 := by
  induction arrived generalizing app with
  | nil => exact List.not_mem_nil
  | cons output arrived ih =>
    rw [run_cons, List.mem_append, not_or]
    refine ⟨?_, ih _⟩
    unfold receiveTrace
    split
    · exact pushEffects_not_saved app output path
    · exact List.not_mem_nil

variable (senv env) in
theorem perform_saved {io : Io} {app : App} (command : Command) {path : String}
    (h : .saved path ∈ app.commandEffects senv io env command) :
    (app.orSelf (app.perform senv io env command)).recorder = some ⟨path, app.events⟩ := by
  cases command with
  | save argument =>
    rw [App.commandEffects, App.saveEffects] at h
    rw [App.perform]
    cases hresult : app.startRecording io argument with
    | ok result =>
      obtain ⟨saved, message⟩ := result
      rw [hresult] at h
      cases List.mem_singleton.mp h
      show saved.recorder = _
      rw [startRecording_ok hresult]
    | error message =>
      rw [hresult] at h
      dsimp only at h
      split at h <;> simp at h
  | «open» argument =>
    rw [App.commandEffects, App.openEffects] at h
    split at h <;> simp at h
  | empty => exact absurd h List.not_mem_nil
  | unknown name => exact absurd h List.not_mem_nil

theorem handleKey_saved {io : Io} {app : App} {logH : ℕ} {key : KeyEvent} {path : String}
    (h : .saved path ∈ app.keyEffects senv io env key) :
    (app.handleKey senv io env logH key).1.recorder = some ⟨path, app.events⟩ := by
  unfold App.keyEffects at h
  split at h
  · rename_i henter
    rw [handleKey_enter henter, executeCommand_recorder]
    exact perform_saved senv env _ h
  · exact absurd h List.not_mem_nil

/-- **A step with a successful `:save`** leaves a recorder with the retained events. -/
theorem recorder_of_saved {app : App} {input : Io × Event} {path : String}
    (h : .saved path ∈ (appStep fenv senv app input).2) :
    (appStep fenv senv app input).1.recorder = some ⟨path, app.events⟩ := by
  obtain ⟨io, event⟩ := input
  cases event with
  | turn arrived logH => exact absurd h (drain_not_saved app arrived path)
  | key logH key => exact handleKey_saved h
  | push output => exact absurd h (pushEffects_not_saved app output path)
  | save argument => exact perform_saved senv ⟨fenv, io.faults⟩ (.save argument) h
  | «open» argument => exact perform_saved senv ⟨fenv, io.faults⟩ (.open argument) h
  | _ => exact absurd h List.not_mem_nil

/-! ### The file -/

/-- **A recorder misses and repeats nothing.**  While no write fails and no `:save` or `:open` replaces
it, the recorder of a successful `:save` holds the events retained at that moment, then every source
record accepted afterwards; that of `--save` every source record accepted. -/
theorem recorder_exact (fenv : FilterEnv) (senv : SessionEnv) :
    (∀ (start : App) (before after : List (Io × Event)) (input : Io × Event) (path : String),
      let app := (run (appStep fenv senv) start before).1
      let saving := appStep fenv senv app input
      let rest := run (appStep fenv senv) saving.1 after
      .saved path ∈ saving.2 → (∀ effect ∈ rest.2, effect.KeepsRecorder) →
        rest.1.recorder = some ⟨path, app.events ++ accepted rest.2⟩) ∧
    ∀ (mode : String) (metrics : Metrics) (rich : Bool) (filter : DisplayFilter)
      (splashLines : List String) (path : String) (inputs : List (Io × Event)),
      let rest := run (appStep fenv senv)
        (App.started mode metrics rich filter splashLines (some (SessionWriter.create path))) inputs
      (∀ effect ∈ rest.2, effect.KeepsRecorder) → rest.1.recorder = some ⟨path, accepted rest.2⟩ := by
  constructor
  · intro start before after input path app saving rest hsaved hkeeps
    exact run_recorder (recorder_of_saved hsaved) after hkeeps
  · intro mode metrics rich filter splashLines path inputs rest hkeeps
    exact run_recorder rfl inputs hkeeps

/-- Nothing is read back below: libraries that refuse every text. -/
def writeOnlyEnv : SessionEnv where
  Json := Unit
  fromStr _ := .error "expected value at line 1 column 1"
  schemaVersionOf _ := none
  fromValue _ := .error "invalid type"
  parseRfc3339 _ := .error "premature end of input"
  parseAddr _ := .error "invalid socket address syntax"
  showAddr address := toString address.port.toNat
  debugStr text := "\"" ++ text ++ "\""

/-- No write fails. -/
def quietIo : Io := ⟨fun _ _ => none, none, none, .ok []⟩

/-- The history is cleared between the save and the next record. -/
theorem recorder_exact_cleared :
    (run (appStep ⟨fun _ => none, fun _ => none, fun _ _ => false⟩ writeOnlyEnv)
      (App.started "pcap" Metrics.new false {} [] none)
      [(quietIo, .push (.line "early")), (quietIo, .save "out.jsonl"), (quietIo, .clear),
        (quietIo, .push (.line "late"))]).1.recorder
      = some ⟨"out.jsonl", [.line "early", .line "late"]⟩ :=
  (recorder_exact _ writeOnlyEnv).1 (App.started "pcap" Metrics.new false {} [] none)
    [(quietIo, .push (.line "early"))] [(quietIo, .clear), (quietIo, .push (.line "late"))]
    (quietIo, .save "out.jsonl") "out.jsonl" (List.mem_singleton.mpr rfl)
    (fun effect h => by
      cases List.mem_singleton.mp h
      trivial)

end Tapgres.Tui
