import Tapgres.Session.Read
import Tapgres.Session.Writer
import Tapgres.State.Metrics

/-!
# The TUI's state

The state of the terminal application and what it does with the records that arrive on its channel.
The channel itself is not part of the state: a frame is given the records that have arrived.  Left out
are the rate peaks, which only scale the sparklines.

* `frame_handed` — what a frame hands to the recorder depends on the recorder alone;
* `frames_handed` — so do any frames, however the arriving records are cut into them.
-/

namespace Tapgres.Tui

open Tapgres.Decode Tapgres.Filter Tapgres.State Tapgres.Session Tapgres.Lib.Run

/-- `HISTORY_CAP`, on retained records. -/
def historyCap : ℕ := 50000

/-- `HISTORY_TRIM_CHUNK` -/
def historyTrimChunk : ℕ := 1024

structure App where
  /-- Complete retained history; filtering never removes entries from here. -/
  events : List Output
  /-- Indices into `events` that match the current display filter. -/
  visible : List ℕ
  scroll : ℕ
  follow : Bool
  wrap : Bool
  rich : Bool
  mode : String
  metrics : Metrics
  filter : DisplayFilter
  filterText : String
  filterError : Option String
  filterEditing : Bool
  commandEditing : Bool
  commandText : String
  /-- The notice of the command bar, and whether it is an error. -/
  commandNotice : Option (String × Bool)
  /-- False after `:open`: the source channel is drained but its records are not shown. -/
  acceptSourceRecords : Bool
  /-- How many events the bounded history has removed.  It is unbounded; the source's `usize` saturates. -/
  droppedEvents : ℕ
  splashLines : List String
  showSplash : Bool
  recorder : Option SessionWriter

def App.new (mode : String) (metrics : Metrics) (rich : Bool) (filter : DisplayFilter)
    (splashLines : List String) : App :=
  { events := [], visible := [], scroll := 0, follow := true, wrap := false, rich, mode, metrics
    filter, filterText := filter.expression, filterError := none, filterEditing := false
    commandEditing := false, commandText := "", commandNotice := none, acceptSourceRecords := true
    droppedEvents := 0, splashLines, showSplash := !splashLines.isEmpty, recorder := none }

/-- The environment of a running application: the filter's, and the file behind the recorder. -/
structure AppEnv where
  filter : FilterEnv
  faults : WriteFaults

variable (env : AppEnv)

def App.rebuildVisible (app : App) : App :=
  { app with
      visible := app.events.zipIdx.filterMap fun (output, index) =>
        if output.matchesFilter env.filter app.filter then some index else none
      scroll := 0 }

/-- Drop the oldest events. -/
def App.dropOldest (app : App) (dropN : ℕ) : App :=
  { app with events := app.events.drop dropN, droppedEvents := app.droppedEvents + dropN }

def App.trimHistory (app : App) : App :=
  if app.events.length ≤ historyCap then app
  else (app.dropOldest (app.events.length - historyCap)).rebuildVisible env

/-- The recording half of `push_output`. -/
def App.record (app : App) (output : Output) : App :=
  let (recorder, writeError) := recordOutput env.faults app.recorder output
  { app with
      recorder := recorder
      commandNotice :=
        match writeError with
        | some error => some ("recording stopped: " ++ error.display, true)
        | none => app.commandNotice }

/-- The history half of `push_output`. -/
def App.append (app : App) (output : Output) : App :=
  { app with
      visible :=
        if output.matchesFilter env.filter app.filter then app.visible ++ [app.events.length]
        else app.visible
      events := app.events ++ [output] }

def App.pushOutput (app : App) (output : Output) : App :=
  let app := (app.record env output).append env output
  if app.events.length ≥ historyCap + historyTrimChunk then app.trimHistory env else app

/-- What the loop over the channel does with one record. -/
def App.receive (app : App) (output : Output) : App :=
  if app.acceptSourceRecords then app.pushOutput env output else app

def App.leaveSplashIfTraffic (app : App) : App :=
  if app.showSplash && app.metrics.connsOpened > 0 then { app with showSplash := false } else app

/-- The start of a turn of `app_loop`: drain the channel, leave the splash, trim the history. -/
def App.frame (app : App) (arrived : List Output) : App :=
  ((arrived.foldl (App.receive env) app).leaveSplashIfTraffic).trimHistory env

/-! ### What reaches the recorder -/

/-- What receiving a record hands to the recorder. -/
def App.hands (app : App) (output : Output) : List Output :=
  if app.acceptSourceRecords && app.recorder.isSome then [output] else []

def receiveStep (app : App) (output : Output) : App × List Output :=
  (app.receive env output, app.hands output)

/-- A frame, with what it hands to the recorder. -/
def frameStep (app : App) (arrived : List Output) : App × List Output :=
  (app.frame env arrived, (run (receiveStep env) app arrived).2)

variable {env}

@[simp] theorem rebuildVisible_recorder (app : App) :
    (app.rebuildVisible env).recorder = app.recorder := rfl

@[simp] theorem rebuildVisible_acceptSourceRecords (app : App) :
    (app.rebuildVisible env).acceptSourceRecords = app.acceptSourceRecords := rfl

@[simp] theorem rebuildVisible_filter (app : App) : (app.rebuildVisible env).filter = app.filter := rfl

@[simp] theorem dropOldest_filter (app : App) (n : ℕ) : (app.dropOldest n).filter = app.filter := rfl

@[simp] theorem dropOldest_recorder (app : App) (n : ℕ) : (app.dropOldest n).recorder = app.recorder :=
  rfl

@[simp] theorem dropOldest_acceptSourceRecords (app : App) (n : ℕ) :
    (app.dropOldest n).acceptSourceRecords = app.acceptSourceRecords := rfl

variable (env) in
/-- Trimming leaves the recorder and the acceptance of source records alone. -/
theorem trimHistory_frame (app : App) :
    (app.trimHistory env).recorder = app.recorder ∧
      (app.trimHistory env).acceptSourceRecords = app.acceptSourceRecords := by
  by_cases h : app.events.length ≤ historyCap
  · rw [App.trimHistory, if_pos h]
    exact ⟨rfl, rfl⟩
  · rw [App.trimHistory, if_neg h]
    exact ⟨(rebuildVisible_recorder _).trans (dropOldest_recorder _ _),
      (rebuildVisible_acceptSourceRecords _).trans (dropOldest_acceptSourceRecords _ _)⟩

theorem leaveSplash_frame (app : App) :
    app.leaveSplashIfTraffic.recorder = app.recorder ∧
      app.leaveSplashIfTraffic.acceptSourceRecords = app.acceptSourceRecords := by
  unfold App.leaveSplashIfTraffic
  split <;> exact ⟨rfl, rfl⟩

variable (env) in
/-- Pushing a record moves the recorder one record on. -/
theorem pushOutput_frame (app : App) (output : Output) :
    (app.pushOutput env output).recorder = (recordOutput env.faults app.recorder output).1 ∧
      (app.pushOutput env output).acceptSourceRecords = app.acceptSourceRecords := by
  unfold App.pushOutput
  dsimp only
  split
  · exact trimHistory_frame env _
  · exact ⟨rfl, rfl⟩

variable (env) in
/-- While source records are accepted, the channel's records go to the recorder as they come. -/
theorem run_receiveStep (app : App) (haccept : app.acceptSourceRecords = true)
    (arrived : List Output) :
    (run (receiveStep env) app arrived).2 = handed env.faults app.recorder arrived ∧
      (arrived.foldl (App.receive env) app).recorder
        = (run (recordStep env.faults) app.recorder arrived).1 ∧
      (arrived.foldl (App.receive env) app).acceptSourceRecords = true := by
  induction arrived generalizing app with
  | nil => exact ⟨rfl, rfl, haccept⟩
  | cons output arrived ih =>
    obtain ⟨hrecorder, hkeep⟩ := pushOutput_frame env app output
    have hreceive : app.receive env output = app.pushOutput env output := by
      rw [App.receive, if_pos haccept]
    obtain ⟨hhanded, hrun, haccept'⟩ := ih (app.receive env output)
      (by rw [hreceive, hkeep, haccept])
    rw [hreceive, hrecorder] at hhanded hrun
    refine ⟨?_, ?_, haccept'⟩
    · show app.hands output ++ (run (receiveStep env) (app.receive env output) arrived).2 = _
      rw [hreceive, hhanded, App.hands, haccept, Bool.true_and]
      rfl
    · rw [List.foldl_cons, hreceive, hrun]
      rfl

variable (env) in
/-- What a frame hands to the recorder depends on the recorder alone. -/
theorem frame_handed (app : App) (haccept : app.acceptSourceRecords = true) (arrived : List Output) :
    (frameStep env app arrived).2 = handed env.faults app.recorder arrived ∧
      (app.frame env arrived).recorder = (run (recordStep env.faults) app.recorder arrived).1 ∧
      (app.frame env arrived).acceptSourceRecords = true := by
  obtain ⟨hhanded, hrecorder, hkeep⟩ := run_receiveStep env app haccept arrived
  obtain ⟨hsplash, hsplash'⟩ := leaveSplash_frame (arrived.foldl (App.receive env) app)
  obtain ⟨htrim, htrim'⟩ :=
    trimHistory_frame env (arrived.foldl (App.receive env) app).leaveSplashIfTraffic
  exact ⟨hhanded, htrim.trans (hsplash.trans hrecorder), htrim'.trans (hsplash'.trans hkeep)⟩

/-- **The recorder is handed the channel's records**, however they are cut into frames. -/
theorem frames_handed (app : App) (haccept : app.acceptSourceRecords = true)
    (frames : List (List Output)) :
    (run (frameStep env) app frames).2 = handed env.faults app.recorder frames.flatten := by
  induction frames generalizing app with
  | nil => rfl
  | cons arrived frames ih =>
    obtain ⟨hhanded, hrecorder, hkeep⟩ := frame_handed env app haccept arrived
    rw [run_cons, List.flatten_cons, handed, run_append, ← hrecorder]
    show (frameStep env app arrived).2 ++ (run (frameStep env) (app.frame env arrived) frames).2 = _
    rw [ih _ hkeep, hhanded]
    rfl

end Tapgres.Tui
