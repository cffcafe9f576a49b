import Tapgres.Filter.Lexer
import Tapgres.Tui.App

/-!
# What a user does to the TUI

Editing the display filter, the command bar with `:save` and `:open`, and the keys.  A command is given
what the file system answers, and a turn of the loop the records that have arrived.

* `handleKey` — one key, in the command bar, on the splash, in the filter editor or in the view;
* `startRecording_ok`, `openSession_ok`, `handleKey_step` — what a command and a key can do;
* `appStep` — the application as a machine that is fed turns, keys and single operations;
* `Effect` — what a step does to the files: records accepted, writes that failed, recorders replaced.
-/

namespace Tapgres.Tui

open Tapgres.Decode Tapgres.Filter Tapgres.State Tapgres.Session Tapgres.Lib Tapgres.Lib.Run

/-! ### The display filter -/

section Filter

variable (env : AppEnv)

def App.updateFilter (app : App) : App :=
  if trim app.filterText.toList = [] then
    { app with filter := {}, filterError := none }.rebuildVisible env
  else
    match DisplayFilter.parse env.filter app.filterText with
    | .ok filter => { app with filter, filterError := none }.rebuildVisible env
    | .error (.error error) => { app with filterError := some error.display }
    | .error _ => app  -- never: parsing answers

def App.clearFilter (app : App) : App :=
  { app with filterText := "", filter := {}, filterError := none }.rebuildVisible env

/-- An edit installs a filter, or leaves the last valid one and reports why. -/
theorem updateFilter_cases (app : App) :
    (∃ filter, app.updateFilter env
        = { app with filter := filter, filterError := none }.rebuildVisible env) ∨
      ∃ error, app.updateFilter env = { app with filterError := some error } := by
  unfold App.updateFilter
  split
  · exact .inl ⟨{}, rfl⟩
  · rcases displayFilter_parse_answers env.filter app.filterText with ⟨filter, hparse⟩ | ⟨error, hparse⟩
    · rw [hparse]
      exact .inl ⟨filter, rfl⟩
    · rw [hparse]
      exact .inr ⟨error.display, rfl⟩

end Filter

/-! ### Commands -/

/-- What the file system answers while a step runs. -/
structure Io where
  faults : WriteFaults
  /-- What creating a session file fails with, if it does. -/
  createError : Option SessionError
  flushError : Option SessionError
  /-- What is found under the path of an `:open`. -/
  file : SessionFile

/-- Fail with the text of an error, if there is one. -/
def check (error : Option SessionError) : Except String Unit :=
  match error with
  | none => .ok ()
  | some error => .error error.display

/-- What `:save` reports about the events it has not written. -/
def App.omission (app : App) : String :=
  if app.droppedEvents = 0 then ""
  else "; " ++ toString app.droppedEvents ++ " earlier events were outside history"

section Commands

variable (senv : SessionEnv) (io : Io)

def App.startRecording (app : App) (argument : String) : Except String (App × String) := do
  if argument = "" then .error "usage: :save FILE"
  check io.createError
  let recorder ← (app.events.foldlM (SessionWriter.write io.faults) (SessionWriter.create argument)).mapError
    SessionError.display
  check io.flushError
  let retained := toString app.events.length
  let action :=
    if app.acceptSourceRecords then "recording " ++ retained ++ " retained events + future traffic"
    else "saved " ++ retained ++ " retained replay events"
  pure ({ app with recorder := some recorder }, action ++ " to " ++ argument ++ app.omission)

/-- The App once a session has been read. -/
def App.showSession (env : AppEnv) (app : App) (outputs : List Output) (dropped : ℕ) : App :=
  { { app with recorder := none, events := outputs, visible := [] }.rebuildVisible env with
      follow := true
      mode := "replay"
      metrics := Metrics.new
      showSplash := false
      acceptSourceRecords := false
      droppedEvents := dropped }

def App.openSession (env : AppEnv) (app : App) (argument : String) : Except String (App × String) := do
  if argument = "" then .error "usage: :open FILE"
  let (outputs, dropped) ← (readTail senv argument io.file historyCap).mapError SessionError.display
  if app.recorder.isSome then check io.flushError
  let count := toString outputs.length
  pure (app.showSession env outputs dropped,
    if dropped = 0 then "opened " ++ count ++ " events from " ++ argument
    else "opened newest " ++ count ++ " events from " ++ argument ++ "; " ++ toString dropped
      ++ " earlier events are outside history")

/-- The name and the argument of a command. -/
def splitCommand (text : String) : String × String :=
  let input := trim ((trim text.toList).dropWhile fun c => c == ':' || c == '/')
  let name := input.takeWhile fun c => !Utf8.isWhitespace c
  (String.ofList name, String.ofList (trim (input.drop (name.length + 1))))

/-- What a command line asks for. -/
inductive Command where
  | save (argument : String)
  | open (argument : String)
  | empty
  | unknown (name : String)
  deriving DecidableEq, Repr

def Command.parse (text : String) : Command :=
  match splitCommand text with
  | ("w", argument) | ("write", argument) | ("save", argument) => .save argument
  | ("o", argument) | ("open", argument) => .open argument
  | ("", _) => .empty
  | (name, _) => .unknown name

def App.perform (env : AppEnv) (app : App) : Command → Except String (App × String)
  | .save argument => app.startRecording io argument
  | .open argument => app.openSession senv io env argument
  | .empty => .error "command is empty"
  | .unknown name => .error ("unknown command: " ++ name)

def App.executeCommand (env : AppEnv) (app : App) : App :=
  match app.perform senv io env (Command.parse app.commandText) with
  | .ok (app, message) => { app with commandNotice := some (message, false), commandEditing := false }
  | .error message => { app with commandNotice := some (message, true), commandEditing := false }

end Commands

theorem mapError_eq_ok {ε ε' α : Type} {f : ε → ε'} {x : Except ε α} {a : α} :
    x.mapError f = .ok a ↔ x = .ok a := by
  cases x <;> simp [Except.mapError]

/-- A `:save` that succeeds has written the retained events, and changes the recorder alone. -/
theorem startRecording_ok {io : Io} {app saved : App} {argument message : String}
    (h : app.startRecording io argument = .ok (saved, message)) :
    saved = { app with recorder := some ⟨argument, app.events⟩ } := by
  simp only [App.startRecording] at h
  split at h
  · cases h
  · simp only [bind_eq_ok, mapError_eq_ok] at h
    obtain ⟨_, _, recorder, hwritten, _, _, hsaved⟩ := h
    cases hsaved
    rw [foldlM_write hwritten]
    rfl

/-- An `:open` that succeeds has read the file, and shows its newest records. -/
theorem openSession_ok {senv : SessionEnv} {io : Io} {env : AppEnv} {app opened : App}
    {argument message : String} (h : app.openSession senv io env argument = .ok (opened, message)) :
    ∃ outputs dropped, readTail senv argument io.file historyCap = .ok (outputs, dropped) ∧
      opened = app.showSession env outputs dropped := by
  simp only [App.openSession] at h
  split at h
  · cases h
  · simp only [bind_eq_ok, mapError_eq_ok] at h
    obtain ⟨⟨outputs, dropped⟩, hread, h⟩ := h
    refine ⟨outputs, dropped, hread, ?_⟩
    split at h
    · obtain ⟨_, _, hopened⟩ := bind_eq_ok.mp h
      cases hopened
      rfl
    · cases h
      rfl

/-- The App behind a command: as it was, with a recorder on the retained events, or with the session. -/
theorem perform_ok {senv : SessionEnv} {io : Io} {env : AppEnv} {app after : App} {command : Command}
    {message : String} (h : app.perform senv io env command = .ok (after, message)) :
    (∃ argument, command = .save argument ∧
        after = { app with recorder := some ⟨argument, app.events⟩ }) ∨
      ∃ argument outputs dropped, command = .open argument ∧
        after = app.showSession env outputs dropped := by
  cases command with
  | save argument => exact .inl ⟨argument, rfl, startRecording_ok h⟩
  | «open» argument =>
    obtain ⟨outputs, dropped, _, hafter⟩ := openSession_ok h
    exact .inr ⟨argument, outputs, dropped, rfl, hafter⟩
  | empty => cases h
  | unknown name => cases h

/-! ### Keys -/

inductive KeyCode where
  | char (ch : Char)
  | esc
  | enter
  | backspace
  | up
  | down
  | pageUp
  | pageDown
  | home
  | end
  | other
  deriving DecidableEq, Repr

structure KeyEvent where
  code : KeyCode
  /-- With the control key held. -/
  ctrl : Bool
  deriving DecidableEq, Repr

/-- `String::pop` -/
def pop (text : String) : String := String.ofList text.toList.dropLast

def App.startCommand (app : App) : App :=
  { app with commandEditing := true, commandText := "", commandNotice := none }

/-- The key `c`. -/
def App.clear (app : App) : App := { app with events := [], visible := [] }

section Keys

variable (senv : SessionEnv) (io : Io) (env : AppEnv)

/-- A key in the command bar. -/
def App.commandKey (app : App) (key : KeyEvent) : App :=
  match key.code with
  | .esc => { app with commandEditing := false, commandText := "" }
  | .enter => app.executeCommand senv io env
  | .backspace => { app with commandText := pop app.commandText }
  | .char ch => if key.ctrl then app else { app with commandText := app.commandText.push ch }
  | _ => app

/-- A key on the splash; the second component quits. -/
def App.splashKey (app : App) (key : KeyEvent) : App × Bool :=
  match key.code with
  | .char 'q' => (app, true)
  | .char '/' | .char ':' => (app.startCommand, false)
  | _ => (app, false)

/-- A key in the filter editor. -/
def App.filterKey (app : App) (key : KeyEvent) : App :=
  match key.code with
  | .esc => { app.clearFilter env with filterEditing := false }
  | .enter => if app.filterError = none then { app with filterEditing := false } else app
  | .backspace => { app with filterText := pop app.filterText }.updateFilter env
  | .char ch =>
    if key.ctrl then app else { app with filterText := app.filterText.push ch }.updateFilter env
  | _ => app

/-- A key in the view. -/
def App.viewKey (app : App) (logH : ℕ) (key : KeyEvent) : App × Bool :=
  match key.code with
  | .char 'q' => (app, true)
  | .char 'j' | .down => ({ app with follow := false, scroll := app.scroll + 1 }, false)
  | .char 'k' | .up => ({ app with follow := false, scroll := app.scroll - 1 }, false)
  | .pageDown => ({ app with follow := false, scroll := app.scroll + logH }, false)
  | .pageUp => ({ app with follow := false, scroll := app.scroll - logH }, false)
  | .char 'G' | .end => ({ app with follow := true }, false)
  | .char 'g' | .home => ({ app with follow := false, scroll := 0 }, false)
  | .char 'f' => ({ app with follow := !app.follow }, false)
  | .char 'w' => ({ app with wrap := !app.wrap }, false)
  | .char 'r' => ({ app with rich := !app.rich }, false)
  | .char 'c' => (app.clear, false)
  | .char 'y' => ({ app with filterEditing := true }, false)
  | .char '/' | .char ':' => (app.startCommand, false)
  | .esc => (if app.filter.isEmpty then app else app.clearFilter env, false)
  | _ => (app, false)

/-- One key; the second component quits. -/
def App.handleKey (app : App) (logH : ℕ) (key : KeyEvent) : App × Bool :=
  if key.code = .char 'c' ∧ key.ctrl = true then (app, true)
  else if app.commandEditing then (app.commandKey senv io env key, false)
  else if app.showSplash then app.splashKey key
  else if app.filterEditing then (app.filterKey env key, false)
  else app.viewKey env logH key

/-- The same history, filter, visible list and recorder. -/
structure SameHistory (app after : App) : Prop where
  events : after.events = app.events
  visible : after.visible = app.visible
  filter : after.filter = app.filter
  recorder : after.recorder = app.recorder

/-- What a key can do that enters no command. -/
inductive KeyResult (app : App) : App → Prop where
  /-- It moves the view, or edits a text. -/
  | view {after : App} (h : SameHistory app after) : KeyResult app after
  | clear : KeyResult app app.clear
  | edit (text : String) : KeyResult app ({ app with filterText := text }.updateFilter env)
  | clearFilter {after : App} (h : SameHistory (app.clearFilter env) after) : KeyResult app after

/-- The same in full: which fields are written, and from which mode. -/
inductive KeyStep (app : App) (key : KeyEvent) : App → Prop where
  /-- It moves the view, or edits the command line. -/
  | moves (follow wrap rich : Bool) (scroll : ℕ) (commandEditing : Bool) (commandText : String)
      (commandNotice : Option (String × Bool)) :
      KeyStep app key
        { app with follow, wrap, rich, scroll, commandEditing, commandText, commandNotice }
  | clears (hkey : key = ⟨.char 'c', false⟩) (hcommand : app.commandEditing = false)
      (hsplash : app.showSplash = false) (hfilter : app.filterEditing = false) : KeyStep app key app.clear
  | entersEditor (h : app.filterEditing = false) : KeyStep app key { app with filterEditing := true }
  | leavesEditor (h : app.filterError = none) : KeyStep app key { app with filterEditing := false }
  | edits (h : app.filterEditing = true) (text : String) :
      KeyStep app key ({ app with filterText := text }.updateFilter env)
  | clearsFilter (filterEditing : Bool) :
      KeyStep app key { app.clearFilter env with filterEditing }

variable {senv io env}

theorem SameHistory.rfl {app : App} : SameHistory app app := ⟨.refl _, .refl _, .refl _, .refl _⟩

/-- A key that does nothing. -/
theorem KeyStep.same {app : App} {key : KeyEvent} : KeyStep env app key app := .moves _ _ _ _ _ _ _

theorem commandKey_step {app : App} {key : KeyEvent} (h : key.code ≠ .enter) :
    KeyStep env app key (app.commandKey senv io env key) := by
  unfold App.commandKey
  split
  case h_2 henter => exact absurd henter h
  case h_4 => split <;> exact .moves _ _ _ _ _ _ _
  all_goals exact .moves _ _ _ _ _ _ _

theorem splashKey_step (app : App) (key : KeyEvent) : KeyStep env app key (app.splashKey key).1 := by
  unfold App.splashKey
  split
  all_goals exact .moves _ _ _ _ _ _ _

theorem filterKey_step {app : App} (hediting : app.filterEditing = true) (key : KeyEvent) :
    KeyStep env app key (app.filterKey env key) := by
  unfold App.filterKey
  split
  case h_1 => exact .clearsFilter false
  case h_2 =>
    split
    · rename_i hnone
      exact .leavesEditor hnone
    · exact .same
  case h_3 => exact .edits hediting _
  case h_4 =>
    split
    · exact .same
    · exact .edits hediting _
  all_goals exact .same

theorem viewKey_step {app : App} {key : KeyEvent} (hquit : ¬(key.code = .char 'c' ∧ key.ctrl = true))
    (hcommand : app.commandEditing = false) (hsplash : app.showSplash = false)
    (hediting : app.filterEditing = false) (logH : ℕ) : KeyStep env app key (app.viewKey env logH key).1 := by
  have hesc : KeyStep env app key (if app.filter.isEmpty then app else app.clearFilter env) := by
    split
    · exact .same
    · exact .clearsFilter app.filterEditing
  have hclear : key.code = .char 'c' → KeyStep env app key app.clear := by
    intro hcode
    obtain ⟨code, ctrl⟩ := key
    obtain rfl : code = .char 'c' := hcode
    cases ctrl with
    | true => exact absurd ⟨rfl, rfl⟩ hquit
    | false => exact .clears rfl hcommand hsplash hediting
  unfold App.viewKey
  split
  all_goals first
    | exact hesc
    | exact hclear ‹_›
    | exact .entersEditor hediting
    | exact .moves _ _ _ _ _ _ _

/-- **What a key does** that enters no command, in full. -/
theorem handleKey_step {app : App} {logH : ℕ} {key : KeyEvent}
    (h : ¬(app.commandEditing = true ∧ key.code = .enter)) :
    KeyStep env app key (app.handleKey senv io env logH key).1 := by
  unfold App.handleKey
  split
  · exact .same
  rename_i hquit
  split
  · rename_i hcommand
    exact commandKey_step fun henter => h ⟨hcommand, henter⟩
  rename_i hcommand
  split
  · exact splashKey_step app key
  rename_i hsplash
  split
  · rename_i hediting
    exact filterKey_step hediting key
  · rename_i hediting
    simp only [Bool.not_eq_true] at hcommand hsplash hediting
    exact viewKey_step hquit hcommand hsplash hediting logH

theorem KeyStep.result {app after : App} {key : KeyEvent} (h : KeyStep env app key after) :
    KeyResult env app after := by
  cases h with
  | moves => exact .view ⟨rfl, rfl, rfl, rfl⟩
  | clears => exact .clear
  | entersEditor => exact .view ⟨rfl, rfl, rfl, rfl⟩
  | leavesEditor => exact .view ⟨rfl, rfl, rfl, rfl⟩
  | edits _ text => exact .edit text
  | clearsFilter => exact .clearFilter ⟨rfl, rfl, rfl, rfl⟩

/-- So for what the filter shows. -/
theorem handleKey_result {app : App} {logH : ℕ} {key : KeyEvent}
    (h : ¬(app.commandEditing = true ∧ key.code = .enter)) :
    KeyResult env app (app.handleKey senv io env logH key).1 :=
  (handleKey_step h).result

theorem handleKey_enter {app : App} {logH : ℕ} {key : KeyEvent}
    (h : app.commandEditing = true ∧ key.code = .enter) :
    (app.handleKey senv io env logH key).1 = app.executeCommand senv io env := by
  obtain ⟨hediting, hcode⟩ := h
  rw [App.handleKey, hcode, if_neg (by simp), if_pos hediting, App.commandKey, hcode]

end Keys

/-! ### The application as a machine -/

/-- The scroll position a turn of the loop draws; a window of `logH` rows. -/
def App.clampScroll (app : App) (logH : ℕ) : App :=
  let maxScroll :=
    if app.wrap || app.rich then app.visible.length - 1 else app.visible.length - logH
  { app with scroll := min (if app.follow then maxScroll else app.scroll) maxScroll }

/-- A turn of `app_loop` up to the drawing. -/
def App.turn (env : AppEnv) (app : App) (arrived : List Output) (logH : ℕ) : App :=
  (app.frame env arrived).clampScroll logH

/-- What happens to an application: turns of its loop and keys, or single operations of theirs. -/
inductive Event where
  | turn (arrived : List Output) (logH : ℕ)
  | key (logH : ℕ) (key : KeyEvent)
  | push (output : Output)
  | trim
  /-- The filter's text is edited. -/
  | edit (text : String)
  | clearFilter
  | clear
  | save (argument : String)
  | open (argument : String)
  /-- The source has changed the counters. -/
  | metrics (metrics : Metrics)

/-- What a step does to the files. -/
inductive Effect where
  /-- A source record is accepted. -/
  | accepted (output : Output)
  | writeFailed
  /-- A `:save` has succeeded, and its recorder replaces any other. -/
  | saved (path : String)
  /-- An `:open` has succeeded, and takes the recorder away. -/
  | opened
  deriving DecidableEq, Repr

section Machine

variable (fenv : FilterEnv) (senv : SessionEnv)

def App.pushEffects (env : AppEnv) (app : App) (output : Output) : List Effect :=
  .accepted output
    :: if (recordOutput env.faults app.recorder output).2.isSome then [.writeFailed] else []

/-- One record from the channel, with its effects. -/
def receiveTrace (env : AppEnv) (app : App) (output : Output) : App × List Effect :=
  (app.receive env output, if app.acceptSourceRecords then app.pushEffects env output else [])

/-- A `:save` that gets as far as writing and fails leaves a file behind. -/
def App.saveEffects (io : Io) (app : App) (argument : String) : List Effect :=
  match app.startRecording io argument with
  | .ok _ => [.saved argument]
  | .error _ => if argument = "" ∨ io.createError.isSome then [] else [.writeFailed]

def App.openEffects (io : Io) (env : AppEnv) (app : App) (argument : String) : List Effect :=
  match app.openSession senv io env argument with
  | .ok _ => [.opened]
  | .error _ => []

def App.commandEffects (io : Io) (env : AppEnv) (app : App) : Command → List Effect
  | .save argument => app.saveEffects io argument
  | .open argument => app.openEffects senv io env argument
  | _ => []

theorem opened_of_perform {senv : SessionEnv} {io : Io} {env : AppEnv} {app : App} {command : Command}
    {argument : String} (hcommand : command = .open argument) {result : App × String}
    (hresult : app.perform senv io env command = .ok result) :
    .opened ∈ app.commandEffects senv io env command := by
  subst hcommand
  have hopened : app.openSession senv io env argument = .ok result := hresult
  rw [App.commandEffects, App.openEffects, hopened]
  exact List.mem_singleton.mpr rfl

/-- Only a command that is entered has effects. -/
def App.keyEffects (io : Io) (env : AppEnv) (app : App) (key : KeyEvent) : List Effect :=
  if app.commandEditing ∧ key.code = .enter then
    app.commandEffects senv io env (Command.parse app.commandText)
  else []

/-- The App of a command's result, or the old one. -/
def App.orSelf (app : App) (result : Except String (App × String)) : App :=
  match result with
  | .ok (app, _) => app
  | .error _ => app

def appStep (app : App) : Io × Event → App × List Effect
  | (io, event) =>
    let env : AppEnv := ⟨fenv, io.faults⟩
    match event with
    | .turn arrived logH => (app.turn env arrived logH, (run (receiveTrace env) app arrived).2)
    | .key logH key => ((app.handleKey senv io env logH key).1, app.keyEffects senv io env key)
    | .push output => (app.pushOutput env output, app.pushEffects env output)
    | .trim => (app.trimHistory env, [])
    | .edit text => ({ app with filterText := text }.updateFilter env, [])
    | .clearFilter => (app.clearFilter env, [])
    | .clear => (app.clear, [])
    | .save argument => (app.orSelf (app.startRecording io argument), app.saveEffects io argument)
    | .open argument =>
      (app.orSelf (app.openSession senv io env argument), app.openEffects senv io env argument)
    | .metrics metrics => ({ app with metrics }, [])

end Machine

/-- The App `run` starts its loop with. -/
def App.started (mode : String) (metrics : Metrics) (rich : Bool) (filter : DisplayFilter)
    (splashLines : List String) (recorder : Option SessionWriter) : App :=
  { App.new mode metrics rich filter splashLines with recorder }

end Tapgres.Tui
