import Tapgres.Tui.History
import Tapgres.Tui.Reopen

/-!
# Live and replayed timelines

An `:open` reads the whole file before it touches anything: one that fails changes nothing but the
notice.  One that succeeds replaces the history, takes the recorder away, and from then on no source
record is accepted, so that what is retained and what is recorded comes from the file.

* `openSession_iff` — when an `:open` succeeds;
* `failed_open_unchanged` — what one leaves alone that does not;
* `Replaying` — the history and the recorder hold the newest records of the opened file, or nothing; kept
  by each step but another `:open`;
* `timelines_never_mix` — the three together, over runs.
-/

namespace Tapgres.Tui

open Tapgres.Decode Tapgres.Filter Tapgres.State Tapgres.Session Tapgres.Replay Tapgres.Lib
  Tapgres.Lib.Run

/-- The argument of the `:open` a step runs, if it runs one. -/
def App.opening (app : App) : Event → Option String
  | .open argument => some argument
  | .key _ key =>
    if app.commandEditing ∧ key.code = .enter then
      match Command.parse app.commandText with
      | .open argument => some argument
      | _ => none
    else none
  | _ => none

/-- The records of a session that the history has room for. -/
def newest (outputs : List Output) : List Output := outputs.drop (outputs.length - historyCap)

theorem newest_length_le (outputs : List Output) : (newest outputs).length ≤ historyCap := by
  rw [newest, List.length_drop]
  omega

variable {fenv : FilterEnv} {senv : SessionEnv} {io : Io} {env : AppEnv} {app : App}

/-! ### The `:open` itself -/

/-- The bounded reader fails where reading the file does. -/
theorem readAll_of_readTail {path : String} {file : SessionFile} {cap : ℕ}
    {result : List Output × ℕ} (h : readTail senv path file cap = .ok result) :
    ∃ outputs, readAll senv path file = .ok outputs := by
  rw [readTail, readWith_eq] at h
  cases hrecords : fileRecords senv path file with
  | mk outputs ending =>
    rw [hrecords] at h
    cases ending with
    | ok _ => exact ⟨outputs, readAll_eq_ok.mpr hrecords⟩
    | error error => cases h

theorem check_iff {error : Option SessionError} : check error = .ok () ↔ error = none := by
  cases error with
  | none => exact ⟨fun _ => rfl, fun _ => rfl⟩
  | some error => exact ⟨nofun, nofun⟩

variable (senv io env app) in
/-- **When an `:open` succeeds**: it names a file, all of the file reads, and the recorder, if there is
one, can be flushed. -/
theorem openSession_iff (argument : String) :
    (∃ result, app.openSession senv io env argument = .ok result) ↔
      argument ≠ "" ∧ (∃ outputs, readAll senv argument io.file = .ok outputs) ∧
        (app.recorder.isSome = true → io.flushError = none) := by
  constructor
  · intro hopens
    obtain ⟨result, h⟩ := hopens
    simp only [App.openSession] at h
    split at h
    · cases h
    rename_i hargument
    simp only [bind_eq_ok, mapError_eq_ok] at h
    obtain ⟨_, hread, h⟩ := h
    refine ⟨hargument, readAll_of_readTail hread, ?_⟩
    intro hrecorder
    rw [if_pos hrecorder] at h
    obtain ⟨_, hflush, _⟩ := bind_eq_ok.mp h
    exact check_iff.mp hflush
  · intro hargs
    obtain ⟨hargument, ⟨outputs, hread⟩, hflush⟩ := hargs
    unfold App.openSession
    rw [if_neg hargument, readTail_eq hread]
    by_cases hrecorder : app.recorder.isSome = true
    · simp only [if_pos hrecorder, hflush hrecorder]
      exact ⟨_, rfl⟩
    · simp only [if_neg hrecorder]
      exact ⟨_, rfl⟩

/-! ### An `:open` that fails -/

/-- Nothing that the view, the recorder or the channel depend on has changed. -/
structure Unchanged (app after : App) : Prop where
  events : after.events = app.events
  visible : after.visible = app.visible
  scroll : after.scroll = app.scroll
  filter : after.filter = app.filter
  mode : after.mode = app.mode
  metrics : after.metrics = app.metrics
  recorder : after.recorder = app.recorder
  droppedEvents : after.droppedEvents = app.droppedEvents
  acceptSourceRecords : after.acceptSourceRecords = app.acceptSourceRecords

/-- The step runs an `:open`, which succeeds where its effects say so. -/
theorem opening_cases {event : Event} {argument : String} (hopening : app.opening event = some argument) :
    (appStep fenv senv app (io, event)).2 = app.openEffects senv io ⟨fenv, io.faults⟩ argument ∧
      ((appStep fenv senv app (io, event)).1
          = app.orSelf (app.openSession senv io ⟨fenv, io.faults⟩ argument) ∨
        ∃ notice, (appStep fenv senv app (io, event)).1
          = { app.orSelf (app.openSession senv io ⟨fenv, io.faults⟩ argument) with
              commandNotice := some notice, commandEditing := false }) := by
  cases event with
  | «open» argument' =>
    obtain rfl := Option.some.inj hopening
    exact ⟨rfl, .inl rfl⟩
  | key logH key =>
    unfold App.opening at hopening
    dsimp only at hopening
    split at hopening
    · rename_i henter
      split at hopening
      · rename_i argument' hcommand
        obtain rfl := Option.some.inj hopening
        have heffects : app.keyEffects senv io ⟨fenv, io.faults⟩ key
            = app.openEffects senv io ⟨fenv, io.faults⟩ argument' := by
          rw [App.keyEffects, if_pos henter, hcommand]
          rfl
        refine ⟨heffects, .inr ?_⟩
        show ∃ notice, (app.handleKey senv io ⟨fenv, io.faults⟩ logH key).1 = _
        rw [handleKey_enter henter, App.executeCommand, hcommand, App.perform]
        cases app.openSession senv io ⟨fenv, io.faults⟩ argument' <;> exact ⟨_, rfl⟩
      · cases hopening
    · cases hopening
  | _ => cases hopening

theorem opened_iff {event : Event} {argument : String} (hopening : app.opening event = some argument) :
    .opened ∈ (appStep fenv senv app (io, event)).2 ↔
      ∃ result, app.openSession senv io ⟨fenv, io.faults⟩ argument = .ok result := by
  rw [(opening_cases hopening).1, App.openEffects]
  cases hresult : app.openSession senv io ⟨fenv, io.faults⟩ argument with
  | ok result => exact ⟨fun _ => ⟨result, rfl⟩, fun _ => List.mem_singleton.mpr rfl⟩
  | error message =>
    constructor
    · intro h
      exact absurd h List.not_mem_nil
    · intro hopens
      obtain ⟨_, h⟩ := hopens
      cases h

/-- **An `:open` that fails changes nothing** but the notice. -/
theorem failed_open_unchanged {event : Event} {argument : String}
    (hopening : app.opening event = some argument)
    (hfailed : .opened ∉ (appStep fenv senv app (io, event)).2) :
    Unchanged app (appStep fenv senv app (io, event)).1 := by
  have hself : app.orSelf (app.openSession senv io ⟨fenv, io.faults⟩ argument) = app := by
    rw [opened_iff hopening] at hfailed
    cases hresult : app.openSession senv io ⟨fenv, io.faults⟩ argument with
    | ok result => exact absurd ⟨result, hresult⟩ hfailed
    | error message => rfl
  rcases (@opening_cases fenv senv io app event argument hopening).2 with hafter | ⟨notice, hafter⟩
  · rw [hafter, hself]
    exact ⟨rfl, rfl, rfl, rfl, rfl, rfl, rfl, rfl, rfl⟩
  · rw [hafter, hself]
    exact ⟨rfl, rfl, rfl, rfl, rfl, rfl, rfl, rfl, rfl⟩

/-! ### After an `:open` -/

/-- No source record is accepted; the history is cleared or has these records, and so has the file that
is being recorded. -/
structure Replaying (records : List Output) (app : App) : Prop where
  refuses : app.acceptSourceRecords = false
  events : app.events = [] ∨ app.events = records
  recorded : ∀ writer, app.recorder = some writer → writer.written = [] ∨ writer.written = records

section Replaying

variable {records : List Output} {after : App}

/-- The same history and the same recorder. -/
theorem Replaying.same (h : Replaying records app) (hsame : SameRecords app after)
    (hrecorder : after.recorder = app.recorder) : Replaying records after where
  refuses := hsame.acceptSourceRecords.trans h.refuses
  events := by
    rw [hsame.events]
    exact h.events
  recorded := by
    rw [hrecorder]
    exact h.recorded

theorem Replaying.clear (h : Replaying records app) : Replaying records app.clear :=
  ⟨h.refuses, .inl rfl, h.recorded⟩

/-- A file that is saved from now on has what is retained. -/
theorem Replaying.save (h : Replaying records app) (argument : String) :
    Replaying records { app with recorder := some ⟨argument, app.events⟩ } := by
  refine ⟨h.refuses, h.events, ?_⟩
  intro writer hwriter
  obtain rfl := Option.some.inj hwriter
  exact h.events

theorem Replaying.trimHistory (h : Replaying records app) (hcap : records.length ≤ historyCap) :
    app.trimHistory env = app := by
  have hle : app.events.length ≤ historyCap := by
    rcases h.events with hempty | hrecords
    · rw [hempty]
      exact Nat.zero_le _
    · rw [hrecords]
      exact hcap
  rw [App.trimHistory, if_pos hle]

/-- What is still queued, or arrives, is drained and not accepted. -/
theorem Replaying.drain (h : Replaying records app) (arrived : List Output) :
    arrived.foldl (App.receive env) app = app ∧ (run (receiveTrace env) app arrived).2 = [] := by
  induction arrived with
  | nil => exact ⟨rfl, rfl⟩
  | cons output arrived ih =>
    have hrefuses : ¬app.acceptSourceRecords = true := by
      rw [h.refuses]
      exact Bool.false_ne_true
    have hreceive : app.receive env output = app := by
      rw [App.receive, if_neg hrefuses]
    have htrace : (receiveTrace env app output).2 = [] := by
      rw [receiveTrace, if_neg hrefuses]
    refine ⟨?_, ?_⟩
    · rw [List.foldl_cons, hreceive]
      exact ih.1
    · rw [run_cons, htrace]
      show (run (receiveTrace env) (app.receive env output) arrived).2 = []
      rw [hreceive]
      exact ih.2

theorem Replaying.turn (h : Replaying records app) (hcap : records.length ≤ historyCap)
    (arrived : List Output) (logH : ℕ) : Replaying records (app.turn env arrived logH) := by
  have hsplash : Replaying records app.leaveSplashIfTraffic :=
    h.same (leaveSplash_records app) (leaveSplash_frame app).1
  have hframe : app.frame env arrived = app.leaveSplashIfTraffic := by
    rw [App.frame, (h.drain arrived).1, hsplash.trimHistory hcap]
  have hturn : Replaying records (app.frame env arrived) := by
    rw [hframe]
    exact hsplash
  exact hturn.same (clampScroll_records _ logH) rfl

/-- The key `c` in the view. -/
theorem handleKey_clears {logH : ℕ} {key : KeyEvent} (hclears : app.clears (.key logH key)) :
    (app.handleKey senv io env logH key).1 = app.clear := by
  obtain ⟨rfl, hcommand, hsplash, hfilter⟩ := hclears
  simp [App.handleKey, App.viewKey, hcommand, hsplash, hfilter]

variable (senv io env) in
theorem Replaying.perform (h : Replaying records app) (command : Command)
    (hopened : .opened ∉ app.commandEffects senv io env command) :
    Replaying records (app.orSelf (app.perform senv io env command)) := by
  cases hresult : app.perform senv io env command with
  | error message => exact h
  | ok result =>
    rcases perform_ok hresult with ⟨argument, _, hafter⟩ | ⟨argument, outputs, dropped, hcommand, _⟩
    · show Replaying records result.1
      rw [hafter]
      exact h.save argument
    · exact absurd (opened_of_perform hcommand hresult) hopened

theorem Replaying.key (h : Replaying records app) (logH : ℕ) {key : KeyEvent}
    (hopened : .opened ∉ app.keyEffects senv io env key) :
    Replaying records (app.handleKey senv io env logH key).1 := by
  by_cases henter : app.commandEditing = true ∧ key.code = .enter
  · rw [App.keyEffects, if_pos henter] at hopened
    rw [handleKey_enter henter]
    exact (h.perform senv io env _ hopened).same (executeCommand_records app) (executeCommand_recorder app)
  · by_cases hclears : app.clears (.key logH key)
    · rw [handleKey_clears hclears]
      exact h.clear
    · exact h.same ((handleKey_step henter).records hclears) (handleKey_result henter).recorder

/-- Source records come in turns, and the step opens no session. -/
def KeepsTimeline (fenv : FilterEnv) (senv : SessionEnv) (app : App) (input : Io × Event) : Prop :=
  (∀ output, input.2 ≠ .push output) ∧ .opened ∉ (appStep fenv senv app input).2

/-- **Every step but an `:open` stays with the records of the file**, and accepts no other. -/
theorem Replaying.step (h : Replaying records app) (hcap : records.length ≤ historyCap)
    {input : Io × Event} (hkeeps : KeepsTimeline fenv senv app input) :
    Replaying records (appStep fenv senv app input).1 ∧
      accepted (appStep fenv senv app input).2 = [] := by
  obtain ⟨io, event⟩ := input
  obtain ⟨hpush, hopened⟩ := hkeeps
  have hcommand : ∀ command, .opened ∉ app.commandEffects senv io ⟨fenv, io.faults⟩ command →
      Replaying records (app.orSelf (app.perform senv io ⟨fenv, io.faults⟩ command)) ∧
        accepted (app.commandEffects senv io ⟨fenv, io.faults⟩ command) = [] :=
    fun command hopened => ⟨h.perform senv io _ command hopened, accepted_commandEffects senv io _ app _⟩
  cases event with
  | turn arrived logH =>
    refine ⟨h.turn hcap arrived logH, ?_⟩
    show accepted (run (receiveTrace ⟨fenv, io.faults⟩) app arrived).2 = []
    rw [(h.drain arrived).2]
    rfl
  | key logH key =>
    refine ⟨h.key logH hopened, ?_⟩
    show accepted (app.keyEffects senv io ⟨fenv, io.faults⟩ key) = []
    unfold App.keyEffects
    split
    · exact accepted_commandEffects senv io ⟨fenv, io.faults⟩ app _
    · rfl
  | push output => exact absurd rfl (hpush output)
  | trim =>
    refine ⟨?_, rfl⟩
    show Replaying records (app.trimHistory ⟨fenv, io.faults⟩)
    rw [h.trimHistory hcap]
    exact h
  | edit text => exact ⟨h.same (updateFilter_records text) (updateFilter_recorder _), rfl⟩
  | clearFilter => exact ⟨h.same ⟨rfl, rfl, rfl⟩ rfl, rfl⟩
  | clear => exact ⟨h.clear, rfl⟩
  | save argument => exact hcommand (.save argument) hopened
  | «open» argument => exact hcommand (.open argument) hopened
  | metrics metrics => exact ⟨h.same ⟨rfl, rfl, rfl⟩ rfl, rfl⟩

variable (env app records) in
theorem showSession_replaying (dropped : ℕ) : Replaying records (app.showSession env records dropped) :=
  ⟨rfl, .inr rfl, nofun⟩

/-- **After an `:open` that succeeds** the history has the newest records of the file. -/
theorem replaying_of_opened {event : Event} {argument : String}
    (hopening : app.opening event = some argument)
    (hopened : .opened ∈ (appStep fenv senv app (io, event)).2) :
    ∃ outputs, readAll senv argument io.file = .ok outputs ∧
      (appStep fenv senv app (io, event)).1.events = newest outputs ∧
      Replaying (newest outputs) (appStep fenv senv app (io, event)).1 := by
  obtain ⟨⟨opened, message⟩, hresult⟩ := (opened_iff hopening).mp hopened
  obtain ⟨_, ⟨outputs, hread⟩, _⟩ :=
    (openSession_iff senv io ⟨fenv, io.faults⟩ app argument).mp ⟨_, hresult⟩
  refine ⟨outputs, hread, ?_⟩
  have hself : app.orSelf (app.openSession senv io ⟨fenv, io.faults⟩ argument)
      = app.showSession ⟨fenv, io.faults⟩ (newest outputs) (outputs.length - historyCap) := by
    rw [hresult]
    exact open_history hread hresult
  have hshown := showSession_replaying ⟨fenv, io.faults⟩ app (newest outputs) (outputs.length - historyCap)
  have hevents := @showSession_events ⟨fenv, io.faults⟩ app (newest outputs) (outputs.length - historyCap)
  rw [← hself] at hshown hevents
  rcases (@opening_cases fenv senv io app event argument hopening).2 with hafter | ⟨notice, hafter⟩
  · rw [hafter]
    exact ⟨hevents, hshown⟩
  · rw [hafter]
    exact ⟨hevents, hshown.same ⟨rfl, rfl, rfl⟩ rfl⟩

end Replaying

/-- **Live and replayed timelines never mix, and a failed `:open` changes nothing.**  An `:open` succeeds
if it names a file, all of it reads and the recorder can be flushed; otherwise it leaves the view, the
recorder and the channel as they are.  Once one has succeeded, and until the next does, the history is
empty or has exactly the newest records of its file, and so has every file that is recorded; no source
record that arrives is accepted. -/
theorem timelines_never_mix (fenv : FilterEnv) (senv : SessionEnv) (start : App)
    (before : List (Io × Event)) (io : Io) (event : Event) (path : String) :
    let app := (run (appStep fenv senv) start before).1
    let opening := appStep fenv senv app (io, event)
    app.opening event = some path →
      (.opened ∈ opening.2 ↔ path ≠ "" ∧ (∃ outputs, readAll senv path io.file = .ok outputs) ∧
        (app.recorder.isSome = true → io.flushError = none)) ∧
      (.opened ∉ opening.2 → Unchanged app opening.1) ∧
      (.opened ∈ opening.2 → ∃ outputs, readAll senv path io.file = .ok outputs ∧
        opening.1.events = newest outputs ∧
        ∀ after, Meets (appStep fenv senv) (KeepsTimeline fenv senv) opening.1 after →
          Replaying (newest outputs) (run (appStep fenv senv) opening.1 after).1 ∧
            accepted (run (appStep fenv senv) opening.1 after).2 = []) := by
  intro app opening hopening
  refine ⟨(opened_iff hopening).trans (openSession_iff senv io ⟨fenv, io.faults⟩ app path),
    failed_open_unchanged hopening, ?_⟩
  intro hopened
  obtain ⟨outputs, hread, hevents, hreplaying⟩ := replaying_of_opened hopening hopened
  refine ⟨outputs, hread, hevents, fun after hafter => ?_⟩
  refine run_invariant_of_meets (appStep fenv senv)
    (fun _ app effects => Replaying (newest outputs) app ∧ accepted effects = []) ⟨hreplaying, rfl⟩ ?_
    hafter
  intro _ app effects input ⟨h, hnone⟩ hkeeps
  obtain ⟨hstep, haccepted⟩ := h.step (newest_length_le outputs) hkeeps
  rw [accepted_append, hnone, haccepted]
  exact ⟨hstep, rfl⟩

/-- A session of one record is opened, and a source record arrives. -/
theorem timelines_never_mix_late :
    let opening := appStep plainFilterEnv validLineEnv (App.started "pcap" Metrics.new false {} [] none)
      (validIo 1, .open "session.jsonl")
    .opened ∈ opening.2 ∧
      ∃ outputs, readAll validLineEnv "session.jsonl" (validIo 1).file = .ok outputs ∧
        Replaying (newest outputs) (run (appStep plainFilterEnv validLineEnv) opening.1
          [(validIo 1, .turn [.line "late"] 10)]).1 := by
  intro opening
  obtain ⟨hsucceeds, _, hafter⟩ := timelines_never_mix plainFilterEnv validLineEnv
    (App.started "pcap" Metrics.new false {} [] none) [] (validIo 1) (.open "session.jsonl")
    "session.jsonl" rfl
  have hopened : .opened ∈ opening.2 := hsucceeds.mpr ⟨by decide, ⟨_, readAll_validIo 1⟩, nofun⟩
  obtain ⟨outputs, hread, _, hrest⟩ := hafter hopened
  have hreplaying : Replaying (newest outputs) opening.1 := (hrest [] trivial).1
  have hkeeps : Meets (appStep plainFilterEnv validLineEnv) (KeepsTimeline plainFilterEnv validLineEnv)
      opening.1 [(validIo 1, .turn [.line "late"] 10)] := by
    refine ⟨⟨nofun, ?_⟩, trivial⟩
    show .opened ∉ (run (receiveTrace ⟨plainFilterEnv, (validIo 1).faults⟩) opening.1 [.line "late"]).2
    rw [(hreplaying.drain _).2]
    exact List.not_mem_nil
  exact ⟨hopened, outputs, hread, (hrest _ hkeeps).1⟩

end Tapgres.Tui
