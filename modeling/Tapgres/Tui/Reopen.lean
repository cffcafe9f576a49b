import Tapgres.Replay
import Tapgres.Tui.Visible

/-!
# Two ways to open a session

`--replay FILE --tui` puts the newest records of a file on the channel, behind a status line if there
are older ones; `:open FILE` installs them at once.  Both end with the same events in view.  They count
what is missing differently: `:open` counts the records it has not kept, the replay what its history
has evicted, which is the status line alone.

* `frames_trimmed` — what a TUI retains of the records that arrive, and what it counts as dropped;
* `replay_shows_same` — the retained events and the visible list agree for every file;
* `replay_agrees_iff` — the number of dropped events agrees for files up to one record over the cap.
-/

namespace Tapgres.Tui

open Tapgres.Decode Tapgres.Filter Tapgres.State Tapgres.Session Tapgres.Replay

variable {senv : SessionEnv} {env : AppEnv}

/-! ### The bounded history -/

/-- The App retains what has arrived but for the first `dropped` records, which the cap has evicted. -/
structure Retains (all : List Output) (app : App) : Prop where
  accepts : app.acceptSourceRecords = true
  events : app.events = all.drop app.droppedEvents
  bound : app.droppedEvents ≤ all.length - historyCap

/-- And it has evicted all the cap does not allow. -/
def Trimmed (all : List Output) (app : App) : Prop :=
  Retains all app ∧ app.droppedEvents = all.length - historyCap

theorem Retains.dropOldest {all : List Output} {app : App} (h : Retains all app) {n : ℕ}
    (hn : app.droppedEvents + n ≤ all.length - historyCap) : Retains all (app.dropOldest n) where
  accepts := h.accepts
  events := by
    show app.events.drop n = all.drop (app.droppedEvents + n)
    rw [h.events, List.drop_drop]
  bound := hn

theorem Retains.rebuildVisible {all : List Output} {app : App} (h : Retains all app) :
    Retains all (app.rebuildVisible env) := ⟨h.accepts, h.events, h.bound⟩

theorem Retains.trimHistory {all : List Output} {app : App} (h : Retains all app) :
    Trimmed all (app.trimHistory env) := by
  have hlen : app.events.length = all.length - app.droppedEvents := by
    rw [h.events, List.length_drop]
  have hbound := h.bound
  unfold App.trimHistory
  split
  · exact ⟨h, by omega⟩
  · have hdropped : app.droppedEvents + (app.events.length - historyCap) = all.length - historyCap := by
      omega
    exact ⟨(h.dropOldest (Nat.le_of_eq hdropped)).rebuildVisible, hdropped⟩

variable (env) in
theorem Retains.receive {all : List Output} {app : App} (h : Retains all app) (output : Output) :
    Retains (all ++ [output]) (app.receive env output) := by
  have happend : Retains (all ++ [output]) ((app.record env output).append env output) := by
    have hbound := h.bound
    refine ⟨h.accepts, ?_, ?_⟩
    · show app.events ++ [output] = (all ++ [output]).drop app.droppedEvents
      rw [h.events, List.drop_append_of_le_length (by omega)]
    · show app.droppedEvents ≤ (all ++ [output]).length - historyCap
      rw [List.length_append]
      omega
  rw [App.receive, if_pos h.accepts, App.pushOutput]
  split
  · exact happend.trimHistory.1
  · exact happend

theorem Retains.frame {all : List Output} {app : App} (h : Retains all app) (arrived : List Output) :
    Trimmed (all ++ arrived) (app.frame env arrived) := by
  have hdrained : Retains (all ++ arrived) (arrived.foldl (App.receive env) app) := by
    induction arrived generalizing all app with
    | nil => rwa [List.append_nil]
    | cons output arrived ih =>
      have hnext := ih (h.receive env output)
      rwa [List.append_assoc] at hnext
  have hsplash : Retains (all ++ arrived) (arrived.foldl (App.receive env) app).leaveSplashIfTraffic := by
    unfold App.leaveSplashIfTraffic
    split
    · exact ⟨hdrained.accepts, hdrained.events, hdrained.bound⟩
    · exact hdrained
  exact hsplash.trimHistory

/-- **What is retained of the records that arrive**, however they are cut into frames. -/
theorem frames_trimmed {all : List Output} {app : App} (h : Trimmed all app)
    (frames : List (List Output)) :
    Trimmed (all ++ frames.flatten) (frames.foldl (App.frame env) app) := by
  induction frames generalizing all app with
  | nil => rwa [List.flatten_nil, List.append_nil]
  | cons arrived frames ih =>
    rw [List.flatten_cons, ← List.append_assoc]
    exact ih (h.1.frame arrived)

theorem new_trimmed (mode : String) (metrics : Metrics) (rich : Bool) (filter : DisplayFilter)
    (splashLines : List String) : Trimmed [] (App.new mode metrics rich filter splashLines) :=
  ⟨⟨rfl, rfl, Nat.zero_le _⟩, (Nat.zero_sub historyCap).symm⟩

/-! ### The filter stays -/

theorem trimHistory_filter (app : App) : (app.trimHistory env).filter = app.filter := by
  unfold App.trimHistory
  split
  · rfl
  · rw [rebuildVisible_filter, dropOldest_filter]

theorem receive_filter (app : App) (output : Output) :
    (app.receive env output).filter = app.filter := by
  unfold App.receive
  split
  · unfold App.pushOutput
    dsimp only
    split
    · exact trimHistory_filter _
    · rfl
  · rfl

theorem frame_filter (app : App) (arrived : List Output) :
    (app.frame env arrived).filter = app.filter := by
  have hdrained : (arrived.foldl (App.receive env) app).filter = app.filter := by
    induction arrived generalizing app with
    | nil => rfl
    | cons output arrived ih => rw [List.foldl_cons, ih, receive_filter]
  have hsplash : (arrived.foldl (App.receive env) app).leaveSplashIfTraffic.filter = app.filter := by
    unfold App.leaveSplashIfTraffic
    split <;> exact hdrained
  exact (trimHistory_filter _).trans hsplash

theorem frames_view {app : App} (h : Shown env.filter app) (frames : List (List Output)) :
    Shown env.filter (frames.foldl (App.frame env) app) ∧
      (frames.foldl (App.frame env) app).filter = app.filter := by
  induction frames generalizing app with
  | nil => exact ⟨h, rfl⟩
  | cons arrived frames ih =>
    obtain ⟨hshown, hfilter⟩ := ih (frame_shown h arrived)
    exact ⟨hshown, hfilter.trans (frame_filter app arrived)⟩

/-! ### The two ways -/

/-- The App after a replay, when the channel's records arrive in these frames. -/
def replayedApp (env : AppEnv) (metrics : Metrics) (rich : Bool) (filter : DisplayFilter)
    (frames : List (List Output)) : App :=
  frames.foldl (App.frame env) (App.new "replay" metrics rich filter [])

variable {path : String} {io : Io} {outputs : List Output}

variable (env) in
/-- **After the replay**: the newest records, and what the history has evicted, which is the status line
about the others if there is one. -/
theorem replay_history (hread : readAll senv path io.file = .ok outputs) {frames : List (List Output)}
    (hframes : frames.flatten = tuiSource senv path io.file) (metrics : Metrics) (rich : Bool)
    (filter : DisplayFilter) :
    (replayedApp env metrics rich filter frames).events = outputs.drop (outputs.length - historyCap) ∧
      (replayedApp env metrics rich filter frames).droppedEvents
        = min 1 (outputs.length - historyCap) := by
  have htrimmed : Trimmed ([] ++ frames.flatten) (replayedApp env metrics rich filter frames) :=
    frames_trimmed (new_trimmed "replay" metrics rich filter []) frames
  obtain ⟨hretains, hdropped⟩ := htrimmed
  rw [List.nil_append, hframes] at hretains hdropped
  have hevents := hretains.events
  by_cases hlen : outputs.length ≤ historyCap
  · rw [tuiSource_of_le hread hlen] at hdropped hevents
    rw [hdropped] at hevents
    exact ⟨hevents, by omega⟩
  · rw [Nat.not_le] at hlen
    rw [tuiSource_of_lt hread hlen] at hdropped hevents
    rw [List.length_cons, List.length_drop] at hdropped
    have hone : (replayedApp env metrics rich filter frames).droppedEvents = 1 := by omega
    rw [hone, List.drop_one, List.tail_cons] at hevents
    exact ⟨hevents, by omega⟩

/-- **After `:open`**: the newest records, and how many there are besides. -/
theorem open_history (hread : readAll senv path io.file = .ok outputs) {app opened : App}
    {message : String} (hopen : app.openSession senv io env path = .ok (opened, message)) :
    opened = app.showSession env (outputs.drop (outputs.length - historyCap))
      (outputs.length - historyCap) := by
  obtain ⟨kept, dropped, hkept, hopened⟩ := openSession_ok hopen
  rw [readTail_eq hread, Except.ok.injEq, Prod.mk.injEq] at hkept
  rw [hopened, hkept.1, hkept.2]

theorem showSession_events (app : App) (kept : List Output) (dropped : ℕ) :
    (app.showSession env kept dropped).events = kept := rfl

theorem showSession_visible (app : App) (kept : List Output) (dropped : ℕ) :
    (app.showSession env kept dropped).visible = matching env.filter app.filter kept := rfl

theorem showSession_droppedEvents (app : App) (kept : List Output) (dropped : ℕ) :
    (app.showSession env kept dropped).droppedEvents = dropped := rfl

section Agree

variable (hread : readAll senv path io.file = .ok outputs) {frames : List (List Output)}
  (hframes : frames.flatten = tuiSource senv path io.file) {mode message : String}
  {metrics : Metrics} {rich : Bool} {filter : DisplayFilter} {splashLines : List String} {opened : App}
  (metrics' : Metrics) (rich' : Bool)
  (hopen : (App.new mode metrics rich filter splashLines).openSession senv io env path
    = .ok (opened, message))

variable (env) in
include hread hframes hopen in
/-- **The same events are retained, and the same are visible**, for every file. -/
theorem replay_shows_same :
    (replayedApp env metrics' rich' filter frames).events = opened.events ∧
      (replayedApp env metrics' rich' filter frames).visible = opened.visible := by
  obtain ⟨hevents, _⟩ := replay_history env hread hframes metrics' rich' filter
  have hnew : Shown env.filter (App.new "replay" metrics' rich' filter []) := rfl
  obtain ⟨hshown, hfilter⟩ := frames_view hnew frames
  have hvisible : (replayedApp env metrics' rich' filter frames).visible
      = matching env.filter filter (replayedApp env metrics' rich' filter frames).events := by
    rw [Shown, hfilter] at hshown
    exact hshown
  rw [hvisible, hevents, open_history hread hopen, showSession_events, showSession_visible]
  exact ⟨rfl, rfl⟩

include hread hframes hopen in
/-- **The two ways to open a session agree**, the number of dropped events and with it the omission that
a later `:save` reports, exactly for files of at most one record more than the history holds. -/
theorem replay_agrees_iff :
    ((replayedApp env metrics' rich' filter frames).events = opened.events ∧
        (replayedApp env metrics' rich' filter frames).visible = opened.visible ∧
        (replayedApp env metrics' rich' filter frames).droppedEvents = opened.droppedEvents ∧
        (replayedApp env metrics' rich' filter frames).omission = opened.omission) ↔
      outputs.length ≤ historyCap + 1 := by
  obtain ⟨hevents, hvisible⟩ := replay_shows_same env hread hframes metrics' rich' hopen
  obtain ⟨_, hreplayed⟩ := replay_history env hread hframes metrics' rich' filter
  have hopened : opened.droppedEvents = outputs.length - historyCap := by
    rw [open_history hread hopen, showSession_droppedEvents]
  constructor
  · rintro ⟨_, _, hdropped, _⟩
    rw [hreplayed, hopened] at hdropped
    omega
  · intro hlen
    have hdropped : (replayedApp env metrics' rich' filter frames).droppedEvents
        = opened.droppedEvents := by
      rw [hreplayed, hopened]
      omega
    refine ⟨hevents, hvisible, hdropped, ?_⟩
    rw [App.omission, App.omission, hdropped]

end Agree

/-! ### A session two records longer than the history -/

variable (env) in
/-- With a path, a valid file and no recorder an `:open` succeeds. -/
theorem openSession_of_readAll (hread : readAll senv path io.file = .ok outputs) (app : App)
    (hpath : path ≠ "") (hrecorder : app.recorder = none) :
    ∃ opened message, app.openSession senv io env path = .ok (opened, message) := by
  unfold App.openSession
  rw [if_neg hpath, readTail_eq hread, hrecorder]
  exact ⟨_, _, rfl⟩

/-- A file of `n` valid lines is there to be opened. -/
def validIo (n : ℕ) : Io := ⟨fun _ _ => none, none, none, validFile n⟩

theorem readAll_validIo (n : ℕ) : readAll validLineEnv "session.jsonl" (validIo n).file
    = .ok (List.replicate n (.line "valid")) := readAll_validFile n

/-- All records of the file arrive in one frame. -/
def validFrames (n : ℕ) : List (List Output) := [tuiSource validLineEnv "session.jsonl" (validFile n)]

theorem flatten_validFrames (n : ℕ) :
    (validFrames n).flatten = tuiSource validLineEnv "session.jsonl" (validIo n).file := by
  rw [validFrames, List.flatten_singleton]
  rfl

/-- One record more than the history holds: both have dropped one event. -/
theorem replay_agrees_full :
    ∃ opened message,
      (App.new "pcap" Metrics.new false {} []).openSession validLineEnv (validIo (historyCap + 1)) faultless
          "session.jsonl" = .ok (opened, message) ∧
        let replayed := replayedApp faultless Metrics.new false {} (validFrames (historyCap + 1))
        opened.droppedEvents = 1 ∧ replayed.events = opened.events ∧ replayed.visible = opened.visible ∧
          replayed.droppedEvents = opened.droppedEvents ∧ replayed.omission = opened.omission := by
  have hread := readAll_validIo (historyCap + 1)
  obtain ⟨opened, message, hopen⟩ := openSession_of_readAll faultless hread
    (App.new "pcap" Metrics.new false {} []) (by decide) rfl
  have hdropped : opened.droppedEvents = 1 := by
    rw [open_history hread hopen, showSession_droppedEvents, List.length_replicate]
    omega
  exact ⟨opened, message, hopen, hdropped,
    (replay_agrees_iff hread (flatten_validFrames (historyCap + 1)) Metrics.new false hopen).mpr
      (List.length_replicate).le⟩

/-- **Two records more than the history holds**: the replay counts one dropped event, and `:open` two. -/
theorem long_session_dropped_differs :
    readAll validLineEnv "session.jsonl" (validFile (historyCap + 2))
        = .ok (List.replicate (historyCap + 2) (.line "valid")) ∧
      ∃ opened message,
        (App.new "pcap" Metrics.new false {} []).openSession validLineEnv (validIo (historyCap + 2))
            faultless "session.jsonl" = .ok (opened, message) ∧
          (replayedApp faultless Metrics.new false {} (validFrames (historyCap + 2))).droppedEvents = 1 ∧
          opened.droppedEvents = 2 := by
  have hread := readAll_validIo (historyCap + 2)
  obtain ⟨opened, message, hopen⟩ := openSession_of_readAll faultless hread
    (App.new "pcap" Metrics.new false {} []) (by decide) rfl
  obtain ⟨_, hdropped⟩ :=
    replay_history faultless hread (flatten_validFrames (historyCap + 2)) Metrics.new false {}
  refine ⟨hread, opened, message, hopen, ?_, ?_⟩
  · rw [hdropped, List.length_replicate]
    omega
  · rw [open_history hread hopen, showSession_droppedEvents, List.length_replicate]
    omega

end Tapgres.Tui
