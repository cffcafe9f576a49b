import Mathlib.Data.List.Pairwise
import Tapgres.Tui.Commands

/-!
# What the TUI shows

The visible list is the filter applied to the retained events, whatever happens to the application: it
is extended by one record at a time, rebuilt when the filter or the history changes, and emptied with
the history.

* `matching`, `mem_matching`, `matching_sorted` — the positions of the matching events, in order;
* `Shown` — the visible list is that of the current filter; kept by each operation;
* `visible_exact` — so it is in every state that is reached.
-/

namespace Tapgres.Tui

open Tapgres.Decode Tapgres.Filter Tapgres.State Tapgres.Session Tapgres.Lib Tapgres.Lib.Run

/-! ### The matching positions -/

/-- The positions of the events that match, from the first to the last. -/
def matching (fenv : FilterEnv) (filter : DisplayFilter) (events : List Output) : List ℕ :=
  events.zipIdx.filterMap fun (output, index) =>
    if output.matchesFilter fenv filter then some index else none

variable {fenv : FilterEnv} {senv : SessionEnv} {env : AppEnv}

theorem mem_matching {filter : DisplayFilter} {events : List Output} {i : ℕ} :
    i ∈ matching fenv filter events ↔
      ∃ output, events[i]? = some output ∧ output.matchesFilter fenv filter = true := by
  rw [matching, List.mem_filterMap]
  constructor
  · rintro ⟨⟨output, index⟩, hmem, hsome⟩
    rw [List.mk_mem_zipIdx_iff_getElem?] at hmem
    dsimp only at hsome
    split at hsome
    · rename_i hmatches
      obtain rfl := Option.some.inj hsome
      exact ⟨output, hmem, hmatches⟩
    · cases hsome
  · rintro ⟨output, hget, hmatches⟩
    exact ⟨(output, i), List.mk_mem_zipIdx_iff_getElem?.mpr hget, if_pos hmatches⟩

theorem matching_sorted (filter : DisplayFilter) (events : List Output) :
    (matching fenv filter events).Pairwise (· < ·) := by
  have hindices : (events.zipIdx).Pairwise fun a b => a.2 < b.2 := by
    rw [← List.pairwise_map (R := (· < ·)), List.zipIdx_map_snd]
    exact List.pairwise_lt_range'
  refine hindices.filterMap _ ?_
  intro ⟨_, a⟩ ⟨_, b⟩ hab i hi j hj
  dsimp only at hab hi hj
  split at hi
  · obtain rfl := Option.some.inj hi
    split at hj
    · obtain rfl := Option.some.inj hj
      exact hab
    · cases hj
  · cases hi

/-- A new event is shown behind the others, or not at all. -/
theorem matching_snoc (filter : DisplayFilter) (events : List Output) (output : Output) :
    matching fenv filter (events ++ [output])
      = matching fenv filter events
        ++ if output.matchesFilter fenv filter then [events.length] else [] := by
  rw [matching, List.zipIdx_append, List.filterMap_append, List.zipIdx_singleton]
  by_cases h : output.matchesFilter fenv filter = true
  · simp [matching, h]
  · simp [matching, h]

/-! ### Shown by every operation -/

/-- The visible list is that of the current filter. -/
def Shown (fenv : FilterEnv) (app : App) : Prop :=
  app.visible = matching fenv app.filter app.events

theorem rebuildVisible_shown (app : App) : Shown env.filter (app.rebuildVisible env) := rfl

theorem trimHistory_shown {app : App} (h : Shown env.filter app) :
    Shown env.filter (app.trimHistory env) := by
  unfold App.trimHistory
  split
  · exact h
  · exact rebuildVisible_shown _

theorem append_shown {app : App} (h : Shown env.filter app) (output : Output) :
    Shown env.filter (app.append env output) := by
  show (if output.matchesFilter env.filter app.filter then app.visible ++ [app.events.length]
    else app.visible) = matching env.filter app.filter (app.events ++ [output])
  rw [matching_snoc, h]
  split
  · rfl
  · rw [List.append_nil]

theorem pushOutput_shown {app : App} (h : Shown env.filter app) (output : Output) :
    Shown env.filter (app.pushOutput env output) := by
  have hrecord : Shown env.filter (app.record env output) := h
  unfold App.pushOutput
  dsimp only
  split
  · exact trimHistory_shown (append_shown hrecord output)
  · exact append_shown hrecord output

theorem receive_shown {app : App} (h : Shown env.filter app) (output : Output) :
    Shown env.filter (app.receive env output) := by
  unfold App.receive
  split
  · exact pushOutput_shown h output
  · exact h

theorem frame_shown {app : App} (h : Shown env.filter app) (arrived : List Output) :
    Shown env.filter (app.frame env arrived) := by
  have hdrained : Shown env.filter (arrived.foldl (App.receive env) app) := by
    induction arrived generalizing app with
    | nil => exact h
    | cons output arrived ih => exact ih (receive_shown h output)
  have hsplash : Shown env.filter (arrived.foldl (App.receive env) app).leaveSplashIfTraffic := by
    unfold App.leaveSplashIfTraffic
    split <;> exact hdrained
  exact trimHistory_shown hsplash

/-- Scrolling does not change what there is to show. -/
theorem turn_shown {app : App} (h : Shown env.filter app) (arrived : List Output) (logH : ℕ) :
    Shown env.filter (app.turn env arrived logH) := frame_shown h arrived

/-- A filter that does not parse changes nothing but the error. -/
theorem updateFilter_shown {app : App} (h : Shown env.filter app) :
    Shown env.filter (app.updateFilter env) := by
  rcases updateFilter_cases env app with ⟨filter, hvalid⟩ | ⟨error, hinvalid⟩
  · rw [hvalid]
    exact rebuildVisible_shown _
  · rw [hinvalid]
    exact h

theorem clearFilter_shown (app : App) : Shown env.filter (app.clearFilter env) := rebuildVisible_shown _

theorem clear_shown (app : App) : Shown fenv app.clear := rfl

theorem showSession_shown (app : App) (outputs : List Output) (dropped : ℕ) :
    Shown env.filter (app.showSession env outputs dropped) := rfl

theorem perform_shown {io : Io} {app after : App} (h : Shown env.filter app) {command : Command}
    {message : String} (hafter : app.perform senv io env command = .ok (after, message)) :
    Shown env.filter after := by
  rcases perform_ok hafter with ⟨argument, _, rfl⟩ | ⟨argument, outputs, dropped, _, rfl⟩
  · exact h
  · exact showSession_shown app outputs dropped

theorem executeCommand_shown {io : Io} {app : App} (h : Shown env.filter app) :
    Shown env.filter (app.executeCommand senv io env) := by
  unfold App.executeCommand
  split
  · rename_i after message hperform
    have hafter : Shown env.filter after := perform_shown h hperform
    exact hafter
  · exact h

theorem SameHistory.shown {app after : App} (hsame : SameHistory app after) (h : Shown fenv app) :
    Shown fenv after := by
  rw [Shown, hsame.visible, hsame.filter, hsame.events]
  exact h

theorem KeyResult.shown {app after : App} (hresult : KeyResult env app after)
    (h : Shown env.filter app) : Shown env.filter after := by
  cases hresult with
  | view hsame => exact hsame.shown h
  | clear => exact clear_shown app
  | edit text => exact updateFilter_shown h
  | clearFilter hsame => exact hsame.shown (clearFilter_shown app)

theorem handleKey_shown {io : Io} {app : App} (h : Shown env.filter app) (logH : ℕ) (key : KeyEvent) :
    Shown env.filter (app.handleKey senv io env logH key).1 := by
  by_cases henter : app.commandEditing = true ∧ key.code = .enter
  · rw [handleKey_enter henter]
    exact executeCommand_shown h
  · exact (handleKey_result henter).shown h

/-- **Every step shows the filtered history.** -/
theorem appStep_shown {app : App} (h : Shown fenv app) (input : Io × Event) :
    Shown fenv (appStep fenv senv app input).1 := by
  obtain ⟨io, event⟩ := input
  have hperform : ∀ command, Shown fenv (app.orSelf (app.perform senv io ⟨fenv, io.faults⟩ command)) := by
    intro command
    cases hresult : app.perform senv io ⟨fenv, io.faults⟩ command with
    | ok result => exact perform_shown h hresult
    | error message => exact h
  cases event with
  | turn arrived logH => exact turn_shown h arrived logH
  | key logH key => exact handleKey_shown h logH key
  | push output => exact pushOutput_shown h output
  | trim => exact trimHistory_shown h
  | edit text => exact updateFilter_shown h
  | clearFilter => exact clearFilter_shown app
  | clear => exact clear_shown app
  | save argument => exact hperform (.save argument)
  | «open» argument => exact hperform (.open argument)
  | metrics metrics => exact h

/-- **The visible list is always the filter applied to the retained events**: in every state that is
reached it has the positions of the matching events, strictly increasing, and operational records are
among them. -/
theorem visible_exact (fenv : FilterEnv) (senv : SessionEnv) (mode : String) (metrics : Metrics)
    (rich : Bool) (filter : DisplayFilter) (splashLines : List String) (recorder : Option SessionWriter)
    (inputs : List (Io × Event)) :
    let app := (run (appStep fenv senv) (App.started mode metrics rich filter splashLines recorder)
      inputs).1
    app.visible.Pairwise (· < ·) ∧
      (∀ i, i ∈ app.visible ↔
        ∃ output, app.events[i]? = some output ∧ output.matchesFilter fenv app.filter = true) ∧
      ∀ i output, app.events[i]? = some output →
        (∃ text, output = .line text ∨ output = .status text) → i ∈ app.visible := by
  intro app
  have hstart : Shown fenv (App.started mode metrics rich filter splashLines recorder) := rfl
  have hshown : Shown fenv app :=
    run_invariant (appStep fenv senv) (fun _ app _ => Shown fenv app) hstart
      (fun _ _ _ input h => appStep_shown h input) inputs
  rw [Shown] at hshown
  rw [hshown]
  refine ⟨matching_sorted app.filter app.events, fun i => mem_matching, ?_⟩
  rintro i _ hget ⟨text, rfl | rfl⟩
  · exact mem_matching.mpr ⟨_, hget, rfl⟩
  · exact mem_matching.mpr ⟨_, hget, rfl⟩

end Tapgres.Tui
