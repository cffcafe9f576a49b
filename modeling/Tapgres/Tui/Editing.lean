import Tapgres.Tui.History

/-!
# The filter that is shown

The filter editor parses its text at every keystroke.  A text that parses is installed, another leaves
the installed filter and an error, and the editor is not left with an error but by clearing the text.

* `trim_trim`, `parse_expression` — the text an installed filter keeps parses to it again;
* `FilterStep`, `appStep_filter` — what a step can do to the filter and its text;
* `FilterApplied` — the text, the error and the filter agree; kept by each step;
* `filter_shown_is_applied` — so the filter shown is the filter applied, or the last one that was valid.
-/

namespace Tapgres.Tui

open Tapgres.Decode Tapgres.Filter Tapgres.State Tapgres.Session Tapgres.Lib Tapgres.Lib.Run

/-! ### The text of a filter -/

/-- Trimming twice is trimming. -/
theorem trim_trim (s : Utf8.Str) : trim (trim s) = trim s := by
  have hfront : (trim s).dropWhile Utf8.isWhitespace = trim s := by
    have hprefix : trim s <+: s.dropWhile Utf8.isWhitespace := List.rdropWhile_prefix _ _
    cases htrim : trim s with
    | nil => rfl
    | cons c r =>
      obtain ⟨more, hmore⟩ := hprefix
      have hfix : (s.dropWhile Utf8.isWhitespace).dropWhile Utf8.isWhitespace
          = s.dropWhile Utf8.isWhitespace := List.dropWhile_idempotent _ _
      rw [← hmore, htrim, List.dropWhile_eq_self_iff] at hfix
      exact List.dropWhile_cons_of_neg (hfix (Nat.succ_pos _))
  show ((trim s).dropWhile Utf8.isWhitespace).rdropWhile Utf8.isWhitespace = trim s
  rw [hfront]
  exact List.rdropWhile_idempotent _ _

theorem parse_blank {fenv : FilterEnv} {text : String} (h : trim text.toList = []) :
    DisplayFilter.parse fenv text = .ok {} := by
  rw [DisplayFilter.parse, if_pos h]
  rfl

/-- **An installed filter keeps a text that parses to it.** -/
theorem parse_expression {fenv : FilterEnv} {text : String} {filter : DisplayFilter}
    (h : DisplayFilter.parse fenv text = .ok filter) :
    DisplayFilter.parse fenv filter.expression = .ok filter := by
  by_cases hblank : trim text.toList = []
  · rw [parse_blank hblank] at h
    cases h
    exact parse_blank rfl
  · have hexpression : filter.expression = String.ofList (trim text.toList) := by
      rw [DisplayFilter.parse, if_neg hblank] at h
      simp only [DisplayFilter.ofTokens, bind_eq_ok] at h
      obtain ⟨tokens, _, root, _, h⟩ := h
      cases h
      rfl
    have htrim : trim filter.expression.toList = trim text.toList := by
      rw [hexpression, String.toList_ofList, trim_trim]
    rw [DisplayFilter.parse, htrim]
    exact h

/-! ### What a step does to the filter -/

section Step

variable {fenv : FilterEnv} {senv : SessionEnv} {io : Io} {env : AppEnv} {app : App}

/-- The text of the editor parses. -/
def TextParses (fenv : FilterEnv) (app : App) : Prop :=
  ∃ filter, DisplayFilter.parse fenv app.filterText = .ok filter

/-- What a step can do to the filter, its text and the editor. -/
inductive FilterStep (fenv : FilterEnv) (app : App) : App → Prop
  /-- The filter is left alone; the editor may be entered, or left without an error. -/
  | kept {after : App} (hfilter : after.filter = app.filter) (htext : after.filterText = app.filterText)
      (herror : after.filterError = app.filterError)
      (hediting : after.filterEditing = false → app.filterEditing = false ∨ app.filterError = none) :
      FilterStep fenv app after
  /-- A text that parses is installed. -/
  | installed {after : App} (hparse : DisplayFilter.parse fenv after.filterText = .ok after.filter)
      (herror : after.filterError = none) : FilterStep fenv app after
  /-- A text that does not parse is reported, in the editor. -/
  | reported {after : App} (hparse : ¬TextParses fenv after) (herror : after.filterError ≠ none)
      (hfilter : after.filter = app.filter) (hediting : after.filterEditing = true) :
      FilterStep fenv app after

theorem filterStep_same {after : App} (hfilter : after.filter = app.filter)
    (htext : after.filterText = app.filterText) (herror : after.filterError = app.filterError)
    (hediting : after.filterEditing = app.filterEditing) : FilterStep fenv app after :=
  .kept hfilter htext herror fun h => .inl (hediting.symm.trans h)

/-- Nothing else matters. -/
theorem FilterStep.congr {mid after : App} (h : FilterStep fenv app mid)
    (hfilter : after.filter = mid.filter) (htext : after.filterText = mid.filterText)
    (herror : after.filterError = mid.filterError) (hediting : after.filterEditing = mid.filterEditing) :
    FilterStep fenv app after := by
  cases h with
  | kept hf ht he hed =>
    exact .kept (hfilter.trans hf) (htext.trans ht) (herror.trans he) fun h => hed (hediting.symm.trans h)
  | installed hparse he => exact .installed (by rw [htext, hfilter, hparse]) (herror.trans he)
  | reported hparse he hf hed =>
    exact .reported (by rwa [TextParses, htext]) (by rwa [herror]) (hfilter.trans hf)
      (hediting.trans hed)

theorem SameControls.filterStep {after : App} (h : SameControls app after) : FilterStep fenv app after :=
  filterStep_same h.filter h.filterText h.filterError h.filterEditing

theorem clearFilter_step {after : App} (hfilter : after.filter = {}) (htext : after.filterText = "")
    (herror : after.filterError = none) : FilterStep fenv app after := by
  refine .installed ?_ herror
  rw [hfilter, htext]
  exact parse_blank rfl

/-- **A keystroke in the editor** installs the text or reports it. -/
theorem updateFilter_step (hediting : app.filterEditing = true) (text : String) :
    FilterStep env.filter app ({ app with filterText := text }.updateFilter env) := by
  unfold App.updateFilter
  split
  · rename_i hblank
    exact .installed (parse_blank hblank) rfl
  · rcases displayFilter_parse_answers env.filter text with ⟨filter, hparse⟩ | ⟨error, hparse⟩
    · simp only [hparse]
      exact .installed hparse rfl
    · simp only [hparse]
      refine .reported ?_ (Option.some_ne_none _) rfl hediting
      intro ⟨filter, hok⟩
      have hok' : DisplayFilter.parse env.filter text = .ok filter := hok
      rw [hparse] at hok'
      cases hok'

theorem KeyStep.filterStep {after : App} {key : KeyEvent} (h : KeyStep env app key after) :
    FilterStep env.filter app after := by
  cases h with
  | moves => exact filterStep_same rfl rfl rfl rfl
  | clears => exact filterStep_same rfl rfl rfl rfl
  | entersEditor houtside => exact .kept rfl rfl rfl fun _ => .inl houtside
  -- the guard on `Enter` is what keeps an error inside the editor
  | leavesEditor hnone => exact .kept rfl rfl rfl fun _ => .inr hnone
  | edits hediting text => exact updateFilter_step hediting text
  | clearsFilter => exact clearFilter_step rfl rfl rfl

variable (senv io env) in
/-- A command leaves the filter alone, also where it opens a session. -/
theorem perform_step (command : Command) :
    FilterStep fenv app (app.orSelf (app.perform senv io env command)) := by
  cases hresult : app.perform senv io env command with
  | ok result =>
    rcases perform_ok hresult with ⟨argument, _, hafter⟩ | ⟨argument, outputs, dropped, _, hafter⟩
    · show FilterStep fenv app result.1
      rw [hafter]
      exact filterStep_same rfl rfl rfl rfl
    · show FilterStep fenv app result.1
      rw [hafter]
      exact filterStep_same rfl rfl rfl rfl
  | error message => exact filterStep_same rfl rfl rfl rfl

theorem executeCommand_step : FilterStep fenv app (app.executeCommand senv io env) := by
  unfold App.executeCommand
  have hstep : FilterStep fenv app
      (app.orSelf (app.perform senv io env (Command.parse app.commandText))) :=
    perform_step senv io env _
  cases hresult : app.perform senv io env (Command.parse app.commandText) with
  | ok result =>
    rw [hresult] at hstep
    exact hstep.congr rfl rfl rfl rfl
  | error message => exact filterStep_same rfl rfl rfl rfl

theorem handleKey_filterStep (logH : ℕ) (key : KeyEvent) :
    FilterStep env.filter app (app.handleKey senv io env logH key).1 := by
  by_cases henter : app.commandEditing = true ∧ key.code = .enter
  · rw [handleKey_enter henter]
    exact executeCommand_step
  · exact (handleKey_step henter).filterStep

/-- Texts are edited by the keys of the editor, and in no other way. -/
def TypedOnly (_ : App) (input : Io × Event) : Prop := ∀ text, input.2 ≠ .edit text

/-- **What a step does to the filter.** -/
theorem appStep_filter {input : Io × Event} (htyped : TypedOnly app input) :
    FilterStep fenv app (appStep fenv senv app input).1 := by
  obtain ⟨io, event⟩ := input
  cases event with
  | turn arrived logH => exact (turn_controls _ app arrived logH).filterStep
  | key logH key => exact @handleKey_filterStep senv io ⟨fenv, io.faults⟩ app logH key
  | push output => exact (pushOutput_controls _ app output).filterStep
  | trim => exact (trimHistory_controls _ app).filterStep
  | edit text => exact absurd rfl (htyped text)
  | clearFilter => exact clearFilter_step rfl rfl rfl
  | clear => exact filterStep_same rfl rfl rfl rfl
  | save argument => exact perform_step senv io ⟨fenv, io.faults⟩ (.save argument)
  | «open» argument => exact perform_step senv io ⟨fenv, io.faults⟩ (.open argument)
  | metrics metrics => exact filterStep_same rfl rfl rfl rfl

end Step

/-! ### The text, the error and the filter -/

/-- The error says whether the text parses; without one the filter is that of the text; and outside the
editor there is none. -/
structure FilterApplied (fenv : FilterEnv) (app : App) : Prop where
  error : app.filterError = none ↔ TextParses fenv app
  applied : app.filterError = none → DisplayFilter.parse fenv app.filterText = .ok app.filter
  outside : app.filterEditing = false → app.filterError = none

section Applied

variable {fenv : FilterEnv} {app after : App}

theorem FilterApplied.step (h : FilterApplied fenv app) (hstep : FilterStep fenv app after) :
    FilterApplied fenv after := by
  cases hstep with
  | kept hfilter htext herror hediting =>
    refine ⟨?_, ?_, ?_⟩
    · rw [herror, h.error, TextParses, TextParses, htext]
    · rw [herror, htext, hfilter]
      exact h.applied
    · intro hclosed
      rw [herror]
      exact (hediting hclosed).elim h.outside id
  | installed hparse herror =>
    exact ⟨⟨fun _ => ⟨_, hparse⟩, fun _ => herror⟩, fun _ => hparse, fun _ => herror⟩
  | reported hparse herror hfilter hediting =>
    refine ⟨⟨fun hnone => absurd hnone herror, fun hparses => absurd hparses hparse⟩,
      fun hnone => absurd hnone herror, fun hclosed => ?_⟩
    rw [hediting] at hclosed
    cases hclosed

/-- A step that ends with a text that does not parse leaves the filter. -/
theorem FilterStep.filter_of_not (hstep : FilterStep fenv app after) (h : ¬TextParses fenv after) :
    after.filter = app.filter := by
  cases hstep with
  | kept hfilter _ _ _ => exact hfilter
  | installed hparse _ => exact absurd ⟨_, hparse⟩ h
  | reported _ _ hfilter _ => exact hfilter

end Applied

/-- A filter the application can be started with: the empty one, or one that a text parses to. -/
def Parsed (fenv : FilterEnv) (filter : DisplayFilter) : Prop :=
  filter = {} ∨ ∃ text, DisplayFilter.parse fenv text = .ok filter

theorem Parsed.expression {fenv : FilterEnv} {filter : DisplayFilter} (h : Parsed fenv filter) :
    DisplayFilter.parse fenv filter.expression = .ok filter := by
  rcases h with rfl | ⟨text, hparse⟩
  · exact parse_blank rfl
  · exact parse_expression hparse

/-- **The filter shown is the filter applied.**  In every state that is reached, outside the editor there
is no error and the filter is that of the text; in the editor there is an error exactly when the text
does not parse, and the filter is that of the last text that did. -/
theorem filter_shown_is_applied (fenv : FilterEnv) (senv : SessionEnv) (mode : String)
    (metrics : Metrics) (rich : Bool) {filter : DisplayFilter} (hfilter : Parsed fenv filter)
    (splashLines : List String) (recorder : Option SessionWriter) {inputs : List (Io × Event)}
    (htyped : ∀ input ∈ inputs, ∀ text, input.2 ≠ .edit text) :
    let start := App.started mode metrics rich filter splashLines recorder
    let app := (run (appStep fenv senv) start inputs).1
    (app.filterEditing = false →
        app.filterError = none ∧ DisplayFilter.parse fenv app.filterText = .ok app.filter) ∧
      (app.filterError ≠ none ↔ ¬TextParses fenv app) ∧
      ∃ past, LastAt (appStep fenv senv) (TextParses fenv) start past inputs ∧
        DisplayFilter.parse fenv (run (appStep fenv senv) start past).1.filterText = .ok app.filter := by
  intro start app
  have hparse : DisplayFilter.parse fenv start.filterText = .ok start.filter := hfilter.expression
  have hstart : FilterApplied fenv start :=
    ⟨⟨fun _ => ⟨_, hparse⟩, fun _ => rfl⟩, fun _ => hparse, fun _ => rfl⟩
  have hmeets : Meets (appStep fenv senv) TypedOnly start inputs :=
    meets_of_forall _ (p := fun input : Io × Event => ∀ text, input.2 ≠ .edit text) (fun _ _ h => h) _
      htyped
  obtain ⟨happlied, past, hlast, hpast, hvalue⟩ := run_last (appStep fenv senv) (FilterApplied fenv)
    App.filter (fun _ _ h hok => h.step (appStep_filter hok))
    (fun _ _ _ hok => (appStep_filter hok).filter_of_not) hstart ⟨_, hparse⟩ hmeets
  refine ⟨fun hclosed => ⟨happlied.outside hclosed, happlied.applied (happlied.outside hclosed)⟩,
    not_congr happlied.error, past, hlast, ?_⟩
  show _ = Except.ok app.filter
  rw [hvalue]
  exact hpast.applied (hpast.error.mpr hlast.1)

/-- A letter is typed into the editor: the text does not parse, and the empty filter stays. -/
theorem filter_shown_is_applied_typed :
    let inputs : List (Io × Event) := [(quietIo, .key 10 ⟨.char 'y', false⟩),
      (quietIo, .key 10 ⟨.char 'x', false⟩)]
    let app := (run (appStep plainFilterEnv writeOnlyEnv)
      (App.started "pcap" Metrics.new false {} [] none) inputs).1
    app.filterError ≠ none ↔ ¬TextParses plainFilterEnv app :=
  (filter_shown_is_applied plainFilterEnv writeOnlyEnv "pcap" Metrics.new false (.inl rfl) [] none
    (by simp)).2.1

end Tapgres.Tui
