import Tapgres.Tui.History
import Tapgres.Tui.Reopen

/-!
# The viewport under traffic

With follow off the log is drawn from the scroll position on, a position in the visible list.  A record
that is pushed extends that list behind it; an eviction rebuilds the list from its front and resets the
position to the first visible event that is left.

* `traffic_scroll` — so the position is kept until something is evicted;
* `evictions`, `traffic_droppedEvents` — how many records are evicted, from the lengths alone;
* `viewport_kept_iff` — when the event on top stays there;
* `viewport_moves` — one record over a full history moves it.
-/

namespace Tapgres.Tui

open Tapgres.Decode Tapgres.Filter Tapgres.State Tapgres.Session Tapgres.Lib Tapgres.Lib.Run

/-! ### Traffic -/

/-- What new traffic does: records are pushed, and each turn of the loop trims the history. -/
inductive Traffic where
  | push (output : Output)
  | trim

def App.carry (env : AppEnv) (app : App) : Traffic → App
  | .push output => app.pushOutput env output
  | .trim => app.trimHistory env

def App.carries (env : AppEnv) (app : App) (traffic : List Traffic) : App :=
  traffic.foldl (App.carry env) app

/-- The records that are pushed. -/
def pushed (traffic : List Traffic) : List Output :=
  traffic.filterMap fun
    | .push output => some output
    | .trim => none

/-- How many records traffic evicts from a history of some length. -/
def evictions : ℕ → List Traffic → ℕ
  | _, [] => 0
  | held, .push _ :: traffic =>
    pushEvicts held + evictions (held + 1 - pushEvicts held) traffic
  | held, .trim :: traffic => trimEvicts held + evictions (held - trimEvicts held) traffic

section Traffic

variable {env : AppEnv} {app : App}

theorem carries_cons (t : Traffic) (traffic : List Traffic) :
    app.carries env (t :: traffic) = (app.carry env t).carries env traffic := rfl

theorem carries_controls (traffic : List Traffic) : SameControls app (app.carries env traffic) := by
  induction traffic generalizing app with
  | nil => exact .rfl
  | cons t traffic ih =>
    refine SameControls.trans ?_ ih
    cases t with
    | push output => exact pushOutput_controls env app output
    | trim => exact trimHistory_controls env app

theorem carries_shown (h : Shown env.filter app) (traffic : List Traffic) :
    Shown env.filter (app.carries env traffic) := by
  induction traffic generalizing app with
  | nil => exact h
  | cons t traffic ih =>
    refine ih ?_
    cases t with
    | push output => exact pushOutput_shown h output
    | trim => exact trimHistory_shown h

variable (env) in
/-- **What traffic evicts** is what the lengths say. -/
theorem carries_evicted {all : List Output} {base n : ℕ} (h : Evicted all base n app)
    (traffic : List Traffic) :
    Evicted (all ++ pushed traffic) base (n + evictions app.events.length traffic)
      (app.carries env traffic) := by
  induction traffic generalizing all n app with
  | nil =>
    show Evicted (all ++ []) base (n + 0) app
    rwa [List.append_nil]
  | cons t traffic ih =>
    cases t with
    | push output =>
      have hnext := ih (h.push env output)
      rw [pushOutput_events, List.length_drop, List.length_append, List.length_singleton,
        List.append_assoc, Nat.add_assoc] at hnext
      exact hnext
    | trim =>
      have hnext := ih (h.trim env)
      rw [trimHistory_events, List.length_drop, Nat.add_assoc] at hnext
      exact hnext

/-! ### The scroll position -/

variable (env app) in
theorem trimHistory_scroll :
    (app.trimHistory env).scroll = if trimEvicts app.events.length = 0 then app.scroll else 0 := by
  unfold App.trimHistory trimEvicts
  split
  · rename_i hle
    rw [if_pos (Nat.sub_eq_zero_of_le hle)]
  · rename_i hlt
    rw [if_neg (by omega)]
    rfl

variable (env app) in
theorem pushOutput_scroll (output : Output) :
    (app.pushOutput env output).scroll
      = if pushEvicts app.events.length = 0 then app.scroll else 0 := by
  have hchunk : 0 < historyTrimChunk := by decide
  rw [pushOutput_eq]
  unfold pushEvicts
  split
  · rw [trimHistory_scroll, append_events, List.length_append, List.length_singleton]
    rfl
  · rfl

/-- Resetting the position at either of two evictions. -/
theorem reset_add (m n scroll : ℕ) :
    (if n = 0 then if m = 0 then scroll else 0 else 0) = if m + n = 0 then scroll else 0 := by
  split_ifs <;> omega

/-- **The position is kept until something is evicted**, and reset then. -/
theorem carries_scroll (traffic : List Traffic) :
    (app.carries env traffic).scroll
      = if evictions app.events.length traffic = 0 then app.scroll else 0 := by
  induction traffic generalizing app with
  | nil => rfl
  | cons t traffic ih =>
    rw [carries_cons, ih]
    cases t with
    | push output =>
      show (if evictions (app.pushOutput env output).events.length traffic = 0 then
        (app.pushOutput env output).scroll else 0) = _
      rw [pushOutput_scroll, reset_add, pushOutput_events, List.length_drop, List.length_append,
        List.length_singleton]
      rfl
    | trim =>
      show (if evictions (app.trimHistory env).events.length traffic = 0 then
        (app.trimHistory env).scroll else 0) = _
      rw [trimHistory_scroll, reset_add, trimHistory_events, List.length_drop]
      rfl

end Traffic

/-! ### The event on top -/

/-- The event on top, if there is one and it is still retained, is still on top: it has moved by as many
positions as there are records dropped. -/
def TopKept (app after : App) : Prop :=
  ∀ i, app.visible[app.scroll]? = some i →
    after.droppedEvents - app.droppedEvents ≤ i →
      after.visible[after.scroll]? = some (i - (after.droppedEvents - app.droppedEvents))

/-- For the event on top: nothing is evicted, or the event itself is, or every visible event before it. -/
def EvictsUpToTop (app : App) (traffic : List Traffic) : Prop :=
  ∀ i, app.visible[app.scroll]? = some i →
    let evicted := evictions app.events.length traffic
    evicted = 0 ∨ i < evicted ∨ ∀ j ∈ app.visible, evicted ≤ j → i ≤ j

/-- The first of an increasing list is its least member. -/
theorem head_iff_least {l : List ℕ} (hl : l.Pairwise (· < ·)) {m : ℕ} :
    l[0]? = some m ↔ m ∈ l ∧ ∀ j ∈ l, m ≤ j := by
  cases l with
  | nil => simp
  | cons n l =>
    have hleast : ∀ j ∈ n :: l, n ≤ j := by
      intro j hj
      rcases List.mem_cons.mp hj with rfl | hj
      · exact Nat.le_refl _
      · exact Nat.le_of_lt (List.rel_of_pairwise_cons hl hj)
    constructor
    · intro h
      obtain rfl := Option.some.inj h
      exact ⟨List.mem_cons_self .., hleast⟩
    · intro ⟨hmem, hall⟩
      have hmn := Nat.le_antisymm (hall n (List.mem_cons_self ..)) (hleast m hmem)
      rw [hmn]
      rfl

section Top

variable {fenv : FilterEnv} {filter : DisplayFilter} {events : List Output}

/-- What matches of the newest is what matches, moved. -/
theorem mem_matching_drop {k j : ℕ} :
    j ∈ matching fenv filter (events.drop k) ↔ k + j ∈ matching fenv filter events := by
  rw [mem_matching, mem_matching, List.getElem?_drop]

variable (fenv filter events) in
/-- What matches of the oldest matches. -/
theorem prefix_matching_append (more : List Output) :
    matching fenv filter events <+: matching fenv filter (events ++ more) := by
  induction more using List.reverseRecOn with
  | nil => rw [List.append_nil]
  | append_singleton more output ih =>
    rw [← List.append_assoc, matching_snoc]
    exact ih.trans (List.prefix_append _ _)

/-- An event is the first to match of the newest, if none before it matches. -/
theorem first_matching_iff {k i : ℕ} (hi : i ∈ matching fenv filter events) (hk : k ≤ i)
    (more : List Output) :
    (matching fenv filter ((events ++ more).drop k))[0]? = some (i - k) ↔
      ∀ j ∈ matching fenv filter events, k ≤ j → i ≤ j := by
  have hsubset := (prefix_matching_append fenv filter events more).subset
  have hlength : i < events.length := by
    obtain ⟨output, hget, _⟩ := mem_matching.mp hi
    exact (List.getElem?_eq_some_iff.mp hget).1
  -- what stands before the end of the old events matches there already
  have hold : ∀ j ∈ matching fenv filter (events ++ more), j < events.length →
      j ∈ matching fenv filter events := by
    intro j hj hlt
    obtain ⟨output, hget, hmatches⟩ := mem_matching.mp hj
    rw [List.getElem?_append_left hlt] at hget
    exact mem_matching.mpr ⟨output, hget, hmatches⟩
  rw [head_iff_least (matching_sorted _ _)]
  constructor
  · intro ⟨_, hleast⟩ j hj hkj
    have hmem : j - k ∈ matching fenv filter ((events ++ more).drop k) := by
      rw [mem_matching_drop, Nat.add_sub_cancel' hkj]
      exact hsubset hj
    have hle := hleast _ hmem
    omega
  · intro hfirst
    refine ⟨?_, ?_⟩
    · rw [mem_matching_drop, Nat.add_sub_cancel' hk]
      exact hsubset hi
    · intro j hj
      rw [mem_matching_drop] at hj
      by_cases hlt : k + j < events.length
      · have hle := hfirst _ (hold _ hj hlt) (Nat.le_add_right _ _)
        omega
      · omega

end Top

/-! ### When it stays -/

section Kept

variable {env : AppEnv} {app : App}

variable (env app) in
theorem carries_droppedEvents (traffic : List Traffic) :
    (app.carries env traffic).droppedEvents - app.droppedEvents
      = evictions app.events.length traffic := by
  have hevicted := carries_evicted env (evicted_start app) traffic
  rw [hevicted.droppedEvents, Nat.zero_add, Nat.add_sub_cancel_left]

theorem carries_visible (hshown : Shown env.filter app) (traffic : List Traffic) :
    (app.carries env traffic).visible = matching env.filter app.filter
      ((app.events ++ pushed traffic).drop (evictions app.events.length traffic)) := by
  have hevicted := carries_evicted env (evicted_start app) traffic
  have hafter := carries_shown hshown traffic
  rw [Shown, hevicted.events, Nat.zero_add, (carries_controls traffic).filter] at hafter
  exact hafter

/-- **The event on top stays exactly where** traffic evicts nothing, or the event itself, or all that is
visible before it. -/
theorem carries_topKept (hshown : Shown env.filter app) (traffic : List Traffic) :
    TopKept app (app.carries env traffic) ↔ EvictsUpToTop app traffic := by
  rw [TopKept, carries_droppedEvents, carries_scroll, carries_visible hshown]
  refine forall₂_congr fun i hi => ?_
  have hmem : i ∈ matching env.filter app.filter app.events := by
    have hvisible := List.mem_of_getElem? hi
    rwa [hshown] at hvisible
  by_cases hzero : evictions app.events.length traffic = 0
  · have htop : (matching env.filter app.filter (app.events ++ pushed traffic))[app.scroll]? = some i := by
      obtain ⟨later, hlater⟩ := prefix_matching_append env.filter app.filter app.events (pushed traffic)
      rw [hshown] at hi
      rw [← hlater, List.getElem?_append_left (List.getElem?_eq_some_iff.mp hi).1, hi]
    rw [hzero, if_pos rfl, List.drop_zero]
    exact ⟨fun _ => .inl rfl, fun _ _ => htop⟩
  · rw [if_neg hzero]
    by_cases hk : evictions app.events.length traffic ≤ i
    · have hfirst := first_matching_iff hmem hk (pushed traffic)
      rw [← hshown] at hfirst
      constructor
      · intro h
        exact .inr (.inr (hfirst.mp (h hk)))
      · intro h _
        refine hfirst.mpr ?_
        rcases h with hnone | hgone | hall
        · exact absurd hnone hzero
        · exact absurd hgone (Nat.not_lt.mpr hk)
        · exact hall
    · exact ⟨fun _ => .inr (.inl (Nat.not_le.mp hk)), fun _ h => absurd h hk⟩

/-- The highest scroll position of a log of some rows. -/
def App.maxScroll (app : App) (logH : ℕ) : ℕ :=
  if app.wrap || app.rich then app.visible.length - 1 else app.visible.length - logH

/-- With follow off the clamp of the next turn does not matter: traffic leaves the position in range. -/
theorem clampScroll_carries (hshown : Shown env.filter app) (hfollow : app.follow = false)
    (traffic : List Traffic) {logH : ℕ} (hscroll : app.scroll ≤ app.maxScroll logH) :
    (app.carries env traffic).clampScroll logH = app.carries env traffic := by
  have hcontrols : SameControls app (app.carries env traffic) := carries_controls traffic
  have hle : (app.carries env traffic).scroll ≤ (app.carries env traffic).maxScroll logH := by
    rw [carries_scroll]
    split
    · rename_i hzero
      have hlength : app.visible.length ≤ (app.carries env traffic).visible.length := by
        rw [carries_visible hshown, hzero, List.drop_zero, hshown]
        exact (prefix_matching_append _ _ _ _).length_le
      unfold App.maxScroll at hscroll ⊢
      rw [hcontrols.wrap, hcontrols.rich]
      split_ifs at hscroll ⊢ <;> omega
    · exact Nat.zero_le _
  show { app.carries env traffic with
    scroll := min (if (app.carries env traffic).follow then (app.carries env traffic).maxScroll logH
      else (app.carries env traffic).scroll) ((app.carries env traffic).maxScroll logH) } = _
  rw [hcontrols.follow, hfollow, if_neg Bool.false_ne_true, Nat.min_eq_left hle]

end Kept

/-- **With follow off, new traffic does not move the viewport** exactly where it evicts nothing, or the
event on top itself, or all that is visible before it; the clamp of the next turn makes no difference. -/
theorem viewport_kept_iff (fenv : FilterEnv) (senv : SessionEnv) (mode : String) (metrics : Metrics)
    (rich : Bool) (filter : DisplayFilter) (splashLines : List String) (recorder : Option SessionWriter)
    (inputs : List (Io × Event)) (faults : WriteFaults) (traffic : List Traffic) :
    let app := (run (appStep fenv senv) (App.started mode metrics rich filter splashLines recorder)
      inputs).1
    let after := app.carries ⟨fenv, faults⟩ traffic
    app.follow = false →
      (TopKept app after ↔ EvictsUpToTop app traffic) ∧
        ∀ logH, app.scroll ≤ app.maxScroll logH →
          (TopKept app (after.clampScroll logH) ↔ EvictsUpToTop app traffic) := by
  intro app after hfollow
  have hstart : Shown fenv (App.started mode metrics rich filter splashLines recorder) := rfl
  have hshown : Shown fenv app :=
    run_invariant (appStep fenv senv) (fun _ app _ => Shown fenv app) hstart
      (fun _ _ _ input h => appStep_shown h input) inputs
  have hkept : TopKept app after ↔ EvictsUpToTop app traffic :=
    @carries_topKept ⟨fenv, faults⟩ _ hshown traffic
  refine ⟨hkept, ?_⟩
  intro logH hscroll
  have hclamp : after.clampScroll logH = after :=
    @clampScroll_carries ⟨fenv, faults⟩ _ hshown hfollow traffic _ hscroll
  rw [hclamp]
  exact hkept

/-! ### A full history -/

/-- Some records arrive, and then the view is scrolled to the third. -/
def scrolledInputs (n : ℕ) : List (Io × Event) :=
  [(quietIo, .turn (List.replicate n (.line "valid")) 10), (quietIo, .key 10 ⟨.char 'g', false⟩),
    (quietIo, .key 10 ⟨.char 'j', false⟩), (quietIo, .key 10 ⟨.char 'j', false⟩)]

def scrolledApp (n : ℕ) : App :=
  (run (appStep plainFilterEnv writeOnlyEnv) (App.started "pcap" Metrics.new false {} [] none)
    (scrolledInputs n)).1

/-- The application before it is scrolled. -/
def filledApp (n : ℕ) : App :=
  App.turn ⟨plainFilterEnv, quietIo.faults⟩ (App.started "pcap" Metrics.new false {} [] none)
    (List.replicate n (.line "valid")) 10

theorem matching_replicate_line (fenv : FilterEnv) (filter : DisplayFilter) (text : String) (n : ℕ) :
    matching fenv filter (List.replicate n (.line text)) = List.range n := by
  induction n with
  | zero => rfl
  | succ n ih =>
    rw [List.replicate_succ', matching_snoc, ih, List.length_replicate, List.range_succ]
    rfl

/-- A key in the view, where no text is edited. -/
theorem handleKey_view {senv : SessionEnv} {io : Io} {env : AppEnv} {app : App} (logH : ℕ)
    {key : KeyEvent} (hkey : key.ctrl = false) (hcommand : app.commandEditing = false)
    (hsplash : app.showSplash = false) (hfilter : app.filterEditing = false) :
    app.handleKey senv io env logH key = app.viewKey env logH key := by
  simp [App.handleKey, hkey, hcommand, hsplash, hfilter]

theorem filledApp_history {n : ℕ} (hn : n ≤ historyCap) :
    (filledApp n).events = List.replicate n (.line "valid") ∧
      (filledApp n).visible = List.range n := by
  have htrimmed : Trimmed ([] ++ List.replicate n (.line "valid"))
      (App.frame ⟨plainFilterEnv, quietIo.faults⟩ (App.started "pcap" Metrics.new false {} [] none)
        (List.replicate n (.line "valid"))) :=
    (new_trimmed "pcap" Metrics.new false {} []).1.frame _
  have hevents : (filledApp n).events = List.replicate n (.line "valid") := by
    obtain ⟨hretains, hdropped⟩ := htrimmed
    have hframe := hretains.events
    rw [hdropped, List.nil_append, List.length_replicate, Nat.sub_eq_zero_of_le hn,
      List.drop_zero] at hframe
    exact hframe
  have hstart : Shown plainFilterEnv (App.started "pcap" Metrics.new false {} [] none) := rfl
  have hshown : Shown plainFilterEnv (filledApp n) :=
    @turn_shown ⟨plainFilterEnv, quietIo.faults⟩ _ hstart _ 10
  rw [Shown, hevents, matching_replicate_line] at hshown
  exact ⟨hevents, hshown⟩

/-- Scrolled by hand to a position. -/
def App.scrolledTo (app : App) (scroll : ℕ) : App := { app with follow := false, scroll }

theorem scrolledApp_eq (n : ℕ) : scrolledApp n = (filledApp n).scrolledTo 2 := by
  have hcontrols : SameControls (App.started "pcap" Metrics.new false {} [] none) (filledApp n) :=
    turn_controls _ _ _ 10
  have hcommand : (filledApp n).commandEditing = false := hcontrols.commandEditing
  have hsplash : (filledApp n).showSplash = false := hcontrols.splash rfl
  have hfilter : (filledApp n).filterEditing = false := hcontrols.filterEditing
  have hg : ((filledApp n).handleKey writeOnlyEnv quietIo ⟨plainFilterEnv, quietIo.faults⟩ 10
      ⟨.char 'g', false⟩).1 = (filledApp n).scrolledTo 0 := by
    rw [handleKey_view 10 rfl hcommand hsplash hfilter]
    rfl
  have hj : ∀ scroll, (((filledApp n).scrolledTo scroll).handleKey writeOnlyEnv quietIo
      ⟨plainFilterEnv, quietIo.faults⟩ 10 ⟨.char 'j', false⟩).1
        = (filledApp n).scrolledTo (scroll + 1) := by
    intro scroll
    rw [@handleKey_view _ _ _ ((filledApp n).scrolledTo scroll) 10 _ rfl hcommand hsplash hfilter]
    rfl
  show (App.handleKey writeOnlyEnv quietIo ⟨plainFilterEnv, quietIo.faults⟩
    (App.handleKey writeOnlyEnv quietIo ⟨plainFilterEnv, quietIo.faults⟩
      ((filledApp n).handleKey writeOnlyEnv quietIo ⟨plainFilterEnv, quietIo.faults⟩ 10
        ⟨.char 'g', false⟩).1 10 ⟨.char 'j', false⟩).1 10 ⟨.char 'j', false⟩).1 = _
  rw [hg, hj, hj]

theorem scrolledApp_facts {n : ℕ} (hn : n ≤ historyCap) :
    (scrolledApp n).follow = false ∧ (scrolledApp n).events.length = n ∧
      (scrolledApp n).visible = List.range n ∧ (scrolledApp n).scroll = 2 ∧
      Shown plainFilterEnv (scrolledApp n) := by
  obtain ⟨hevents, hvisible⟩ := filledApp_history hn
  have hstart : Shown plainFilterEnv (App.started "pcap" Metrics.new false {} [] none) := rfl
  have hshown : Shown plainFilterEnv ((filledApp n).scrolledTo 2) :=
    @turn_shown ⟨plainFilterEnv, quietIo.faults⟩ _ hstart _ 10
  rw [scrolledApp_eq]
  refine ⟨rfl, ?_, hvisible, rfl, hshown⟩
  show (filledApp n).events.length = n
  rw [hevents, List.length_replicate]

/-- With a full history of visible events, the third of them on top, one record and a trim evict the
first event, and the second comes on top. -/
theorem topKept_fails (env : AppEnv) {app : App} (hshown : Shown env.filter app)
    (hlength : app.events.length = historyCap) (hvisible : app.visible = List.range historyCap)
    (hscroll : app.scroll = 2) (output : Output) :
    app.visible[app.scroll]? = some 2 ∧
      (app.carries env [.push output, .trim]).droppedEvents - app.droppedEvents = 1 ∧
      (app.carries env [.push output, .trim]).scroll = 0 ∧
      ¬TopKept app (app.carries env [.push output, .trim]) := by
  have htop : app.visible[app.scroll]? = some 2 := by
    rw [hvisible, hscroll]
    exact List.getElem?_range (by decide)
  have hone : evictions app.events.length [.push output, .trim] = 1 := by
    rw [hlength]
    simp [evictions, pushEvicts, trimEvicts, historyCap, historyTrimChunk]
  refine ⟨htop, ?_, ?_, ?_⟩
  · rw [carries_droppedEvents, hone]
  · rw [carries_scroll, hone]
    rfl
  · rw [carries_topKept hshown]
    intro hstays
    have hcases := hstays 2 htop
    dsimp only at hcases
    rw [hone] at hcases
    rcases hcases with hzero | hgone | hall
    · cases hzero
    · omega
    · have hmem : 1 ∈ app.visible := by
        rw [hvisible]
        exact List.mem_range.mpr (by decide)
      have hle := hall 1 hmem (Nat.le_refl 1)
      omega

/-- **One record over a full history moves the viewport**: the third event is on top and is retained,
and the view jumps to the oldest. -/
theorem viewport_moves :
    (scrolledApp historyCap).follow = false ∧
      (scrolledApp historyCap).visible[(scrolledApp historyCap).scroll]? = some 2 ∧
      let after := (scrolledApp historyCap).carries ⟨plainFilterEnv, quietIo.faults⟩
        [.push (.line "late"), .trim]
      after.droppedEvents - (scrolledApp historyCap).droppedEvents = 1 ∧ after.scroll = 0 ∧
        ¬TopKept (scrolledApp historyCap) after := by
  obtain ⟨hfollow, hlength, hvisible, hscroll, hshown⟩ := scrolledApp_facts (Nat.le_refl historyCap)
  exact ⟨hfollow, topKept_fails ⟨plainFilterEnv, quietIo.faults⟩ hshown hlength hvisible hscroll _⟩

/-- Over a history of three records nothing moves. -/
theorem viewport_kept_iff_scrolled :
    TopKept (scrolledApp 3)
        ((scrolledApp 3).carries ⟨plainFilterEnv, quietIo.faults⟩ [.push (.line "late"), .trim]) ↔
      EvictsUpToTop (scrolledApp 3) [.push (.line "late"), .trim] :=
  (viewport_kept_iff plainFilterEnv writeOnlyEnv "pcap" Metrics.new false {} [] none (scrolledInputs 3)
    quietIo.faults [.push (.line "late"), .trim] (scrolledApp_facts (by decide)).1).1

end Tapgres.Tui
