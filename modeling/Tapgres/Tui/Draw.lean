import Tapgres.Tui.Visible
import Tapgres.Tui.Window

/-!
# Drawing the log

What `draw` slices the visible list by, in the plain view a fixed number of rows and otherwise a row
window, and why it is never out of range: a turn of the loop clamps the scroll position, and whatever
happens between the turns the visible list has positions of retained events.

* `viewWindow_bounds` — wrapped or not, the row window is one of the visible list;
* `viewWindow_none` — there is one, unless a line to be wrapped does not render;
* `draw_in_bounds` — at every draw of the log the window is in range.
-/

namespace Tapgres.Tui

open Tapgres.Decode Tapgres.Filter Tapgres.State Tapgres.Session Tapgres.Lib Tapgres.Lib.Run

/-- The rows a terminal leaves for the log: its chrome takes ten, and one is always left. -/
def logHeight (termH : ℕ) : ℕ := max (termH - 10) 1

def App.view (app : App) : View := ⟨app.rich, app.wrap⟩

/-- What `draw` slices the visible list by. -/
def App.window (lineCount : List Line → ℕ → ℕ) (app : App) (logH width : ℕ) : Option (ℕ × ℕ) :=
  if app.wrap || app.rich then
    viewWindow lineCount app.events app.visible app.scroll app.follow logH width app.view
  else some (app.scroll, min (app.scroll + logH) app.visible.length)

/-! ### The row window -/

section Window

variable {lineCount : List Line → ℕ → ℕ} {height : ℕ → Option ℕ} {mark : ℕ → ℕ}
  {logH rows last width : ℕ} {items : List (ℕ × ℕ)}

/-- The loop keeps the position of an item, or the one it was given. -/
theorem fillRows_mem {kept : ℕ} (h : fillRows height mark logH rows last items = some kept) :
    kept = last ∨ ∃ item ∈ items, kept = mark item.2 := by
  induction items generalizing rows last with
  | nil => exact .inl (Option.some.inj h).symm
  | cons item items ih =>
    obtain ⟨eventIndex, i⟩ := item
    obtain ⟨n, hn, h⟩ := Option.bind_eq_some_iff.mp h
    split at h
    · exact .inl (Option.some.inj h).symm
    split at h
    · exact .inr ⟨_, List.mem_cons_self .., (Option.some.inj h).symm⟩
    · rcases ih h with hlast | ⟨item, hitem, hkept⟩
      · exact .inr ⟨_, List.mem_cons_self .., hlast⟩
      · exact .inr ⟨item, List.mem_cons_of_mem _ hitem, hkept⟩

/-- It fails only at an item that has no height. -/
theorem fillRows_none (h : fillRows height mark logH rows last items = none) :
    ∃ item ∈ items, height item.1 = none := by
  induction items generalizing rows last with
  | nil => cases h
  | cons item items ih =>
    obtain ⟨eventIndex, i⟩ := item
    cases hheight : height eventIndex with
    | none => exact ⟨_, List.mem_cons_self .., hheight⟩
    | some n =>
      rw [fillRows, hheight, Option.bind_eq_bind, Option.bind_some] at h
      split at h
      · cases h
      split at h
      · cases h
      · obtain ⟨item, hitem, hnone⟩ := ih h
        exact ⟨item, List.mem_cons_of_mem _ hitem, hnone⟩

/-- The positions from `scroll` on. -/
theorem mem_drop_zipIdx {visible : List ℕ} {scroll : ℕ} {item : ℕ × ℕ}
    (h : item ∈ visible.zipIdx.drop scroll) : scroll ≤ item.2 ∧ item.2 < visible.length := by
  obtain ⟨k, hk⟩ := List.mem_iff_getElem?.mp h
  rw [List.getElem?_drop, List.getElem?_zipIdx] at hk
  obtain ⟨i, hi, rfl⟩ := Option.map_eq_some_iff.mp hk
  obtain ⟨hlt, _⟩ := List.getElem?_eq_some_iff.mp hi
  show scroll ≤ 0 + (scroll + k) ∧ 0 + (scroll + k) < visible.length
  omega

variable {events : List Output} {visible : List ℕ} {scroll : ℕ} {follow : Bool} {view : View}

/-- **Wrapped or not, the row window is one of the visible list.** -/
theorem viewWindow_bounds (hscroll : scroll ≤ visible.length) {start stop : ℕ}
    (h : viewWindow lineCount events visible scroll follow logH width view = some (start, stop)) :
    start ≤ stop ∧ stop ≤ visible.length := by
  unfold viewWindow at h
  dsimp only at h
  split at h
  · cases h
    exact ⟨Nat.le_refl _, Nat.zero_le _⟩
  split at h
  · obtain ⟨kept, hkept, h⟩ := Option.map_eq_some_iff.mp h
    cases h
    rcases fillRows_mem hkept with hlast | ⟨item, hitem, hmark⟩
    · exact ⟨Nat.le_of_eq hlast, Nat.le_refl _⟩
    · have hlt := List.snd_lt_of_mem_zipIdx (List.mem_reverse.mp hitem)
      rw [hmark]
      exact ⟨Nat.le_of_lt hlt, Nat.le_refl _⟩
  · obtain ⟨kept, hkept, h⟩ := Option.map_eq_some_iff.mp h
    cases h
    rcases fillRows_mem hkept with hlast | ⟨item, hitem, hmark⟩
    · rw [hlast]
      exact ⟨Nat.le_refl _, hscroll⟩
    · have hbounds := mem_drop_zipIdx hitem
      omega

/-- **There is a row window**, unless a line that is to be wrapped does not render. -/
theorem viewWindow_none (hindices : ∀ i ∈ visible, i < events.length)
    (h : viewWindow lineCount events visible scroll follow logH width view = none) :
    view.wrap = true ∧ ∃ i ∈ visible, ∃ evt, events[i]? = some evt ∧ eventLines evt view = none := by
  have hnone : ∃ i ∈ visible, heightAt lineCount events width view i = none := by
    unfold viewWindow at h
    dsimp only at h
    split at h
    · cases h
    split at h
    · obtain ⟨item, hitem, hnone⟩ := fillRows_none (Option.map_eq_none_iff.mp h)
      exact ⟨item.1, List.fst_mem_of_mem_zipIdx (List.mem_reverse.mp hitem), hnone⟩
    · obtain ⟨item, hitem, hnone⟩ := fillRows_none (Option.map_eq_none_iff.mp h)
      exact ⟨item.1, List.fst_mem_of_mem_zipIdx (List.mem_of_mem_drop hitem), hnone⟩
  obtain ⟨i, hi, hnone⟩ := hnone
  have hlt := hindices i hi
  have hevt : events[i]? = some events[i] := List.getElem?_eq_getElem hlt
  rw [heightAt, hevt, Option.bind_eq_bind, Option.bind_some] at hnone
  obtain ⟨hwrap, hlines⟩ := eventHeight_of_eventLines hnone
  exact ⟨hwrap, i, hi, _, hevt, hlines⟩

end Window

/-! ### Every draw -/

theorem clampScroll_scroll_le (app : App) (logH : ℕ) :
    (app.clampScroll logH).scroll ≤ (app.clampScroll logH).visible.length := by
  refine Nat.le_trans (Nat.min_le_right _ _) ?_
  show (if app.wrap || app.rich then app.visible.length - 1 else app.visible.length - logH)
    ≤ app.visible.length
  split <;> exact Nat.sub_le _ _

theorem lt_length_of_shown {fenv : FilterEnv} {app : App} (h : Shown fenv app) :
    ∀ i ∈ app.visible, i < app.events.length := by
  intro i hi
  rw [h] at hi
  obtain ⟨output, hget, _⟩ := mem_matching.mp hi
  exact (List.getElem?_eq_some_iff.mp hget).1

section Draw

variable (lineCount : List Line → ℕ → ℕ) {app : App} (logH width : ℕ)

theorem window_bounds (hscroll : app.scroll ≤ app.visible.length) {start stop : ℕ}
    (h : app.window lineCount logH width = some (start, stop)) :
    start ≤ stop ∧ stop ≤ app.visible.length := by
  unfold App.window at h
  split at h
  · exact viewWindow_bounds hscroll h
  · cases h
    exact ⟨Nat.le_min.mpr ⟨Nat.le_add_right _ _, hscroll⟩, Nat.min_le_right _ _⟩

theorem window_none (hindices : ∀ i ∈ app.visible, i < app.events.length)
    (h : app.window lineCount logH width = none) :
    app.wrap = true ∧ ∃ i ∈ app.visible, ∃ evt, app.events[i]? = some evt ∧
      eventLines evt app.view = none := by
  unfold App.window at h
  split at h
  · exact viewWindow_none hindices h
  · cases h

end Draw

/-- **Drawing never slices out of range**: whatever has happened to the application, at the draw of a
turn the visible list has positions of retained events, and the window lies within it, in the plain, the
wrapped and the rich view; there is a window, unless a line that is to be wrapped does not render. -/
theorem draw_in_bounds (lineCount : List Line → ℕ → ℕ) (fenv : FilterEnv) (senv : SessionEnv)
    (mode : String) (metrics : Metrics) (rich : Bool) (filter : DisplayFilter)
    (splashLines : List String) (recorder : Option SessionWriter) (inputs : List (Io × Event)) (io : Io)
    (arrived : List Output) (termH width : ℕ) :
    let before := (run (appStep fenv senv) (App.started mode metrics rich filter splashLines recorder)
      inputs).1
    let app := (appStep fenv senv before (io, .turn arrived (logHeight termH))).1
    (∀ i ∈ app.visible, i < app.events.length) ∧
      (∀ start stop, app.window lineCount (logHeight termH) width = some (start, stop) →
        start ≤ stop ∧ stop ≤ app.visible.length) ∧
      (app.window lineCount (logHeight termH) width = none → app.wrap = true ∧
        ∃ i ∈ app.visible, ∃ evt, app.events[i]? = some evt ∧ eventLines evt app.view = none) := by
  intro before app
  have hstart : Shown fenv (App.started mode metrics rich filter splashLines recorder) := rfl
  have hbefore : Shown fenv before :=
    run_invariant (appStep fenv senv) (fun _ app _ => Shown fenv app) hstart
      (fun _ _ _ input h => appStep_shown h input) inputs
  have hindices : ∀ i ∈ app.visible, i < app.events.length :=
    lt_length_of_shown (appStep_shown hbefore (io, .turn arrived (logHeight termH)))
  have hscroll : app.scroll ≤ app.visible.length := clampScroll_scroll_le _ _
  exact ⟨hindices, fun start stop h => window_bounds lineCount _ width hscroll h,
    fun h => window_none lineCount _ width hindices h⟩

end Tapgres.Tui
