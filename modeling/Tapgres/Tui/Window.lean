import Tapgres.Lib.Greedy
import Tapgres.Lib.Slice
import Tapgres.Tui.Rich

/-!
# The row window

`view_window` of `tui.rs`: the items of the visible list that a log of some rows is filled with, from the
newest backwards or from the scroll position on, and the lines they are drawn with.  An index that is
out of range panics, which is `none`.

* `fillRows_eq_fit` — either loop takes the items that fit;
* `view_window_whole_items` — the window has whole items, as many as fit, and as many lines as counted;
* `viewWindow_bounds` — wrapped or not, the window is one of the visible list.
-/

namespace Tapgres.Tui

open Tapgres.Decode Tapgres.Lib.Greedy Tapgres.Lib.Slice

section Code

variable (lineCount : List Line → ℕ → ℕ)

/-- The height of the event at an index. -/
def heightAt (events : List Output) (width : ℕ) (view : View) (eventIndex : ℕ) : Option ℕ := do
  let evt ← events[eventIndex]?
  eventHeight lineCount evt width view

/-- The loop of `view_window`, over event indices with their positions in the visible list: `last` is
what is kept of the item taken last, and `mark` what is kept of a position. -/
def fillRows (height : ℕ → Option ℕ) (mark : ℕ → ℕ) (logH : ℕ) :
    ℕ → ℕ → List (ℕ × ℕ) → Option ℕ
  | _, last, [] => some last
  | rows, last, (eventIndex, i) :: items => do
    let h ← height eventIndex
    if rows ≠ 0 ∧ rows + h > logH then return last
    if rows + h ≥ logH then return mark i
    fillRows height mark logH (rows + h) (mark i) items

def viewWindow (events : List Output) (visible : List ℕ) (scroll : ℕ) (follow : Bool)
    (logH width : ℕ) (view : View) : Option (ℕ × ℕ) :=
  let n := visible.length
  let height := heightAt lineCount events width view
  if n = 0 then some (0, 0)
  else if follow then
    (fillRows height id logH 0 n visible.zipIdx.reverse).map fun start => (start, n)
  else
    (fillRows height (· + 1) logH 0 scroll (visible.zipIdx.drop scroll)).map fun stop => (scroll, stop)

/-- The rows that the items of a window take. -/
def windowRows (events : List Output) (visible : List ℕ) (width : ℕ) (view : View) (start stop : ℕ) :
    Option ℕ := do
  let shown ← slice visible start stop
  let heights ← shown.mapM (heightAt lineCount events width view)
  return heights.sum

/-- The lines a window is drawn with. -/
def windowLines (events : List Output) (visible : List ℕ) (view : View) (start stop : ℕ) :
    Option (List Line) := do
  let shown ← slice visible start stop
  let lines ← shown.mapM fun eventIndex => do
    let evt ← events[eventIndex]?
    eventLines evt view
  return lines.flatten

end Code

/-! ### Either loop -/

section Fill

variable {height : ℕ → Option ℕ} {heights : ℕ → ℕ} {mark : ℕ → ℕ} (position : ℕ → ℕ)
  {logH rows last : ℕ} {items : List (ℕ × ℕ)}

/-- **The loop takes the items that fit**, and keeps the position they end at. -/
theorem fillRows_eq_fit (hheight : ∀ item ∈ items, height item.1 = some (heights item.1))
    (hlast : last = position 0)
    (hmark : ∀ k item, items[k]? = some item → mark item.2 = position (k + 1)) :
    fillRows height mark logH rows last items
      = some (position (fit logH rows (items.map fun item => heights item.1))) := by
  induction items generalizing rows last position with
  | nil =>
    rw [hlast]
    rfl
  | cons item items ih =>
    obtain ⟨eventIndex, i⟩ := item
    have hhead : height eventIndex = some (heights eventIndex) := hheight _ (List.mem_cons_self ..)
    have hi : mark i = position 1 := hmark 0 _ rfl
    rw [fillRows, hhead, List.map_cons]
    show (if rows ≠ 0 ∧ rows + heights eventIndex > logH then some last
      else if rows + heights eventIndex ≥ logH then some (mark i)
      else fillRows height mark logH (rows + heights eventIndex) (mark i) items) = _
    obtain ⟨hrows, hover⟩ | ⟨hfits, hfull⟩ | hroom := fit_cases logH rows (heights eventIndex)
    · rw [if_pos ⟨hrows, hover⟩, fit_skip hrows hover, hlast]
    · rw [if_neg (by omega), if_pos hfull, fit_last hfits hfull, hi]
    · rw [if_neg (by omega), if_neg (by omega), fit_more hroom]
      exact ih (fun k => position (k + 1))
        (fun item hitem => hheight item (List.mem_cons_of_mem _ hitem)) hi
        (fun k item hitem => hmark (k + 1) item hitem)

end Fill

/-- The events of the items, without their positions. -/
theorem map_zipIdx_fst (f : ℕ → ℕ) (visible : List ℕ) :
    visible.zipIdx.map (fun item => f item.1) = visible.map f := by
  have hmap : visible.zipIdx.map (fun item => f item.1) = (visible.zipIdx.map Prod.fst).map f :=
    (List.map_map ..).symm
  rw [hmap, List.zipIdx_map_fst]

section Window

variable {lineCount : List Line → ℕ → ℕ} {events : List Output} {visible : List ℕ}
  {heights : ℕ → ℕ} {scroll logH width : ℕ} {view : View}
  (hheight : ∀ i ∈ visible, heightAt lineCount events width view i = some (heights i))

include hheight

theorem viewWindow_follow (hne : visible ≠ []) :
    viewWindow lineCount events visible scroll true logH width view
      = some (visible.length - fit logH 0 (visible.map heights).reverse, visible.length) := by
  have hn : visible.length ≠ 0 := fun h => hne (List.eq_nil_of_length_eq_zero h)
  have hmark : ∀ k item, visible.zipIdx.reverse[k]? = some item →
      id item.2 = visible.length - (k + 1) := by
    intro k ⟨eventIndex, i⟩ hitem
    obtain ⟨hk, _⟩ := List.getElem?_eq_some_iff.mp hitem
    rw [List.length_reverse] at hk
    rw [List.getElem?_reverse hk, List.getElem?_zipIdx, List.length_zipIdx] at hitem
    obtain ⟨_, _, hpair⟩ := Option.map_eq_some_iff.mp hitem
    obtain ⟨_, hi⟩ := Prod.mk.inj hpair
    show i = _
    omega
  have hitems : ∀ item ∈ visible.zipIdx.reverse,
      heightAt lineCount events width view item.1 = some (heights item.1) := by
    intro item hitem
    exact hheight item.1 (List.fst_mem_of_mem_zipIdx (List.mem_reverse.mp hitem))
  have hfill : fillRows (heightAt lineCount events width view) id logH 0 visible.length
      visible.zipIdx.reverse
        = some (visible.length - fit logH 0 (visible.map heights).reverse) := by
    rw [← map_zipIdx_fst, ← List.map_reverse]
    exact fillRows_eq_fit (fun k => visible.length - k) hitems (Nat.sub_zero _).symm hmark
  rw [viewWindow, if_neg hn, if_pos rfl, hfill]
  rfl

theorem viewWindow_anchor (hne : visible ≠ []) :
    viewWindow lineCount events visible scroll false logH width view
      = some (scroll, scroll + fit logH 0 ((visible.map heights).drop scroll)) := by
  have hn : visible.length ≠ 0 := fun h => hne (List.eq_nil_of_length_eq_zero h)
  have hmark : ∀ k item, (visible.zipIdx.drop scroll)[k]? = some item →
      item.2 + 1 = scroll + (k + 1) := by
    intro k ⟨eventIndex, i⟩ hitem
    rw [List.getElem?_drop, List.getElem?_zipIdx] at hitem
    obtain ⟨_, _, hpair⟩ := Option.map_eq_some_iff.mp hitem
    obtain ⟨_, hi⟩ := Prod.mk.inj hpair
    show i + 1 = _
    omega
  have hitems : ∀ item ∈ visible.zipIdx.drop scroll,
      heightAt lineCount events width view item.1 = some (heights item.1) := by
    intro item hitem
    exact hheight item.1 (List.fst_mem_of_mem_zipIdx (List.mem_of_mem_drop hitem))
  have hfill : fillRows (heightAt lineCount events width view) (· + 1) logH 0 scroll
      (visible.zipIdx.drop scroll) = some (scroll + fit logH 0 ((visible.map heights).drop scroll)) := by
    rw [← map_zipIdx_fst, ← List.map_drop]
    exact fillRows_eq_fit (fun k => scroll + k) hitems rfl hmark
  rw [viewWindow, if_neg hn, if_neg Bool.false_ne_true, hfill]
  rfl

end Window

/-! ### What a window is drawn with -/

/-- Where one function succeeds so does the other, with what can be read off the first. -/
theorem mapM_of_mapM {α β γ : Type} {f : α → Option β} {g : α → Option γ} {k : β → γ} {xs : List α}
    {ys : List β} (hfg : ∀ x ∈ xs, ∀ y, f x = some y → g x = some (k y)) (h : xs.mapM f = some ys) :
    xs.mapM g = some (ys.map k) := by
  induction xs generalizing ys with
  | nil =>
    obtain rfl := Option.some.inj h
    rfl
  | cons x xs ih =>
    rw [List.mapM_cons] at h
    obtain ⟨y, hy, h⟩ := Option.bind_eq_some_iff.mp h
    obtain ⟨ys', hys, h⟩ := Option.bind_eq_some_iff.mp h
    obtain rfl := Option.some.inj h
    have hrest := ih (fun x hx => hfg x (List.mem_cons_of_mem _ hx)) hys
    rw [List.mapM_cons, hfg x (List.mem_cons_self ..) y hy, hrest]
    rfl

theorem exists_of_mapM_eq_none {α β : Type} {f : α → Option β} {xs : List α}
    (h : xs.mapM f = none) : ∃ x ∈ xs, f x = none := by
  induction xs with
  | nil => cases h
  | cons x xs ih =>
    cases hx : f x with
    | none => exact ⟨x, List.mem_cons_self .., hx⟩
    | some y =>
      rw [List.mapM_cons, hx, Option.bind_eq_bind, Option.bind_some] at h
      have hrest : xs.mapM f = none := by
        cases hxs : xs.mapM f with
        | none => rfl
        | some ys =>
          rw [hxs] at h
          cases h
      obtain ⟨x', hmem, hnone⟩ := ih hrest
      exact ⟨x', List.mem_cons_of_mem x hmem, hnone⟩

section Drawn

variable {lineCount : List Line → ℕ → ℕ} {events : List Output} {visible : List ℕ}
  {heights : ℕ → ℕ} {start stop width : ℕ} {view : View}

theorem windowRows_eq
    (hheight : ∀ i ∈ visible, heightAt lineCount events width view i = some (heights i))
    (hstart : start ≤ stop) (hstop : stop ≤ visible.length) :
    windowRows lineCount events visible width view start stop
      = some (((visible.map heights).take stop).drop start).sum := by
  have hshown : ((visible.take stop).drop start).mapM (heightAt lineCount events width view)
      = some (((visible.take stop).drop start).map heights) := by
    refine mapM_of_mapM (f := some) ?_ (List.mapM_pure.trans (congrArg some (List.map_id _)))
    intro i hi j hij
    obtain rfl := Option.some.inj hij
    exact hheight i (List.mem_of_mem_take (List.mem_of_mem_drop hi))
  rw [windowRows, slice_eq hstart hstop, Option.bind_eq_bind, Option.bind_some, hshown,
    List.map_drop, List.map_take]
  rfl

variable (lineCount width) in
/-- **As many lines are drawn as rows are counted**, where nothing is wrapped. -/
theorem windowLines_length (hwrap : view.wrap = false) {lines : List Line}
    (hlines : windowLines events visible view start stop = some lines) :
    windowRows lineCount events visible width view start stop = some lines.length := by
  obtain ⟨shown, hshown, hlines⟩ := Option.bind_eq_some_iff.mp hlines
  obtain ⟨rendered, hrendered, hlines⟩ := Option.bind_eq_some_iff.mp hlines
  obtain rfl := Option.some.inj hlines
  have hheights : shown.mapM (heightAt lineCount events width view)
      = some (rendered.map List.length) := by
    refine mapM_of_mapM ?_ hrendered
    intro i _ lines hi
    obtain ⟨evt, hevt, hi⟩ := Option.bind_eq_some_iff.mp hi
    rw [heightAt, hevt]
    exact eventLines_length hwrap hi
  rw [windowRows, hshown, Option.bind_eq_bind, Option.bind_some, hheights, List.length_flatten]
  rfl

/-- A window is drawn, or one of its events does not render. -/
theorem windowLines_cases (hindices : ∀ i ∈ visible, i < events.length) (hstart : start ≤ stop)
    (hstop : stop ≤ visible.length) :
    (∃ lines, windowLines events visible view start stop = some lines) ∨
      ∃ i ∈ (visible.take stop).drop start, ∃ evt, events[i]? = some evt ∧ eventLines evt view = none := by
  cases hlines : windowLines events visible view start stop with
  | some lines => exact .inl ⟨lines, rfl⟩
  | none =>
    rw [windowLines, slice_eq hstart hstop, Option.bind_eq_bind, Option.bind_some] at hlines
    have hrendered : ((visible.take stop).drop start).mapM (fun eventIndex => do
        let evt ← events[eventIndex]?
        eventLines evt view) = none := by
      cases hmapM : ((visible.take stop).drop start).mapM (fun eventIndex => do
          let evt ← events[eventIndex]?
          eventLines evt view) with
      | none => rfl
      | some rendered =>
        rw [hmapM] at hlines
        cases hlines
    obtain ⟨i, hi, hnone⟩ := exists_of_mapM_eq_none hrendered
    have hlt : i < events.length := hindices i (List.mem_of_mem_take (List.mem_of_mem_drop hi))
    rw [List.getElem?_eq_getElem hlt] at hnone
    exact .inr ⟨i, hi, events[i], List.getElem?_eq_getElem hlt, hnone⟩

end Drawn

/-! ### Whole items, as many as fit -/

section Fits

variable {lineCount : List Line → ℕ → ℕ} {events : List Output} {visible : List ℕ} {scroll : ℕ}
  {view : View}

theorem heightAt_of_lt (hwrap : view.wrap = false) (width : ℕ) {i : ℕ} (hi : i < events.length) :
    ∃ h, heightAt lineCount events width view i = some h ∧ 0 < h := by
  have hevt : events[i]? = some events[i] := List.getElem?_eq_getElem hi
  cases hheight : eventHeight lineCount events[i] width view with
  | some h => exact ⟨h, by rw [heightAt, hevt]; exact hheight, eventHeight_pos hheight⟩
  | none =>
    rw [(eventHeight_of_eventLines hheight).1] at hwrap
    cases hwrap

variable (lineCount) in
/-- Every visible event has a height, of one row at least. -/
theorem exists_heights (hwrap : view.wrap = false) (hindices : ∀ i ∈ visible, i < events.length)
    (width : ℕ) : ∃ heights : ℕ → ℕ,
      (∀ i ∈ visible, heightAt lineCount events width view i = some (heights i)) ∧
        ∀ w ∈ visible.map heights, 0 < w := by
  refine ⟨fun i => (heightAt lineCount events width view i).getD 0, ?_, ?_⟩
  · intro i hi
    obtain ⟨h, hheight, _⟩ := heightAt_of_lt hwrap width (hindices i hi)
    dsimp only
    rw [hheight, Option.getD_some]
  · intro w hw
    obtain ⟨i, hi, rfl⟩ := List.mem_map.mp hw
    obtain ⟨h, hheight, hpos⟩ := heightAt_of_lt hwrap width (hindices i hi)
    rw [hheight]
    exact hpos

/-- What is asked of any window that is filled with items: it is within the list, is drawn with as many
lines as it counts rows, and overflows the log with a single item only. -/
theorem window_of_fills {heights : ℕ → ℕ} {logH width start stop : ℕ} (hwrap : view.wrap = false)
    (hindices : ∀ i ∈ visible, i < events.length)
    (hheight : ∀ i ∈ visible, heightAt lineCount events width view i = some (heights i))
    (hfills : Fills logH (visible.map heights) start stop) :
    (start < stop ∧ stop ≤ visible.length) ∧
      windowRows lineCount events visible width view start stop
        = some (held (visible.map heights) start stop) ∧
      ((∃ lines, windowLines events visible view start stop = some lines ∧
          lines.length = held (visible.map heights) start stop) ∨
        ∃ i ∈ (visible.take stop).drop start, ∃ evt, events[i]? = some evt ∧
          eventLines evt view = none) ∧
      (held (visible.map heights) start stop ≤ logH ∨
        (stop = start + 1 ∧ logH < held (visible.map heights) start stop)) := by
  have hwithin := hfills.within
  rw [List.length_map] at hwithin
  have hordered : start ≤ stop := Nat.le_of_lt hfills.nonempty
  have hrows := windowRows_eq hheight hordered hwithin
  refine ⟨⟨hfills.nonempty, hwithin⟩, hrows, ?_, ?_⟩
  · rcases windowLines_cases hindices hordered hwithin with ⟨lines, hlines⟩ | hnone
    · have hlength := windowLines_length lineCount width hwrap hlines
      rw [hrows, Option.some.injEq] at hlength
      exact .inl ⟨lines, hlines, hlength.symm⟩
    · exact .inr hnone
  · have hfits := hfills.fits
    omega

theorem weight_of_heightAt {heights : ℕ → ℕ} {width next i h : ℕ}
    (hheight : ∀ i ∈ visible, heightAt lineCount events width view i = some (heights i))
    (hi : visible[next]? = some i) (hh : heightAt lineCount events width view i = some h) :
    (visible.map heights)[next]? = some h := by
  rw [hheight i (List.mem_of_getElem? hi)] at hh
  rw [List.getElem?_map, hi, Option.map_some, hh]

variable (lineCount) in
/-- **The row window shows whole items, as many as fit, and agrees with what is drawn**: it ends at the
newest item or begins at the scroll position, is drawn with as many lines as it counts rows, which are
within the log unless a single item is taller, and the next item would not fit. -/
theorem view_window_whole_items (hwrap : view.wrap = false)
    (hindices : ∀ i ∈ visible, i < events.length) (hscroll : scroll < visible.length)
    (follow : Bool) (logH width : ℕ) :
    ∃ start stop rows,
      viewWindow lineCount events visible scroll follow logH width view = some (start, stop) ∧
      (start < stop ∧ stop ≤ visible.length) ∧
      (if follow then stop = visible.length else start = scroll) ∧
      windowRows lineCount events visible width view start stop = some rows ∧
      ((∃ lines, windowLines events visible view start stop = some lines ∧ lines.length = rows) ∨
        ∃ i ∈ (visible.take stop).drop start, ∃ evt, events[i]? = some evt ∧
          eventLines evt view = none) ∧
      (rows ≤ logH ∨ (stop = start + 1 ∧ logH < rows)) ∧
      ∀ next i h, (if follow then next + 1 = start else next = stop) → visible[next]? = some i →
        heightAt lineCount events width view i = some h → logH < rows + h := by
  have hne : visible ≠ [] := List.ne_nil_of_length_pos (Nat.zero_lt_of_lt hscroll)
  obtain ⟨heights, hheight, hpos⟩ := exists_heights lineCount hwrap hindices width
  have hne' : visible.map heights ≠ [] := fun h => hne (List.map_eq_nil_iff.mp h)
  have hlen : (visible.map heights).length = visible.length := List.length_map heights
  cases follow with
  | true =>
    have hfills := fills_backward hpos logH hne'
    rw [hlen] at hfills
    obtain ⟨hbounds, hrows, hlines, hfits⟩ := window_of_fills hwrap hindices hheight hfills
    refine ⟨_, _, _, viewWindow_follow hheight hne, hbounds, rfl, hrows, hlines, hfits, ?_⟩
    intro next i h hnext hi hh
    rw [if_pos rfl] at hnext
    have hfull := full_backward hpos (by rw [hlen]; exact hnext) (weight_of_heightAt hheight hi hh)
    rwa [hlen] at hfull
  | false =>
    have hfills := fills_forward hpos logH (hlen ▸ hscroll)
    obtain ⟨hbounds, hrows, hlines, hfits⟩ := window_of_fills hwrap hindices hheight hfills
    refine ⟨_, _, _, viewWindow_anchor hheight hne, hbounds, rfl, hrows, hlines, hfits, ?_⟩
    intro next i h hnext hi hh
    rw [if_neg Bool.false_ne_true] at hnext
    rw [hnext] at hi
    exact full_forward hpos (weight_of_heightAt hheight hi hh)

/-- A message of three columns. -/
def threeColumns : Output :=
  .message
    { timestamp := "2026-07-17T12:34:56.789+01:00", rendered := "[DataRow] x"
      client := ⟨.v4 0x7f000001, 40005⟩, direction := .frontendToBackend, kind := "DataRow"
      text := "x" }
    (some (.dataRow [⟨"c0", 25, "'v'"⟩, ⟨"c1", 25, "'v'"⟩, ⟨"c2", 25, "'v'"⟩]))

/-- Two such messages of four rows each in five rows, from the newest one back. -/
theorem view_window_whole_items_threeColumns :
    ∃ start stop rows,
      viewWindow (fun _ _ => 0) [threeColumns, threeColumns] [0, 1] 0 true 5 80 ⟨true, false⟩
          = some (start, stop) ∧
        start < stop ∧ stop = 2 ∧ (rows ≤ 5 ∨ stop = start + 1) := by
  have hwrap : (View.mk true false).wrap = false := rfl
  have hindices : ∀ i ∈ [0, 1], i < [threeColumns, threeColumns].length := by decide
  have hscroll : 0 < [0, 1].length := by decide
  obtain ⟨start, stop, rows, hwindow, hbounds, hstop, _, _, hfits, _⟩ :=
    view_window_whole_items (fun _ _ => 0) hwrap hindices hscroll true 5 80
  exact ⟨start, stop, rows, hwindow, hbounds.1, hstop, hfits.imp_right And.left⟩

end Fits

end Tapgres.Tui
