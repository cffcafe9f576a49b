import Tapgres.Decode.Output
import Tapgres.Tui.Line

/-!
# The rows of an event

`event_lines`, `render_rich` and `event_height` of `tui.rs`: an event is one line, or in the rich view a
header and a row for each of its columns.  The wrapped height of a text is ratatui's, and a parameter.

* `renderRich_length`, `eventLines_length` — how many lines an event renders as;
* `eventHeight_of_not_wrap` — that is its height where nothing is wrapped.
-/

namespace Tapgres.Tui

open Tapgres.Decode Tapgres.Lib.Utf8

/-- A rendered line. -/
abbrev Line := List Span

/-- How the log is shown. -/
structure View where
  rich : Bool
  wrap : Bool
  deriving DecidableEq, Repr

def Span.raw (text : Str) : Span := ⟨text, none, false⟩

/-- Human-friendly type name for common PostgreSQL OIDs, falling back to the numeric OID. -/
def typeLabel (oid : ℕ) : String :=
  match oid with
  | 16 => "bool"
  | 17 => "bytea"
  | 18 => "char"
  | 19 => "name"
  | 20 => "int8"
  | 21 => "int2"
  | 23 => "int4"
  | 25 => "text"
  | 114 => "json"
  | 700 => "float4"
  | 701 => "float8"
  | 1043 => "varchar"
  | 1082 => "date"
  | 1114 => "timestamp"
  | 1184 => "timestamptz"
  | 1186 => "interval"
  | 1700 => "numeric"
  | 2950 => "uuid"
  | 3802 => "jsonb"
  | _ => "oid=" ++ toString oid

/-- Icon-font glyph for a column type, with a category colour. -/
def typeIcon (oid : ℕ) : Option (Char × Color) :=
  match oid with
  | 16 => some ('\uf00c', .green)
  | 20 | 21 | 23 => some ('\uf292', .yellow)
  | 700 | 701 | 1700 => some ('\uf1ec', .yellow)
  | 18 | 19 | 25 | 1042 | 1043 => some ('\uf031', .cyan)
  | 114 | 3802 => some ('\uf121', .magenta)
  | 2950 => some ('\uf577', .magenta)
  | 17 => some ('\uf1c0', .green)
  | 1082 => some ('\uf073', .cyan)
  | 1083 | 1114 | 1184 | 1186 | 1266 => some ('\uf017', .cyan)
  | _ => none

def typeSpans (oid : ℕ) : List Span :=
  let glyph :=
    match typeIcon oid with
    | some (g, color) => [⟨[g], some color, false⟩, Span.raw " ".toList]
    | none => []
  glyph ++ [⟨(typeLabel oid).toList, some .darkGray, false⟩]

/-- The name of a column in a rich row. -/
def keySpan (name : String) : Span := ⟨name.toList, some .blue, true⟩

def dataRowLine (c : DataColumn) : Line :=
  [Span.raw "   ".toList, keySpan c.name, Span.raw " = ".toList, Span.raw c.value.toList,
    Span.raw "  ".toList] ++ typeSpans c.typeOid

def rowDescriptionLine (f : FieldSummary) : Line :=
  [Span.raw "   ".toList, keySpan f.name, Span.raw "  ".toList] ++ typeSpans f.typeOid

/-- One row for each column. -/
def detailLines : EventDetail → List Line
  | .dataRow cols => cols.map dataRowLine
  | .rowDescription fields => fields.map rowDescriptionLine

/-- `None` is a panic, of the header. -/
def renderRich (text : Str) (detail : EventDetail) : Option (List Line) :=
  (buildHeaderLine text).map fun header => header :: detailLines detail

/-- `None` is a panic of the line or the header. -/
def eventLines (evt : Output) (view : View) : Option (List Line) :=
  match view.rich, evt.detail with
  | true, some detail => renderRich evt.rendered.toList detail
  | _, _ => (buildLine evt.rendered.toList).map fun line => [line]

/-- Display rows an event occupies: `lineCount` are those of a text wrapped at a width. -/
def eventHeight (lineCount : List Line → ℕ → ℕ) (evt : Output) (width : ℕ) (view : View) : Option ℕ :=
  if view.wrap then
    (eventLines evt view).map fun lines => max (lineCount lines (width % 2 ^ 16)) 1
  else if view.rich then
    match evt.detail with
    | some (.dataRow cols) => some (1 + cols.length)
    | some (.rowDescription fields) => some (1 + fields.length)
    | none => some 1
  else some 1

/-! ### Heights -/

theorem renderRich_length {text : Str} {detail : EventDetail} {lines : List Line}
    (h : renderRich text detail = some lines) : lines.length = 1 + (detailLines detail).length := by
  obtain ⟨header, _, rfl⟩ := Option.map_eq_some_iff.mp h
  rw [List.length_cons, Nat.add_comm]

variable {lineCount : List Line → ℕ → ℕ} {evt : Output} {width : ℕ} {view : View}

/-- **An event renders as many lines as its height**, where nothing is wrapped. -/
theorem eventLines_length (hwrap : view.wrap = false) {lines : List Line}
    (hlines : eventLines evt view = some lines) :
    eventHeight lineCount evt width view = some lines.length := by
  obtain ⟨rich, wrap⟩ := view
  obtain rfl : wrap = false := hwrap
  have hflat : (buildLine evt.rendered.toList).map (fun line => [line]) = some lines →
      lines.length = 1 := by
    intro h
    obtain ⟨line, _, rfl⟩ := Option.map_eq_some_iff.mp h
    rfl
  cases rich with
  | false => exact congrArg some (hflat hlines).symm
  | true =>
    show (match evt.detail with
      | some (.dataRow cols) => some (1 + cols.length)
      | some (.rowDescription fields) => some (1 + fields.length)
      | none => some 1) = _
    rw [eventLines] at hlines
    cases hdetail : evt.detail with
    | none =>
      rw [hdetail] at hlines
      exact congrArg some (hflat hlines).symm
    | some detail =>
      rw [hdetail] at hlines
      have hlength := renderRich_length hlines
      cases detail with
      | dataRow cols => rw [hlength, detailLines, List.length_map]
      | rowDescription fields => rw [hlength, detailLines, List.length_map]

/-- An event has a height of at least one row; it has none only if a line of it does not render. -/
theorem eventHeight_pos {h : ℕ} (hheight : eventHeight lineCount evt width view = some h) : 0 < h := by
  unfold eventHeight at hheight
  split at hheight
  · obtain ⟨lines, _, rfl⟩ := Option.map_eq_some_iff.mp hheight
    exact Nat.lt_of_lt_of_le Nat.one_pos (Nat.le_max_right _ _)
  · split at hheight
    · split at hheight
      all_goals
        obtain rfl := Option.some.inj hheight
        omega
    · obtain rfl := Option.some.inj hheight
      exact Nat.one_pos

theorem eventHeight_of_eventLines (h : eventHeight lineCount evt width view = none) :
    view.wrap = true ∧ eventLines evt view = none := by
  unfold eventHeight at h
  split at h
  · rename_i hwrap
    exact ⟨hwrap, Option.map_eq_none_iff.mp h⟩
  · split at h
    · split at h
      all_goals cases h
    · cases h

end Tapgres.Tui
