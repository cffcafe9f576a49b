import Tapgres.Lib.Lines
import Tapgres.Lib.Utf8

/-!
# Rendering a record as a line

`build_line`, `build_header_line`, `parse_line` and `direction_split` of `tui.rs`.  A `&str` is the list
of its characters and every offset counts bytes; a slice at an offset that is no char boundary panics,
which is `none` here.  What is modelled is the ratatui `Line` that comes back: the contents of its spans and
their style.

* `parseLine_found` — the offsets found in a line whose tag is followed by a one-byte character, or by
  nothing;
* `buildLine_whole_iff` — of such a line nothing is lost unless it has newlines and is rendered in one style;
* `rendersExactly_iff` — rendering slices at boundaries and loses nothing in exactly the lines that meet
  both;
* `accent_after_tag` — a line that panics.
-/

namespace Tapgres.Tui

open Tapgres.Lib.Lines Tapgres.Lib.Utf8

inductive Color where
  | red
  | green
  | yellow
  | blue
  | cyan
  | magenta
  | darkGray
  deriving DecidableEq, Repr

structure Span where
  content : Str
  fg : Option Color
  bold : Bool
  deriving DecidableEq, Repr

/-- `Line::styled(line, …)`: the whole text in one style, in a span for each of its `str::lines`, without the
newlines. -/
def styled (line : Str) (fg : Option Color) : List Span :=
  (lines '\n' '\r' line).map fun l => ⟨l, fg, false⟩

def tagFB : Str := "[F→B]".toList
def tagBF : Str := "[B→F]".toList

/-- The direction tag of a line: its colour, and where it begins and ends. -/
def directionSplit (line : Str) : Option (Color × ℕ × ℕ) :=
  [(tagFB, Color.cyan), (tagBF, Color.magenta)].findSome? fun (tag, color) =>
    (find tag line).map fun start => (color, start, start + byteLen tag)

/-- The coloured segments of a decoded line `[ts] [F→B] Kind[: rest]`. -/
structure LineParts where
  color : Color
  prefixEnd : ℕ
  tagEnd : ℕ
  kindStart : ℕ
  kindEnd : ℕ
  deriving DecidableEq, Repr

/-- The outer `none` is a panic. -/
def parseLine (line : Str) : Option (Option LineParts) :=
  match directionSplit line with
  | none => some none
  | some (color, prefixEnd, tagEnd) =>
    -- skip the single space after the tag's closing bracket
    let kindStart := min (tagEnd + 1) (byteLen line)
    (sliceFrom line kindStart).map fun rest =>
      let kindEnd := ((find ": ".toList rest).map (kindStart + ·)).getD (byteLen line)
      some { color, prefixEnd, tagEnd, kindStart, kindEnd }

/-- The four spans both renderings begin with. -/
def headerSpans (line : Str) (p : LineParts) : Option (List Span) := do
  let before ← sliceTo line p.prefixEnd
  let tag ← slice line p.prefixEnd p.tagEnd
  let gap ← slice line p.tagEnd p.kindStart
  let kind ← slice line p.kindStart p.kindEnd
  return [⟨before, some .darkGray, false⟩, ⟨tag, some p.color, true⟩, ⟨gap, none, false⟩,
    ⟨kind, some p.color, true⟩]

/-- `None` is a panic. -/
def buildLine (line : Str) : Option (List Span) :=
  if line.contains '⚠' then some (styled line (some .red))
  else if (find "===".toList line).isSome then some (styled line (some .yellow))
  else
    (parseLine line).bind fun
      | none => some (styled line none)
      | some p => do
        let header ← headerSpans line p
        let rest ← sliceFrom line p.kindEnd
        return header ++ [⟨rest, none, false⟩]

/-- Like `buildLine` but stops after the message kind. -/
def buildHeaderLine (line : Str) : Option (List Span) :=
  (parseLine line).bind fun
    | none => some (styled line none)
    | some p => headerSpans line p

/-! ### What is asked of a line -/

/-- The offsets are char boundaries, in order, within the line. -/
structure LineParts.InBounds (line : Str) (p : LineParts) : Prop where
  boundaries : IsBoundary line p.prefixEnd ∧ IsBoundary line p.tagEnd ∧ IsBoundary line p.kindStart ∧
    IsBoundary line p.kindEnd
  ordered : p.prefixEnd ≤ p.tagEnd ∧ p.tagEnd ≤ p.kindStart ∧ p.kindStart ≤ p.kindEnd ∧
    p.kindEnd ≤ byteLen line

/-- No slice panics, the offsets found are in bounds, and the spans concatenate back to the line. -/
structure RendersExactly (line : Str) : Prop where
  parses : (parseLine line).isSome
  builds : (buildLine line).isSome ∧ (buildHeaderLine line).isSome
  parts : ∀ p, parseLine line = some (some p) → p.InBounds line
  whole : ∀ spans, buildLine line = some spans → (spans.map Span.content).flatten = line

/-- The first `[F→B]` of the line, or its first `[B→F]` if it has no `[F→B]`, stands behind `pre`. -/
def TagAt (line pre tag : Str) : Prop :=
  (tag = tagFB ∧ FirstAt tagFB pre line) ∨ (tag = tagBF ∧ ¬tagFB <:+: line ∧ FirstAt tagBF pre line)

/-- The character right behind the tag, if there is a tag and a character behind it, is one byte long. -/
def OneByteAfterTag (line : Str) : Prop :=
  ∀ pre tag c post, TagAt line pre tag → line = pre ++ tag ++ c :: post → c.utf8Size = 1

/-- `Line::styled` makes the line: it has a warning sign, a notice or no tag. -/
def InOneStyle (line : Str) : Prop :=
  '⚠' ∈ line ∨ "===".toList <:+: line ∨ (¬tagFB <:+: line ∧ ¬tagBF <:+: line)

/-! ### Finding the tag -/

theorem directionSplit_eq (line : Str) :
    directionSplit line =
      match find tagFB line with
      | some start => some (.cyan, start, start + byteLen tagFB)
      | none => (find tagBF line).map fun start => (.magenta, start, start + byteLen tagBF) := by
  rw [directionSplit]
  cases hfb : find tagFB line with
  | some start => simp [hfb]
  | none => cases hbf : find tagBF line <;> simp [hfb, hbf]

theorem directionSplit_found {line pre tag : Str} (h : TagAt line pre tag) :
    ∃ color, directionSplit line = some (color, byteLen pre, byteLen (pre ++ tag)) := by
  rw [directionSplit_eq]
  rcases h with ⟨rfl, hfirst⟩ | ⟨rfl, hno, hfirst⟩
  · rw [find_eq_some.mpr ⟨pre, hfirst, rfl⟩]
    exact ⟨.cyan, by rw [byteLen_append]⟩
  · rw [find_eq_none.mpr hno, find_eq_some.mpr ⟨pre, hfirst, rfl⟩]
    exact ⟨.magenta, by rw [byteLen_append]; rfl⟩

/-- Where a tag is found there is one. -/
theorem tagAt_of_directionSplit {line : Str} (h : directionSplit line ≠ none) :
    ∃ pre tag rest, TagAt line pre tag ∧ line = pre ++ tag ++ rest := by
  rw [directionSplit_eq] at h
  cases hfb : find tagFB line with
  | some start =>
    obtain ⟨pre, hfirst, _⟩ := find_eq_some.mp hfb
    obtain ⟨rest, hrest⟩ := hfirst.1
    exact ⟨pre, tagFB, rest, .inl ⟨rfl, hfirst⟩, hrest.symm⟩
  | none =>
    cases hbf : find tagBF line with
    | none => simp [hfb, hbf] at h
    | some start =>
      obtain ⟨pre, hfirst, _⟩ := find_eq_some.mp hbf
      obtain ⟨rest, hrest⟩ := hfirst.1
      exact ⟨pre, tagBF, rest, .inr ⟨rfl, find_eq_none.mp hfb, hfirst⟩, hrest.symm⟩

/-! ### The offsets -/

/-- **The offsets found**, when what follows the tag begins with a one-byte character or is empty: the
line falls into five pieces, and the offsets are where they meet. -/
theorem parseLine_found {line pre tag rest : Str} (htag : TagAt line pre tag)
    (hline : line = pre ++ tag ++ rest) (hone : ∀ c post, rest = c :: post → c.utf8Size = 1) :
    ∃ color gap kind more, line = pre ++ tag ++ gap ++ kind ++ more ∧
      parseLine line = some (some
        { color, prefixEnd := byteLen pre, tagEnd := byteLen (pre ++ tag)
          kindStart := byteLen (pre ++ tag ++ gap), kindEnd := byteLen (pre ++ tag ++ gap ++ kind) }) := by
  obtain ⟨color, hsplit⟩ := directionSplit_found htag
  rw [parseLine, hsplit]
  dsimp only
  cases rest with
  | nil =>
    rw [List.append_nil] at hline
    have hmin : min (byteLen (pre ++ tag) + 1) (byteLen line) = byteLen line := by
      rw [hline]
      omega
    have hslice := sliceFrom_append line []
    rw [List.append_nil] at hslice
    rw [hmin, hslice]
    exact ⟨color, [], [], [], by simpa using hline, by simp [find, hline]⟩
  | cons c post =>
    have hc := hone c post rfl
    have hgap : line = pre ++ tag ++ [c] ++ post := by simp [hline]
    have hmin : min (byteLen (pre ++ tag) + 1) (byteLen line) = byteLen (pre ++ tag ++ [c]) := by
      rw [hgap, byteLen_append _ post, byteLen_append _ [c], byteLen_cons, byteLen_nil, hc]
      omega
    rw [hmin, hgap, sliceFrom_append]
    cases hfind : find ": ".toList post with
    | none =>
      refine ⟨color, [c], post, [], by simp, ?_⟩
      simp only [Option.map_some, hfind, Option.map_none, Option.getD_none]
    | some n =>
      obtain ⟨kind, ⟨⟨more, hmore⟩, _⟩, rfl⟩ := find_eq_some.mp hfind
      refine ⟨color, [c], kind, ": ".toList ++ more, ?_, ?_⟩
      · rw [← hmore]
        simp
      · simp only [Option.map_some, hfind, Option.getD_some, byteLen_append]

/-- A longer character behind the tag makes the slice at `kind_start` panic. -/
theorem parseLine_panics {line pre tag post : Str} {c : Char} (htag : TagAt line pre tag)
    (hline : line = pre ++ tag ++ c :: post) (hc : c.utf8Size ≠ 1) : parseLine line = none := by
  obtain ⟨color, hsplit⟩ := directionSplit_found htag
  have hpos := c.utf8Size_pos
  have hmin : min (byteLen (pre ++ tag) + 1) (byteLen line) = byteLen (pre ++ tag) + 1 := by
    rw [hline, byteLen_append _ (c :: post), byteLen_cons]
    omega
  rw [parseLine, hsplit]
  dsimp only
  rw [hmin, sliceFrom, hline, splitAt_append, splitAt_inside post (by omega) (by omega)]
  rfl

theorem headerSpans_of_pieces (color : Color) (pre tag gap kind more : Str) :
    headerSpans (pre ++ tag ++ gap ++ kind ++ more)
        { color, prefixEnd := byteLen pre, tagEnd := byteLen (pre ++ tag)
          kindStart := byteLen (pre ++ tag ++ gap), kindEnd := byteLen (pre ++ tag ++ gap ++ kind) }
      = some [⟨pre, some .darkGray, false⟩, ⟨tag, some color, true⟩, ⟨gap, none, false⟩,
          ⟨kind, some color, true⟩] := by
  have hpre := sliceTo_append pre (tag ++ gap ++ kind ++ more)
  have htag := slice_append pre tag (gap ++ kind ++ more)
  have hgap := slice_append (pre ++ tag) gap (kind ++ more)
  have hkind := slice_append (pre ++ tag ++ gap) kind more
  rw [← byteLen_append] at htag hgap hkind
  simp only [← List.append_assoc] at hpre htag hgap hkind
  simp only [headerSpans, hpre, htag, hgap, hkind]
  rfl

theorem inBounds_of_pieces (color : Color) (pre tag gap kind more : Str) :
    LineParts.InBounds (pre ++ tag ++ gap ++ kind ++ more)
      { color, prefixEnd := byteLen pre, tagEnd := byteLen (pre ++ tag)
        kindStart := byteLen (pre ++ tag ++ gap), kindEnd := byteLen (pre ++ tag ++ gap ++ kind) } := by
  refine ⟨⟨?_, ?_, ?_, isBoundary_append _ _⟩, ?_⟩
  · exact ⟨pre, tag ++ gap ++ kind ++ more, by simp, rfl⟩
  · exact ⟨pre ++ tag, gap ++ kind ++ more, by simp, rfl⟩
  · exact ⟨pre ++ tag ++ gap, kind ++ more, by simp, rfl⟩
  · simp only [byteLen_append]
    omega

/-! ### Rendering -/

theorem directionSplit_eq_none {line : Str} :
    directionSplit line = none ↔ ¬tagFB <:+: line ∧ ¬tagBF <:+: line := by
  rw [directionSplit_eq, ← find_eq_none, ← find_eq_none]
  cases find tagFB line with
  | some start => simp
  | none => simp

theorem parseLine_of_no_tag {line : Str} (h : directionSplit line = none) : parseLine line = some none := by
  rw [parseLine, h]

theorem find_notice_isSome {line : Str} : (find "===".toList line).isSome ↔ "===".toList <:+: line := by
  rw [Option.isSome_iff_ne_none, Ne, find_eq_none, not_not]

theorem buildLine_inOneStyle {line : Str} (h : InOneStyle line) :
    ∃ fg, buildLine line = some (styled line fg) := by
  by_cases hwarning : '⚠' ∈ line
  · exact ⟨some .red, if_pos (List.contains_iff_mem.mpr hwarning)⟩
  · by_cases hnotice : "===".toList <:+: line
    · refine ⟨some .yellow, ?_⟩
      rw [buildLine, if_neg (mt List.contains_iff_mem.mp hwarning), if_pos (find_notice_isSome.mpr hnotice)]
    · have hno := (h.resolve_left hwarning).resolve_left hnotice
      refine ⟨none, ?_⟩
      rw [buildLine, if_neg (mt List.contains_iff_mem.mp hwarning),
        if_neg (mt find_notice_isSome.mp hnotice), parseLine_of_no_tag (directionSplit_eq_none.mpr hno)]
      rfl

/-- Text in one style loses its newlines. -/
theorem styled_whole_iff (line : Str) (fg : Option Color) :
    ((styled line fg).map Span.content).flatten = line ↔ '\n' ∉ line := by
  rw [styled, List.map_map, ← flatten_lines_iff]
  exact Eq.congr_left (congrArg List.flatten (List.map_id _))

section Pieces

variable {color : Color} {pre tag gap kind more : Str}
  (hparse : parseLine (pre ++ tag ++ gap ++ kind ++ more) = some (some
    { color, prefixEnd := byteLen pre, tagEnd := byteLen (pre ++ tag)
      kindStart := byteLen (pre ++ tag ++ gap), kindEnd := byteLen (pre ++ tag ++ gap ++ kind) }))
include hparse

theorem buildHeaderLine_of_pieces : buildHeaderLine (pre ++ tag ++ gap ++ kind ++ more)
    = some [⟨pre, some .darkGray, false⟩, ⟨tag, some color, true⟩, ⟨gap, none, false⟩,
        ⟨kind, some color, true⟩] := by
  rw [buildHeaderLine, hparse]
  exact headerSpans_of_pieces color pre tag gap kind more

/-- A line in pieces is rendered as these pieces, unless it is rendered in one style. -/
theorem buildLine_of_pieces (hstyles : ¬InOneStyle (pre ++ tag ++ gap ++ kind ++ more)) :
    buildLine (pre ++ tag ++ gap ++ kind ++ more)
      = some [⟨pre, some .darkGray, false⟩, ⟨tag, some color, true⟩, ⟨gap, none, false⟩,
          ⟨kind, some color, true⟩, ⟨more, none, false⟩] := by
  have hrest := sliceFrom_append (pre ++ tag ++ gap ++ kind) more
  rw [InOneStyle, not_or, not_or] at hstyles
  rw [buildLine, if_neg (mt List.contains_iff_mem.mp hstyles.1),
    if_neg (mt find_notice_isSome.mp hstyles.2.1), hparse]
  simp only [Option.bind_some, headerSpans_of_pieces, hrest]
  rfl

end Pieces

/-- A line whose tag has a one-byte character or nothing behind it, or that has none: nothing panics, and
the offsets found are in bounds. -/
theorem parseLine_inBounds {line : Str} (h : OneByteAfterTag line) :
    ∃ parts, parseLine line = some parts ∧ (∀ p, parts = some p → p.InBounds line) ∧
      (buildHeaderLine line).isSome ∧
      (¬InOneStyle line → ∃ spans, buildLine line = some spans ∧ (spans.map Span.content).flatten = line) := by
  by_cases hsplit : directionSplit line = none
  · have hparse := parseLine_of_no_tag hsplit
    refine ⟨none, hparse, fun p hp => (by cases hp), by rw [buildHeaderLine, hparse]; rfl, fun hstyles => ?_⟩
    exact absurd (.inr (.inr (directionSplit_eq_none.mp hsplit))) hstyles
  · obtain ⟨pre, tag, rest, htag, hline⟩ := tagAt_of_directionSplit hsplit
    obtain ⟨color, gap, kind, more, hpieces, hparse⟩ := parseLine_found htag hline
      fun c post hrest => h pre tag c post htag (hline.trans (by rw [hrest]))
    rw [hpieces] at hparse ⊢
    refine ⟨_, hparse, fun p hp => ?_, by rw [buildHeaderLine_of_pieces hparse]; rfl, fun hstyles => ?_⟩
    · cases hp
      exact inBounds_of_pieces color pre tag gap kind more
    · exact ⟨_, buildLine_of_pieces hparse hstyles, by simp⟩

/-- **Of a line nothing is lost** unless it is rendered in one style and has newlines. -/
theorem buildLine_whole_iff {line : Str} (h : OneByteAfterTag line) :
    (∃ spans, buildLine line = some spans ∧ (spans.map Span.content).flatten = line) ↔
      (InOneStyle line → '\n' ∉ line) := by
  by_cases hstyle : InOneStyle line
  · obtain ⟨fg, hbuild⟩ := buildLine_inOneStyle hstyle
    constructor
    · rintro ⟨spans, hspans, hwhole⟩ _
      obtain rfl := Option.some.inj (hspans.symm.trans hbuild)
      exact (styled_whole_iff line fg).mp hwhole
    · exact fun hno => ⟨_, hbuild, (styled_whole_iff line fg).mpr (hno hstyle)⟩
  · obtain ⟨_, _, _, _, hspans⟩ := parseLine_inBounds h
    exact iff_of_true (hspans hstyle) fun hin => absurd hin hstyle

/-- **Rendering is exact** in exactly the lines in which the character right behind the tag, if there is
one, is one byte long, and which have no newline if they are rendered in one style. -/
theorem rendersExactly_iff (line : Str) :
    RendersExactly line ↔ OneByteAfterTag line ∧ (InOneStyle line → '\n' ∉ line) := by
  constructor
  · intro h
    have hone : OneByteAfterTag line := by
      intro pre tag c post htag hline
      by_contra hc
      have hparses := h.parses
      rw [parseLine_panics htag hline hc] at hparses
      cases hparses
    obtain ⟨spans, hspans⟩ := Option.isSome_iff_exists.mp h.builds.1
    exact ⟨hone, (buildLine_whole_iff hone).mp ⟨spans, hspans, h.whole spans hspans⟩⟩
  · rintro ⟨hone, hnewline⟩
    obtain ⟨parts, hparse, hinBounds, hheader, _⟩ := parseLine_inBounds hone
    obtain ⟨spans, hspans, hwhole⟩ := (buildLine_whole_iff hone).mpr hnewline
    refine ⟨by rw [hparse]; rfl, ⟨by rw [hspans]; rfl, hheader⟩, fun p hp => ?_, fun spans' hspans' => ?_⟩
    · exact hinBounds p (Option.some.inj (hparse.symm.trans hp))
    · obtain rfl := Option.some.inj (hspans.symm.trans hspans')
      exact hwhole

example : (buildLine "a=== b\nc".toList).map (List.map Span.content) = some ["a=== b".toList, "c".toList] := by
  decide

/-- **A line that panics**: the tag is followed by a two-byte character. -/
theorem accent_after_tag : ¬RendersExactly "[F→B]é".toList := by
  intro h
  exact absurd h.parses (by decide)

end Tapgres.Tui
