import Tapgres.Decode.Output
import Tapgres.Tui.Line

/-!
# What a line is taken for

The display does not know which record a line was rendered from: `build_line` searches the line for
`⚠`, for `===` and for the direction tags, and the text of the message is part of the line.

* `rendered_eq` — the line of a message, in pieces;
* `parseLine_messageLine` — the tag and the kind are found where the emitter put them;
* `classifiedAlike_iff` — two texts are displayed under one and the same header exactly if neither brings
  in a warning sign, a notice or, in a server's message, the client's tag;
* `text_reclassifies` — two rows of which the second is displayed as the client's.
-/

namespace Tapgres.Tui

open Tapgres.Lib.Utf8 Tapgres.Flow Tapgres.Decode

/-! ### The line of a message -/

/-- What `%H:%M:%S%.3f` writes consists of digits, colons and a point. -/
def IsClock (s : Str) : Prop := ∀ c ∈ s, c.isDigit ∨ c = ':' ∨ c = '.'

/-- A message kind: a word without spaces, colons or brackets. -/
def IsKind (s : Str) : Prop := ∀ c ∈ s, c ∉ " :[]".toList

def tagOf (role : Role) : Str := if role = .client then tagFB else tagBF

/-- The real colour of a direction. -/
def colorOf (role : Role) : Color := if role = .client then .cyan else .magenta

def clockStamp (clock : Str) : Str := '[' :: clock ++ "]".toList

/-- What stands behind the kind. -/
def behindKind (text : Str) : Str := if text = [] then [] else ':' :: ' ' :: text

def messageLine (role : Role) (clock kind text : Str) : Str :=
  clockStamp clock ++ " ".toList ++ tagOf role ++ " ".toList ++ kind ++ behindKind text

/-- The spans of timestamp, tag and kind: the tag and the kind in the colour of the real direction. -/
def messageHeader (role : Role) (clock kind : Str) : List Span :=
  [⟨clockStamp clock ++ " ".toList, some .darkGray, false⟩, ⟨tagOf role, some (colorOf role), true⟩,
    ⟨" ".toList, none, false⟩, ⟨kind, some (colorOf role), true⟩]

theorem rendered_eq (e : MessageEmitter) (now : LocalTime) (kind text : String)
    (detail : Option EventDetail) :
    (e.emitWithDetail now kind text detail).rendered.toList
      = messageLine e.role now.display.toList kind.toList text.toList := by
  have htag : ("[" ++ dirTag e.role ++ "]").toList = tagOf e.role := by
    cases e.role <;> rfl
  rw [String.toList_append, String.toList_append] at htag
  rw [MessageEmitter.emitWithDetail, Output.rendered, messageLine, ← htag, clockStamp, behindKind]
  by_cases htext : text = ""
  · subst htext
    simp
  · have hempty : text.isEmpty = false := by simpa using htext
    simp [hempty, htext]

/-- The separators stand between the pieces, so a pattern without them occurs in one of the pieces. -/
theorem infix_messageLine {pat : Str} (hpat : pat ≠ []) (hspace : ' ' ∉ pat) (hcolon : ':' ∉ pat)
    (role : Role) (clock kind text : Str) :
    pat <:+: messageLine role clock kind text ↔
      pat <:+: clockStamp clock ∨ pat <:+: tagOf role ∨ pat <:+: kind ∨ pat <:+: text := by
  have hline : messageLine role clock kind text
      = clockStamp clock ++ ' ' :: (tagOf role ++ ' ' :: (kind ++ behindKind text)) := by
    simp [messageLine]
  have hkind : pat <:+: kind ++ behindKind text ↔ pat <:+: kind ∨ pat <:+: text := by
    rw [behindKind]
    split
    · rename_i h
      simp [h, hpat]
    · have htext : pat <:+: ' ' :: text ↔ pat <:+: [] ∨ pat <:+: text := infix_append_cons (p := []) hspace
      rw [infix_append_cons hcolon, htext]
      simp [hpat]
  rw [hline, infix_append_cons hspace, infix_append_cons hspace, hkind]

/-! ### Where the tag and the kind are found -/

/-- Only digits and four other characters occur in the stamp. -/
theorem notMem_clockStamp {clock : Str} {c : Char} (hclock : IsClock clock) (hdigit : c.isDigit = false)
    (hc : c ∉ ":.[]".toList) : c ∉ clockStamp clock := by
  intro h
  rw [clockStamp, List.cons_append, List.mem_cons, List.mem_append] at h
  rcases h with rfl | h | h
  · exact hc (by decide)
  · rcases hclock c h with hd | rfl | rfl
    · rw [hdigit] at hd
      cases hd
    · exact hc (by decide)
    · exact hc (by decide)
  · rw [List.mem_singleton.mp h] at hc
    exact hc (by decide)

/-- Both tags contain the arrow, and no stamp does. -/
theorem not_tag_infix_clockStamp {clock tag : Str} (hclock : IsClock clock) (harrow : '→' ∈ tag) :
    ¬tag <:+: clockStamp clock :=
  fun h => notMem_clockStamp hclock (by decide) (by decide) (h.subset harrow)

theorem tagOf_first {role : Role} {clock : Str} (hclock : IsClock clock) (rest : Str) :
    FirstAt (tagOf role) (clockStamp clock ++ " ".toList)
      (clockStamp clock ++ " ".toList ++ tagOf role ++ rest) := by
  have harrow : '→' ∈ tagOf role ∧ ' ' ∉ tagOf role := by
    cases role <;> decide
  exact firstAt_of_separator harrow.2 (not_tag_infix_clockStamp hclock harrow.1)

/-- The tag searched for first is in the line of a client's message, or comes from a text. -/
theorem tagFB_infix_messageLine {clock kind : Str} (hclock : IsClock clock) (hkind : IsKind kind)
    (text : Str) : tagFB <:+: messageLine .server clock kind text ↔ tagFB <:+: text := by
  rw [infix_messageLine (by decide) (by decide) (by decide)]
  have hstamp : ¬tagFB <:+: clockStamp clock := not_tag_infix_clockStamp hclock (by decide)
  have htag : ¬tagFB <:+: tagOf .server := by
    decide
  have hword : ¬tagFB <:+: kind :=
    fun h => hkind '[' (h.subset (by decide)) (by decide)
  simp only [hstamp, htag, hword, false_or]

theorem directionSplit_messageLine {role : Role} {clock kind text : Str} (hclock : IsClock clock)
    (hkind : IsKind kind) (htext : role = .server → ¬tagFB <:+: text) :
    directionSplit (messageLine role clock kind text) = some (colorOf role,
      byteLen (clockStamp clock ++ " ".toList),
      byteLen (clockStamp clock ++ " ".toList ++ tagOf role)) := by
  have hfirst : FirstAt (tagOf role) (clockStamp clock ++ " ".toList)
      (messageLine role clock kind text) := by
    rw [messageLine, List.append_assoc, List.append_assoc _ " ".toList]
    exact tagOf_first hclock _
  rw [directionSplit_eq, byteLen_append _ (tagOf role)]
  cases role with
  | client =>
    have hfind : find tagFB (messageLine .client clock kind text) = some _ :=
      find_eq_some.mpr ⟨_, hfirst, rfl⟩
    rw [hfind]
    rfl
  | server =>
    have hnone : find tagFB (messageLine .server clock kind text) = none :=
      find_eq_none.mpr (mt (tagFB_infix_messageLine hclock hkind text).mp (htext rfl))
    have hfind : find tagBF (messageLine .server clock kind text) = some _ :=
      find_eq_some.mpr ⟨_, hfirst, rfl⟩
    rw [hnone, hfind]
    rfl

/-- The kind ends at the first `: `, or with the line. -/
theorem find_behindKind {kind : Str} (hkind : IsKind kind) (text : Str) :
    find ": ".toList (kind ++ behindKind text) = if text = [] then none else some (byteLen kind) := by
  have hcolon : ':' ∉ kind := fun h => hkind ':' h (by decide)
  rw [behindKind]
  split
  · rw [List.append_nil]
    exact find_eq_none.mpr fun h => hcolon (h.subset (by decide))
  · have hfirst : FirstAt ": ".toList kind (kind ++ ": ".toList ++ text) := firstAt_of_notMem hcolon
    exact find_eq_some.mpr ⟨kind, by simpa using hfirst, rfl⟩

/-- **The parts of a message's line** are the emitter's, unless a server's text brings in the tag that is
searched for first. -/
theorem parseLine_messageLine {role : Role} {clock kind text : Str} (hclock : IsClock clock)
    (hkind : IsKind kind) (htext : role = .server → ¬tagFB <:+: text) :
    parseLine (messageLine role clock kind text) = some (some
      { color := colorOf role
        prefixEnd := byteLen (clockStamp clock ++ " ".toList)
        tagEnd := byteLen (clockStamp clock ++ " ".toList ++ tagOf role)
        kindStart := byteLen (clockStamp clock ++ " ".toList ++ tagOf role ++ " ".toList)
        kindEnd := byteLen (clockStamp clock ++ " ".toList ++ tagOf role ++ " ".toList ++ kind) }) := by
  have hkindStart : min (byteLen (clockStamp clock ++ " ".toList ++ tagOf role) + 1)
      (byteLen (messageLine role clock kind text))
        = byteLen (clockStamp clock ++ " ".toList ++ tagOf role ++ " ".toList) := by
    have hspace : byteLen " ".toList = 1 := rfl
    rw [messageLine, byteLen_append _ " ".toList, hspace]
    simp only [byteLen_append, hspace]
    omega
  have hline : messageLine role clock kind text
      = clockStamp clock ++ " ".toList ++ tagOf role ++ " ".toList ++ (kind ++ behindKind text) := by
    rw [messageLine, List.append_assoc _ kind]
  rw [parseLine, directionSplit_messageLine hclock hkind htext]
  dsimp only
  rw [hkindStart, hline, sliceFrom_append, Option.map_some, find_behindKind hkind]
  by_cases h : text = []
  · simp [h, behindKind]
  · simp [h, Nat.add_assoc]

/-! ### What a text can change -/

/-- The line is displayed as the header's spans and, unstyled, the rest; its header line is these spans
and no more. -/
structure ClassifiedAs (line : Str) (header : List Span) (rest : Str) : Prop where
  builds : buildLine line = some (header ++ [⟨rest, none, false⟩])
  heads : buildHeaderLine line = some header

/-- Neither the kind nor the text brings in what the renderer searches the line for. -/
structure Plain (role : Role) (kind text : Str) : Prop where
  noWarning : '⚠' ∉ kind ∧ '⚠' ∉ text
  noNotice : ¬"===".toList <:+: kind ∧ ¬"===".toList <:+: text
  noOtherTag : role = .server → ¬tagFB <:+: text

/-- The two texts, emitted at the same time, are displayed under one header: the timestamp, the tag of the
real direction and the kind. -/
def ClassifiedAlike (e : MessageEmitter) (now : LocalTime) (kind text text' : String)
    (detail detail' : Option EventDetail) : Prop :=
  ClassifiedAs (e.emitWithDetail now kind text detail).rendered.toList
      (messageHeader e.role now.display.toList kind.toList) (behindKind text.toList) ∧
    ClassifiedAs (e.emitWithDetail now kind text' detail').rendered.toList
      (messageHeader e.role now.display.toList kind.toList) (behindKind text'.toList)

theorem warning_mem_messageLine {clock : Str} (hclock : IsClock clock) (role : Role) (kind text : Str) :
    '⚠' ∈ messageLine role clock kind text ↔ '⚠' ∈ kind ∨ '⚠' ∈ text := by
  have hstamp : '⚠' ∉ clockStamp clock := notMem_clockStamp hclock (by decide) (by decide)
  have htag : '⚠' ∉ tagOf role := by
    cases role <;> decide
  have h : ['⚠'] <:+: messageLine role clock kind text ↔ _ :=
    infix_messageLine (by decide) (by decide) (by decide) role clock kind text
  simpa only [List.singleton_infix_iff, hstamp, htag, false_or] using h

theorem notice_infix_messageLine {clock : Str} (hclock : IsClock clock) (role : Role) (kind text : Str) :
    "===".toList <:+: messageLine role clock kind text ↔
      "===".toList <:+: kind ∨ "===".toList <:+: text := by
  have hstamp : ¬"===".toList <:+: clockStamp clock := by
    intro h
    exact notMem_clockStamp (c := '=') hclock (by decide) (by decide) (h.subset (by decide))
  have htag : ¬"===".toList <:+: tagOf role := by
    cases role <;> decide
  rw [infix_messageLine (by decide) (by decide) (by decide)]
  simp only [hstamp, htag, false_or]

/-- Of a plain line the pieces are shown as they were put together. -/
theorem classifiedAs_of_plain {role : Role} {clock kind text : Str} (hclock : IsClock clock)
    (hkind : IsKind kind) (h : Plain role kind text) :
    ClassifiedAs (messageLine role clock kind text) (messageHeader role clock kind)
      (behindKind text) := by
  have hparse := parseLine_messageLine hclock hkind h.noOtherTag
  have hheader : headerSpans _ _ = some (messageHeader role clock kind) :=
    headerSpans_of_pieces (colorOf role) _ (tagOf role) " ".toList kind (behindKind text)
  have hrest := sliceFrom_append (clockStamp clock ++ " ".toList ++ tagOf role ++ " ".toList ++ kind)
    (behindKind text)
  have hwarning : '⚠' ∉ messageLine role clock kind text := by
    rw [warning_mem_messageLine hclock]
    exact not_or.mpr h.noWarning
  have hnotice : find "===".toList (messageLine role clock kind text) = none := by
    rw [find_eq_none, notice_infix_messageLine hclock]
    exact not_or.mpr h.noNotice
  constructor
  · rw [buildLine, if_neg (by simpa using hwarning), hnotice, hparse, if_neg (by simp), messageLine,
      Option.bind_some]
    dsimp only
    rw [hheader, hrest]
    rfl
  · rw [buildHeaderLine, hparse]
    exact hheader

/-- The second span of a header has the colour of the tag that was found. -/
theorem header_color {line : Str} {color : Color} {a b : ℕ} {spans : List Span}
    (hsplit : directionSplit line = some (color, a, b)) (h : buildHeaderLine line = some spans) :
    (spans[1]?).map Span.fg = some (some color) := by
  rw [buildHeaderLine, parseLine, hsplit] at h
  dsimp only at h
  obtain ⟨parts, hparts, hspans⟩ := Option.bind_eq_some_iff.mp h
  obtain ⟨rest, _, rfl⟩ := Option.map_eq_some_iff.mp hparts
  dsimp only [headerSpans] at hspans
  obtain ⟨before, _, hspans⟩ := Option.bind_eq_some_iff.mp hspans
  obtain ⟨tag, _, hspans⟩ := Option.bind_eq_some_iff.mp hspans
  obtain ⟨gap, _, hspans⟩ := Option.bind_eq_some_iff.mp hspans
  obtain ⟨kind, _, hspans⟩ := Option.bind_eq_some_iff.mp hspans
  rw [← Option.some.inj hspans]
  rfl

/-- A line handed on in one style has no header. -/
theorem not_classifiedAs_of_styled {line rest : Str} (fg : Option Color) {role : Role}
    {clock kind : Str} (hstyled : buildLine line = some (styled line fg)) :
    ¬ClassifiedAs line (messageHeader role clock kind) rest := by
  intro h
  have hspans := Option.some.inj (hstyled.symm.trans h.builds)
  -- the timestamp is grey, and the space behind the tag is not
  have hfg : ∀ span ∈ messageHeader role clock kind ++ [⟨rest, none, false⟩], span.fg = fg := by
    intro span hspan
    rw [← hspans] at hspan
    obtain ⟨_, _, rfl⟩ := List.mem_map.mp hspan
    rfl
  have hgrey : some Color.darkGray = fg := hfg _ (List.mem_cons_self ..)
  have hplain : none = fg := hfg ⟨" ".toList, none, false⟩ (by simp [messageHeader])
  cases hgrey.trans hplain.symm

theorem plain_of_classifiedAs {role : Role} {clock kind text : Str} (hclock : IsClock clock)
    (hkind : IsKind kind)
    (h : ClassifiedAs (messageLine role clock kind text) (messageHeader role clock kind)
      (behindKind text)) : Plain role kind text := by
  have hwarning : '⚠' ∉ messageLine role clock kind text := by
    intro hmem
    exact not_classifiedAs_of_styled (some .red) (by rw [buildLine, if_pos (by simpa using hmem)]) h
  have hnotice : ¬"===".toList <:+: messageLine role clock kind text := by
    intro hin
    have hsome : (find "===".toList (messageLine role clock kind text)).isSome := by
      rw [Option.isSome_iff_ne_none]
      exact mt find_eq_none.mp (not_not.mpr hin)
    refine not_classifiedAs_of_styled (some .yellow) ?_ h
    rw [buildLine, if_neg (by simpa using hwarning), if_pos hsome]
  refine ⟨?_, ?_, ?_⟩
  · rw [warning_mem_messageLine hclock] at hwarning
    exact not_or.mp hwarning
  · rw [notice_infix_messageLine hclock] at hnotice
    exact not_or.mp hnotice
  · -- the tag of the other direction is found first, and in its colour
    intro hrole htext
    subst hrole
    have hin := (tagFB_infix_messageLine hclock hkind text).mpr htext
    obtain ⟨start, hstart⟩ := Option.ne_none_iff_exists'.mp (mt find_eq_none.mp (not_not.mpr hin))
    have hsplit := directionSplit_eq (messageLine .server clock kind text)
    rw [hstart] at hsplit
    have hcolor := header_color hsplit h.heads
    cases hcolor

theorem classifiedAs_iff {role : Role} {clock kind text : Str} (hclock : IsClock clock)
    (hkind : IsKind kind) :
    ClassifiedAs (messageLine role clock kind text) (messageHeader role clock kind) (behindKind text) ↔
      Plain role kind text :=
  ⟨plain_of_classifiedAs hclock hkind, classifiedAs_of_plain hclock hkind⟩

/-- **A text leaves the classification of its line alone** exactly if neither it nor the kind contains `⚠`
or `===`, and a server's text contains no `[F→B]`. -/
theorem classifiedAlike_iff (e : MessageEmitter) (now : LocalTime) (kind text text' : String)
    (detail detail' : Option EventDetail) (hclock : IsClock now.display.toList)
    (hkind : IsKind kind.toList) :
    ClassifiedAlike e now kind text text' detail detail' ↔
      Plain e.role kind.toList text.toList ∧ Plain e.role kind.toList text'.toList := by
  rw [ClassifiedAlike, rendered_eq, rendered_eq, classifiedAs_iff hclock hkind,
    classifiedAs_iff hclock hkind]

def noon : LocalTime := { rfc3339 := "2024-01-01T12:00:00.000Z", display := "12:00:00.000" }

def serverEmitter : MessageEmitter := { role := .server, client := ⟨.v4 0, 0⟩ }

theorem classifiedAlike_rows :
    (Plain .server "DataRow".toList "\x7b a='x' \x7d".toList ∧
      Plain .server "DataRow".toList "\x7b a='y' \x7d".toList) ∧
      ClassifiedAlike serverEmitter noon "DataRow" "\x7b a='x' \x7d" "\x7b a='y' \x7d" none none := by
  have hclock : IsClock noon.display.toList := by
    simp [IsClock, noon]
  have hkind : IsKind "DataRow".toList := by
    simp [IsKind]
  have hplain : Plain .server "DataRow".toList "\x7b a='x' \x7d".toList ∧
      Plain .server "DataRow".toList "\x7b a='y' \x7d".toList := by
    constructor <;> constructor <;> decide
  exact ⟨hplain, (classifiedAlike_iff serverEmitter noon _ _ _ none none hclock hkind).mpr hplain⟩

/-- **Two rows of one server**: the second names the client's tag and is displayed as the client's. -/
theorem text_reclassifies :
    IsClock noon.display.toList ∧ IsKind "DataRow".toList ∧
      ¬ClassifiedAlike serverEmitter noon "DataRow" "\x7b a='x' \x7d" "\x7b a='[F→B]' \x7d" none none := by
  refine ⟨?_, ?_, ?_⟩
  · simp [IsClock, noon]
  · simp [IsKind]
  · intro h
    exact absurd h.2.heads (by decide)

end Tapgres.Tui
