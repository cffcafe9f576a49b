import Tapgres.Lib.Lines
import Tapgres.Session.Json
import Tapgres.Session.Read
import Tapgres.Session.Writer

/-!
# Writing a session and reading it back

The text behind a session writer, and the two directions in which records are converted.

* `intoOutput_fromOutput` — an output is what its stored record is read as;
* `ofBytes_encode` — a file is read by its bytes, and its lines are those of its text;
* `session_round_trip` — so a written session is read back whole, with blank lines anywhere between its
  records;
* `copied_record` — the other direction: what a record becomes when its output is stored again.
-/

namespace Tapgres.Session

open Tapgres.Net Tapgres.Decode Tapgres.Filter Tapgres.Lib Tapgres.Lib.Lines

/-- What the session code takes from `serde_json`, `chrono` and the standard library. -/
structure SessionLibs where
  /-- `serde_json::to_writer`: the text of a record. -/
  toWriter : StoredRecord → String
  fromStr : String → Except String Value
  /-- The text of the error with which `from_value` refuses a value. -/
  fromValueError : Value → String
  parseRfc3339 : String → Except String Unit
  parseAddr : String → Except String SocketAddr
  showAddr : SocketAddr → String
  debugStr : String → String

def SessionLibs.env (libs : SessionLibs) : SessionEnv where
  Json := Value
  fromStr := libs.fromStr
  schemaVersionOf v := (v.get? "schema_version").bind (Value.asUnsigned 64)
  fromValue v :=
    match StoredRecord.ofValue v with
    | some record => .ok record
    | none => .error (libs.fromValueError v)
  parseRfc3339 := libs.parseRfc3339
  parseAddr := libs.parseAddr
  showAddr := libs.showAddr
  debugStr := libs.debugStr

/-! ### The file -/

/-- The lines behind a writer, one for each of its writes; `clock i` is the reading of the clock at the
`i`-th of them. -/
def SessionWriter.lines (libs : SessionLibs) (clock : ℕ → String) (writer : SessionWriter) : List String :=
  writer.written.mapIdx fun i output => libs.toWriter (.fromOutput libs.env (clock i) output)

/-- The text of a file of these lines, each with its newline. -/
def fileText (lines : List String) : String := .ofList (lines.flatMap fun line => ended '\n' line.toList)

/-- A file with this text, as a reader finds it. -/
def SessionFile.ofText (text : String) : SessionFile :=
  .ok ((Lines.lines '\n' '\r' text.toList).map fun line => .ok (.ofList line))

/-- What `BufRead::lines` finds between two newlines. -/
def decodeLine (line : List UInt8) : Except String String :=
  match Utf8.decode line with
  | none => .error "stream did not contain valid UTF-8"
  | some text => .ok (.ofList text)

/-- A file with these bytes, as a reader finds it. -/
def SessionFile.ofBytes (bytes : List UInt8) : SessionFile := .ok ((Lines.lines 10 13 bytes).map decodeLine)

theorem decodeLine_encode (text : List Char) : decodeLine (Utf8.encode text) = .ok (.ofList text) := by
  rw [decodeLine, Utf8.decode_encode]

/-- An ASCII character is one byte, which is in no other character. -/
theorem writtenAs_ascii {c : Char} {b : UInt8} (hc : String.utf8EncodeChar c = [b]) (hb : b < 0x80) :
    WrittenAs String.utf8EncodeChar c b := by
  refine ⟨hc, fun d hd => Char.toNat_inj.mp ?_⟩
  rw [Utf8.eq_of_mem_utf8EncodeChar hb hd, Utf8.eq_of_mem_utf8EncodeChar hb (hc ▸ List.mem_singleton_self b)]

theorem newline_written : WrittenAs String.utf8EncodeChar '\n' 10 := writtenAs_ascii (by decide) (by decide)

theorem cr_written : WrittenAs String.utf8EncodeChar '\r' 13 := writtenAs_ascii (by decide) (by decide)

/-- **A file of UTF-8 is read as its text.** -/
theorem ofBytes_encode (text : String) : SessionFile.ofBytes (Utf8.encode text.toList) = .ofText text := by
  rw [SessionFile.ofBytes, SessionFile.ofText, Utf8.encode,
    lines_flatMap newline_written cr_written (fun _ => String.utf8EncodeChar_ne_nil), List.map_map]
  exact congrArg Except.ok (List.map_congr_left fun line _ => decodeLine_encode line)

/-- The file holds these lines, with blank lines anywhere between them. -/
def Spaced (lines file : List String) : Prop :=
  file.filter (fun line => !isBlank line) = lines ∧
    ∀ line ∈ file, isBlank line = true → '\n' ∉ line.toList

/-- `serde_json` prints the record on one line, which is not blank, and parses it back. -/
structure PrintsBack (libs : SessionLibs) (record : StoredRecord) : Prop where
  printed : isBlank (libs.toWriter record) = false
  newline : '\n' ∉ (libs.toWriter record).toList
  carriageReturn : '\r' ∉ (libs.toWriter record).toList
  parses : libs.fromStr (libs.toWriter record) = .ok record.toValue

/-- The numbers of a detail lie in the types of their fields. -/
def DetailFits : EventDetail → Prop
  | .rowDescription columns => ∀ c ∈ columns, (StoredFieldSummary.from c).Fits
  | .dataRow columns => ∀ c ∈ columns, (StoredDataColumn.from c).Fits

/-- An output whose timestamp is RFC 3339 and whose client address is parsed back. -/
def Storable (libs : SessionLibs) : Output → Prop
  | .message message detail =>
    libs.parseRfc3339 message.timestamp = .ok () ∧
      libs.parseAddr (libs.showAddr message.client) = .ok message.client ∧ ∀ d ∈ detail, DetailFits d
  | .line _ | .status _ => True

/-! ### From an output and back -/

@[simp] theorem fieldSummary_into_from (s : FieldSummary) : (StoredFieldSummary.from s).into = s := rfl

@[simp] theorem dataColumn_into_from (c : DataColumn) : (StoredDataColumn.from c).into = c := rfl

@[simp] theorem fieldSummary_from_into (s : StoredFieldSummary) : StoredFieldSummary.from s.into = s := rfl

@[simp] theorem dataColumn_from_into (c : StoredDataColumn) : StoredDataColumn.from c.into = c := rfl

@[simp] theorem detail_into_from (d : EventDetail) : (StoredDetail.from d).into = d := by
  cases d <;> simp [StoredDetail.from, StoredDetail.into, Function.comp_def]

@[simp] theorem detail_from_into (d : StoredDetail) : StoredDetail.from d.into = d := by
  cases d <;> simp [StoredDetail.from, StoredDetail.into, Function.comp_def]

@[simp] theorem direction_into_from (d : MessageDirection) : (StoredDirection.from d).into = d := by
  cases d <;> rfl

@[simp] theorem direction_from_into (d : StoredDirection) : StoredDirection.from d.into = d := by
  cases d <;> rfl

theorem detail_fits {d : EventDetail} (h : DetailFits d) : (StoredDetail.from d).Fits := by
  cases d with
  | rowDescription columns =>
    intro c hc
    obtain ⟨column, hcolumn, rfl⟩ := List.mem_map.mp hc
    exact h column hcolumn
  | dataRow columns =>
    intro c hc
    obtain ⟨column, hcolumn, rfl⟩ := List.mem_map.mp hc
    exact h column hcolumn

theorem fromOutput_version (env : SessionEnv) (now : String) (output : Output) :
    (StoredRecord.fromOutput env now output).schemaVersion = schemaVersion := by
  cases output <;> rfl

theorem fromOutput_fits {libs : SessionLibs} {output : Output} (h : Storable libs output) (now : String) :
    (StoredRecord.fromOutput libs.env now output).payload.Fits := by
  cases output with
  | message message detail =>
    intro d hd
    obtain ⟨e, he, rfl⟩ := Option.map_eq_some_iff.mp hd
    exact detail_fits (h.2.2 e he)
  | line text => trivial
  | status text => trivial

/-- **A stored output is read as the output.** -/
theorem intoOutput_fromOutput {libs : SessionLibs} {output : Output} (h : Storable libs output)
    {now : String} (hnow : libs.parseRfc3339 now = .ok ()) (path : String) (line : ℕ) :
    (StoredRecord.fromOutput libs.env now output).intoOutput libs.env path line = .ok output := by
  cases output with
  | message message detail =>
    obtain ⟨htime, haddr, _⟩ := h
    have htime' : libs.env.parseRfc3339 message.timestamp = .ok () := htime
    have haddr' : libs.env.parseAddr (libs.env.showAddr message.client) = .ok message.client := haddr
    simp [StoredRecord.fromOutput, StoredRecord.intoOutput, htime', haddr', Function.comp_def]
  | line text =>
    have hnow' : libs.env.parseRfc3339 now = .ok () := hnow
    simp [StoredRecord.fromOutput, StoredRecord.intoOutput, hnow']
  | status text =>
    have hnow' : libs.env.parseRfc3339 now = .ok () := hnow
    simp [StoredRecord.fromOutput, StoredRecord.intoOutput, hnow']

/-! ### A file and its records -/

/-- The line of a record is read as the output it holds. -/
theorem readLine_written {libs : SessionLibs} {record : StoredRecord} (hprint : PrintsBack libs record)
    (hversion : record.schemaVersion = schemaVersion) (hfits : record.payload.Fits) {path : String}
    {lineNumber : ℕ} {output : Output}
    (hinto : record.intoOutput libs.env path lineNumber = .ok output) :
    readLine libs.env path lineNumber (libs.toWriter record) = .ok (some output) := by
  have hparses : libs.env.fromStr (libs.toWriter record) = .ok record.toValue := hprint.parses
  have hfound : libs.env.schemaVersionOf record.toValue = some schemaVersion := by
    show (record.toValue.get? "schema_version").bind (Value.asUnsigned 64) = _
    simp [StoredRecord.toValue, hversion, schemaVersion, Value.asUnsigned]
  have hvalue : libs.env.fromValue record.toValue = .ok record := by
    have hread : StoredRecord.ofValue record.toValue = some record :=
      ofValue_toValue (by rw [hversion, schemaVersion]; omega) hfits
    simp only [SessionLibs.env, hread]
  have hsmall : (some schemaVersion).filter (· < 2 ^ 32) = some schemaVersion := rfl
  rw [readLine, hprint.printed]
  simp only [Bool.false_eq_true, if_false, hparses, hfound, hsmall, ne_eq, not_true, hvalue, hinto]
  rfl

/-- Blank lines are skipped: the records are those of the other lines. -/
theorem records_skip {env : SessionEnv} {path : String} {lines : List String} {outputs : List Output}
    (h : List.Forall₂ (fun line output => ∀ n, readLine env path n line = .ok (some output))
      (lines.filter fun line => !isBlank line) outputs) (index : ℕ) :
    records env path index (lines.map .ok) = (outputs, .ok ()) := by
  induction lines generalizing index outputs with
  | nil =>
    cases h
    rfl
  | cons line lines ih =>
    rw [List.map_cons, records]
    cases hblank : isBlank line with
    | true =>
      rw [List.filter_cons_of_neg (by simp [hblank])] at h
      have hskip : readLine env path (index + 1) line = .ok none := by rw [readLine, if_pos hblank]
      simp only [hskip, ih h]
    | false =>
      rw [List.filter_cons_of_pos (by simp [hblank])] at h
      cases h with
      | cons hline hrest => simp only [hline, ih hrest]

/-- A line without the carriage return at its end is as blank as it was. -/
theorem isBlank_dropCr (line : String) : isBlank (.ofList (dropCr '\r' line.toList)) = isBlank line := by
  rw [isBlank, isBlank, String.toList_ofList, dropCr]
  split
  · rename_i hlast
    obtain ⟨init, hinit⟩ := List.getLast?_eq_some_iff.mp hlast
    have hspace : Utf8.isWhitespace '\r' = true := by decide
    rw [hinit, List.dropLast_concat, List.all_append]
    simp [hspace]
  · rfl

/-- The lines a reader finds in a file, of which those that are not blank are as they were written. -/
theorem ofText_fileText {lines file : List String} (h : Spaced lines file)
    (hone : ∀ line ∈ lines, '\n' ∉ line.toList ∧ '\r' ∉ line.toList) :
    ∃ found : List String, SessionFile.ofText (fileText file) = .ok (found.map .ok) ∧
      (found.filter fun line => !isBlank line) = lines := by
  obtain ⟨hfilter, hblanks⟩ := h
  refine ⟨file.map fun line => .ofList (dropCr '\r' line.toList), ?_, ?_⟩
  · have htext : (fileText file).toList = (file.map String.toList).flatMap (ended '\n') := by
      rw [fileText, String.toList_ofList, List.flatMap_map]
    have hlines : ∀ line ∈ file.map String.toList, '\n' ∉ line := by
      intro line hline
      obtain ⟨l, hl, rfl⟩ := List.mem_map.mp hline
      cases hblank : isBlank l with
      | true => exact hblanks l hl hblank
      | false => exact (hone l (hfilter ▸ List.mem_filter.mpr ⟨hl, by simp [hblank]⟩)).1
    rw [SessionFile.ofText, htext, lines_ended hlines]
    simp
  · rw [List.filter_map]
    have hblank : ((fun line => !isBlank line) ∘ fun line : String => .ofList (dropCr '\r' line.toList))
        = fun line => !isBlank line := by
      funext line
      exact congrArg (!·) (isBlank_dropCr line)
    rw [hblank, hfilter]
    refine (List.map_congr_left fun line hline => ?_).trans (List.map_id _)
    rw [dropCr_of_not_mem (hone line hline).2, String.ofList_toList]
    rfl

/-- Writing some outputs, until one of the writes fails. -/
def SessionWriter.writeAll (faults : WriteFaults) (writer : SessionWriter) (outputs : List Output) :
    Except SessionError SessionWriter :=
  outputs.foldlM (fun writer output => writer.write faults output) writer

theorem writeAll_written {faults : WriteFaults} {writer writer' : SessionWriter} {outputs : List Output}
    (h : writer.writeAll faults outputs = .ok writer') : writer'.written = writer.written ++ outputs := by
  induction outputs generalizing writer with
  | nil =>
    cases h
    simp
  | cons output outputs ih =>
    rw [SessionWriter.writeAll, List.foldlM_cons, SessionWriter.write] at h
    cases hfault : faults writer output with
    | some error =>
      rw [hfault] at h
      cases h
    | none =>
      rw [hfault] at h
      rw [ih h]
      simp

/-- **Session files round-trip.**  What was written in order is read back, with blank lines anywhere
between the records. -/
theorem session_round_trip (libs : SessionLibs) (faults : WriteFaults) (path : String)
    (clock : ℕ → String) (outputs : List Output) (writer : SessionWriter)
    (hwritten : (SessionWriter.create path).writeAll faults outputs = .ok writer)
    (hclock : ∀ i, libs.parseRfc3339 (clock i) = .ok ())
    (hstorable : ∀ output ∈ outputs, Storable libs output)
    (hserde : ∀ i, ∀ output ∈ outputs, PrintsBack libs (.fromOutput libs.env (clock i) output))
    (file : List String) (hfile : Spaced (writer.lines libs clock) file) :
    readAll libs.env path (.ofText (fileText file)) = .ok outputs := by
  have hall : writer.written = outputs := by
    rw [writeAll_written hwritten]
    rfl
  have hlines : writer.lines libs clock
      = outputs.mapIdx fun i output => libs.toWriter (.fromOutput libs.env (clock i) output) := by
    rw [SessionWriter.lines, hall]
  have hone : ∀ line ∈ writer.lines libs clock, '\n' ∉ line.toList ∧ '\r' ∉ line.toList := by
    intro line hline
    rw [hlines] at hline
    obtain ⟨i, hi, rfl⟩ := List.mem_mapIdx.mp hline
    have hprint := hserde i _ (List.getElem_mem hi)
    exact ⟨hprint.newline, hprint.carriageReturn⟩
  obtain ⟨found, htext, hfound⟩ := ofText_fileText hfile hone
  apply readAll_eq_ok.mpr
  rw [htext]
  show records libs.env path 0 (found.map .ok) = _
  refine records_skip ?_ 0
  rw [hfound, hlines, List.forall₂_iff_get]
  refine ⟨by simp, ?_⟩
  intro i hi hi' n
  have hmem : outputs.get ⟨i, hi'⟩ ∈ outputs := List.get_mem _ _
  simp only [List.get_eq_getElem, List.getElem_mapIdx]
  exact readLine_written (hserde i _ hmem) (fromOutput_version _ _ _)
    (fromOutput_fits (hstorable _ hmem) _) (intoOutput_fromOutput (hstorable _ hmem) (hclock i) path n)

/-- A row with its detail. -/
def rowOutput : Output :=
  .message
    { timestamp := "2026-07-17T12:34:56.789+01:00", rendered := "[12:34:56.789] [B→F] DataRow: 1"
      client := ⟨.v4 0x7f000001, 40005⟩, direction := .backendToFrontend, kind := "DataRow", text := "1" }
    (some (.dataRow [⟨"id", 23, "'1'"⟩]))

/-- A line whose text is two lines. -/
def lineOutput : Output := .line "a\n\"b\""

/-- The two as they are stored. -/
def rowRecord : StoredRecord :=
  ⟨1, "2026-07-17T12:34:56.789+01:00",
    .message .b2f "DataRow" "1" "[12:34:56.789] [B→F] DataRow: 1" "127.0.0.1:40005"
      (some (.dataRow [⟨"id", 23, "'1'"⟩]))⟩

def lineRecord : StoredRecord := ⟨1, "2026-07-17T12:34:57.000+01:00", .line "a\n\"b\""⟩

def rowText : String :=
  "\x7b\"schema_version\":1,\"timestamp\":\"2026-07-17T12:34:56.789+01:00\",\"record_type\":\"message\"," ++
    "\"direction\":\"b2f\",\"message_type\":\"DataRow\",\"text\":\"1\"," ++
    "\"rendered\":\"[12:34:56.789] [B→F] DataRow: 1\",\"client\":\"127.0.0.1:40005\"," ++
    ("\"detail\":\x7b\"detail_type\":\"data_row\"," ++
      "\"columns\":[\x7b\"name\":\"id\",\"type_oid\":23,\"value\":\"'1'\"\x7d]\x7d\x7d")

def lineText : String :=
  "\x7b\"schema_version\":1,\"timestamp\":\"2026-07-17T12:34:57.000+01:00\",\"record_type\":\"line\"," ++
    "\"text\":\"a\\n\\\"b\\\"\"\x7d"

/-- The libraries, as far as these two need them. -/
def savedLibs : SessionLibs where
  toWriter record := if record = rowRecord then rowText else if record = lineRecord then lineText else "null"
  fromStr text :=
    if text = rowText then .ok rowRecord.toValue
    else if text = lineText then .ok lineRecord.toValue
    else .error "expected value at line 1 column 1"
  fromValueError _ := "missing field"
  parseRfc3339 timestamp :=
    if timestamp = rowRecord.timestamp ∨ timestamp = lineRecord.timestamp then .ok ()
    else .error "premature end of input"
  parseAddr text :=
    if text = "127.0.0.1:40005" then .ok ⟨.v4 0x7f000001, 40005⟩
    else if text = "[0:0:0:0:0:0:0:1]:40005" then .ok ⟨.v6 1, 40005⟩
    else .error "invalid socket address syntax"
  showAddr address := if address = ⟨.v4 0x7f000001, 40005⟩ then "127.0.0.1:40005" else "[::1]:40005"
  debugStr text := "\"" ++ text ++ "\""

/-- A piece of a line of JSON, by its characters. -/
theorem jsonPiece {piece : String} (chars : List Char) (hpiece : piece = .ofList chars)
    (hquote : chars.contains '"' = true) (hchars : (chars.all fun c => c != '\n' && c != '\r') = true) :
    isBlank piece = false ∧ '\n' ∉ piece.toList ∧ '\r' ∉ piece.toList := by
  have hends : ∀ c ∈ chars, c ≠ '\n' ∧ c ≠ '\r' := fun c hc => by simpa using List.all_eq_true.mp hchars c hc
  rw [isBlank, hpiece, String.toList_ofList, List.all_eq_false]
  refine ⟨⟨_, List.mem_of_elem_eq_true hquote, by decide⟩, ?_, ?_⟩
  · intro h
    exact (hends _ h).1 rfl
  · intro h
    exact (hends _ h).2 rfl

theorem mem_piece {piece : String} {c : Char} (chars : List Char) (hpiece : piece = .ofList chars) :
    c ∈ piece.toList ↔ c ∈ chars := by
  rw [hpiece, String.toList_ofList]

theorem jsonPiece_append {a b : String}
    (ha : isBlank a = false ∧ '\n' ∉ a.toList ∧ '\r' ∉ a.toList)
    (hb : isBlank b = false ∧ '\n' ∉ b.toList ∧ '\r' ∉ b.toList) :
    isBlank (a ++ b) = false ∧ '\n' ∉ (a ++ b).toList ∧ '\r' ∉ (a ++ b).toList := by
  rw [isBlank, String.toList_append, List.all_append, List.mem_append, List.mem_append]
  rw [isBlank] at ha
  exact ⟨by rw [ha.1, Bool.false_and], fun h => h.elim ha.2.1 hb.2.1, fun h => h.elim ha.2.2 hb.2.2⟩

theorem rowText_line : isBlank rowText = false ∧ '\n' ∉ rowText.toList ∧ '\r' ∉ rowText.toList := by
  refine jsonPiece_append (jsonPiece_append (jsonPiece_append ?_ ?_) ?_) (jsonPiece_append ?_ ?_) <;>
    exact jsonPiece _ rfl rfl rfl

theorem lineText_line : isBlank lineText = false ∧ '\n' ∉ lineText.toList ∧ '\r' ∉ lineText.toList := by
  refine jsonPiece_append ?_ ?_ <;> exact jsonPiece _ rfl rfl rfl

theorem toWriter_row : savedLibs.toWriter rowRecord = rowText := by simp [savedLibs]

theorem toWriter_line : savedLibs.toWriter lineRecord = lineText := by
  have hother : lineRecord ≠ rowRecord := by decide
  simp [savedLibs, hother]

theorem printsBack_row : PrintsBack savedLibs rowRecord := by
  obtain ⟨hblank, hnewline, hcr⟩ := rowText_line
  refine ⟨?_, ?_, ?_, ?_⟩ <;> rw [toWriter_row]
  · exact hblank
  · exact hnewline
  · exact hcr
  · simp [savedLibs]

theorem arrow_row : '→' ∈ rowText.toList := by
  unfold rowText
  rw [String.toList_append]
  apply List.mem_append_left _
  rw [String.toList_append]
  exact List.mem_append_right _ ((mem_piece _ rfl).mpr (by decide +kernel))

theorem arrow_line : '→' ∉ lineText.toList := by
  unfold lineText
  rw [String.toList_append]
  rw [List.mem_append]
  exact fun h => h.elim ((mem_piece _ rfl).not.mpr (by decide +kernel))
    ((mem_piece _ rfl).not.mpr (by decide +kernel))

theorem printsBack_line : PrintsBack savedLibs lineRecord := by
  have hother : lineText ≠ rowText := fun h => arrow_line (h ▸ arrow_row)
  obtain ⟨hblank, hnewline, hcr⟩ := lineText_line
  refine ⟨?_, ?_, ?_, ?_⟩ <;> rw [toWriter_line]
  · exact hblank
  · exact hnewline
  · exact hcr
  · simp [savedLibs, hother]

theorem storable_row : Storable savedLibs rowOutput := by
  have hfits : DetailFits (.dataRow [⟨"id", 23, "'1'"⟩]) := by
    intro c hc
    rw [List.mem_singleton.mp hc]
    exact (by decide : 23 < 2 ^ 32)
  exact ⟨by simp [savedLibs, rowRecord], by simp [savedLibs], fun d hd => Option.some.inj hd ▸ hfits⟩

theorem session_round_trip_two :
    readAll savedLibs.env "session.jsonl" (.ofText (fileText [rowText, "  ", lineText, ""]))
      = .ok [rowOutput, lineOutput] := by
  have hrow : StoredRecord.fromOutput savedLibs.env lineRecord.timestamp rowOutput = rowRecord := by decide
  have hline : StoredRecord.fromOutput savedLibs.env lineRecord.timestamp lineOutput = lineRecord := rfl
  refine session_round_trip savedLibs (fun _ _ => none) "session.jsonl" (fun _ => lineRecord.timestamp)
    [rowOutput, lineOutput] ⟨"session.jsonl", [rowOutput, lineOutput]⟩ rfl (fun _ => by simp [savedLibs])
    ?_ ?_ [rowText, "  ", lineText, ""] ?_
  · intro output houtput
    rcases List.mem_pair.mp houtput with rfl | rfl
    · exact storable_row
    · trivial
  · intro _ output houtput
    rcases List.mem_pair.mp houtput with rfl | rfl
    · exact hrow ▸ printsBack_row
    · exact hline ▸ printsBack_line
  · have hrowBlank := rowText_line.1
    have hlineBlank := lineText_line.1
    have hspaces : isBlank "  " = true := by decide
    have hempty : isBlank "" = true := by decide
    refine ⟨?_, ?_⟩
    · show _ = [savedLibs.toWriter (.fromOutput savedLibs.env lineRecord.timestamp rowOutput),
        savedLibs.toWriter (.fromOutput savedLibs.env lineRecord.timestamp lineOutput)]
      rw [hrow, hline, toWriter_row, toWriter_line]
      rw [List.filter_cons_of_pos (by rw [hrowBlank]; rfl), List.filter_cons_of_neg (by rw [hspaces]; decide),
        List.filter_cons_of_pos (by rw [hlineBlank]; rfl), List.filter_cons_of_neg (by rw [hempty]; decide)]
      rfl
    · intro line hline hblank
      simp only [List.mem_cons, List.not_mem_nil, or_false] at hline
      rcases hline with rfl | rfl | rfl | rfl
      · rw [hrowBlank] at hblank
        cases hblank
      · decide
      · rw [hlineBlank] at hblank
        cases hblank
      · decide

/-! ### A record and its copy -/

def StoredPayload.isMessage : StoredPayload → Bool
  | .message .. => true
  | _ => false

/-- The payload with its client address, where it is one, parsed and printed anew. -/
def StoredPayload.readdressed (env : SessionEnv) : StoredPayload → StoredPayload
  | .message direction messageType text rendered client detail =>
    let client' :=
      match env.parseAddr client with
      | .ok address => env.showAddr address
      | .error _ => client
    .message direction messageType text rendered client' detail
  | payload => payload

/-- **What a copied record becomes.**  It is a record of the current version, with the payload as it was
up to the spelling of the client address; a message keeps its timestamp, and a line or a status is
stored under the time of the copy. -/
theorem copied_record (env : SessionEnv) (record : StoredRecord) (path : String) (line : ℕ)
    (output : Output) (h : record.intoOutput env path line = .ok output) (now : String) :
    StoredRecord.fromOutput env now output
      = { schemaVersion := schemaVersion
          timestamp := if record.payload.isMessage then record.timestamp else now
          payload := record.payload.readdressed env } := by
  rw [StoredRecord.intoOutput] at h
  cases htime : env.parseRfc3339 record.timestamp with
  | error error =>
    rw [htime] at h
    cases h
  | ok _ =>
    rw [htime] at h
    cases hpayload : record.payload with
    | message direction messageType text rendered client detail =>
      simp only [hpayload] at h
      cases haddr : env.parseAddr client with
      | error error =>
        rw [haddr] at h
        cases h
      | ok address =>
        rw [haddr] at h
        cases h
        simp [StoredRecord.fromOutput, StoredPayload.isMessage, StoredPayload.readdressed, haddr,
          Function.comp_def]
    | line text =>
      simp only [hpayload] at h
      cases h
      rfl
    | status text =>
      simp only [hpayload] at h
      cases h
      rfl

/-- The copy of the stored row is the stored row. -/
theorem copied_record_row :
    StoredRecord.fromOutput savedLibs.env lineRecord.timestamp rowOutput
      = { schemaVersion := schemaVersion
          timestamp := if rowRecord.payload.isMessage then rowRecord.timestamp else lineRecord.timestamp
          payload := rowRecord.payload.readdressed savedLibs.env } := by
  refine copied_record savedLibs.env rowRecord "session.jsonl" 1 rowOutput ?_ lineRecord.timestamp
  decide

/-- The stored row, of another version. -/
def laterRecord : StoredRecord := { rowRecord with schemaVersion := 2 }

/-- The stored row, of a client whose address is spelled out. -/
def spelledRecord : StoredRecord :=
  { rowRecord with
      payload := .message .b2f "DataRow" "1" "[12:34:56.789] [B→F] DataRow: 1" "[0:0:0:0:0:0:0:1]:40005"
        (some (.dataRow [⟨"id", 23, "'1'"⟩])) }

/-- The copy of a record, made a second after it. -/
def copyOf (record : StoredRecord) : Option StoredRecord :=
  match record.intoOutput savedLibs.env "session.jsonl" 1 with
  | .ok output => some (.fromOutput savedLibs.env "2026-07-17T12:34:58.000+01:00" output)
  | .error _ => none

/-- **Copies that differ**: a line has the time of the copy, another version is gone, and an address is
spelled anew. -/
theorem copied_records_differ :
    (copyOf lineRecord ≠ none ∧ copyOf lineRecord ≠ some lineRecord) ∧
      (copyOf laterRecord ≠ none ∧ copyOf laterRecord ≠ some laterRecord) ∧
      copyOf spelledRecord ≠ none ∧ copyOf spelledRecord ≠ some spelledRecord := by
  refine ⟨?_, ?_, ?_⟩ <;> decide

end Tapgres.Session
