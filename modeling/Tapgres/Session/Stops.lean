import Tapgres.Session.RoundTrip

/-!
# What a line of a session file is

Every line is blank, a record, or refused for one of five reasons; which one it is depends on the line
alone.  Reading a file of such lines delivers the records before the first refused one, and ends there:

* `LineIs`, `lineIs_exists`, `lineIs_unique` — every line is one of them, and only one;
* `readLine_of_lineIs` — what reading it gives;
* `Delivers` — the records of lines of which none is refused;
* `records_delivers`, `fileRecords_refused` — reading up to a line;
* `reading_stops` — a whole file, for every reader.
-/

namespace Tapgres.Session

open Tapgres.Net Tapgres.Decode Tapgres.Lib

/-- Why a line is refused. -/
inductive LineFault where
  | unsupportedSchema (found : ℕ)
  | invalidRecord (message : String)
  deriving DecidableEq, Repr

/-- The error of a refused line. -/
def LineFault.error (path : String) (line : ℕ) : LineFault → SessionError
  | .unsupportedSchema found => .unsupportedSchema path line found
  | .invalidRecord message => .invalidRecord path line message

inductive LineKind where
  | blank
  | record (output : Output)
  | fault (why : LineFault)
  deriving DecidableEq, Repr

/-- The message that a stored message with a client address is read back to. -/
def storedMessage (timestamp : String) (direction : StoredDirection) (messageType text rendered : String)
    (client : SocketAddr) (detail : Option StoredDetail) : Output :=
  .message
    { timestamp := timestamp, rendered := rendered, client := client
      direction := direction.into, kind := messageType, text := text }
    (detail.map StoredDetail.into)

/-- The JSON value has the supported version and the shape of the record. -/
structure Stores (env : SessionEnv) (value : env.Json) (record : StoredRecord) : Prop where
  version : env.schemaVersionOf value = some schemaVersion
  shape : env.fromValue value = .ok record

/-- What a line is. -/
inductive LineIs (env : SessionEnv) (line : String) : LineKind → Prop where
  | blank (h : isBlank line = true) : LineIs env line .blank
  | json {source : String} (hblank : isBlank line = false) (h : env.fromStr line = .error source) :
      LineIs env line (.fault (.invalidRecord source))
  | version {value : env.Json} (hblank : isBlank line = false) (hjson : env.fromStr line = .ok value)
      (h : ∀ found, env.schemaVersionOf value = some found → ¬found < 2 ^ 32) :
      LineIs env line (.fault (.invalidRecord "schema_version must be an unsigned 32-bit integer"))
  | unsupported {value : env.Json} {found : ℕ} (hblank : isBlank line = false)
      (hjson : env.fromStr line = .ok value) (h : env.schemaVersionOf value = some found)
      (hu32 : found < 2 ^ 32) (hother : found ≠ schemaVersion) :
      LineIs env line (.fault (.unsupportedSchema found))
  | shape {value : env.Json} {source : String} (hblank : isBlank line = false)
      (hjson : env.fromStr line = .ok value) (hversion : env.schemaVersionOf value = some schemaVersion)
      (h : env.fromValue value = .error source) : LineIs env line (.fault (.invalidRecord source))
  | timestamp {value : env.Json} {record : StoredRecord} {source : String} (hblank : isBlank line = false)
      (hjson : env.fromStr line = .ok value) (hstores : Stores env value record)
      (h : env.parseRfc3339 record.timestamp = .error source) :
      LineIs env line (.fault (.invalidRecord s!"timestamp must be RFC 3339: {source}"))
  | client {value : env.Json} {record : StoredRecord} {direction : StoredDirection}
      {messageType text rendered client source : String} {detail : Option StoredDetail}
      (hblank : isBlank line = false) (hjson : env.fromStr line = .ok value)
      (hstores : Stores env value record) (htime : env.parseRfc3339 record.timestamp = .ok ())
      (hpayload : record.payload = .message direction messageType text rendered client detail)
      (h : env.parseAddr client = .error source) :
      LineIs env line
        (.fault (.invalidRecord s!"invalid client address {env.debugStr client}: {source}"))
  | message {value : env.Json} {record : StoredRecord} {direction : StoredDirection}
      {messageType text rendered client : String} {detail : Option StoredDetail} {address : SocketAddr}
      (hblank : isBlank line = false) (hjson : env.fromStr line = .ok value)
      (hstores : Stores env value record) (htime : env.parseRfc3339 record.timestamp = .ok ())
      (hpayload : record.payload = .message direction messageType text rendered client detail)
      (h : env.parseAddr client = .ok address) :
      LineIs env line
        (.record (storedMessage record.timestamp direction messageType text rendered address detail))
  | line {value : env.Json} {record : StoredRecord} {text : String} (hblank : isBlank line = false)
      (hjson : env.fromStr line = .ok value) (hstores : Stores env value record)
      (htime : env.parseRfc3339 record.timestamp = .ok ()) (hpayload : record.payload = .line text) :
      LineIs env line (.record (.line text))
  | status {value : env.Json} {record : StoredRecord} {text : String} (hblank : isBlank line = false)
      (hjson : env.fromStr line = .ok value) (hstores : Stores env value record)
      (htime : env.parseRfc3339 record.timestamp = .ok ()) (hpayload : record.payload = .status text) :
      LineIs env line (.record (.status text))

/-- What reading a line gives. -/
def LineKind.result (path : String) (line : ℕ) : LineKind → Except SessionError (Option Output)
  | .blank => .ok none
  | .record output => .ok (some output)
  | .fault why => .error (why.error path line)

variable {env : SessionEnv}

theorem lineIs_exists (env : SessionEnv) (line : String) : ∃ kind, LineIs env line kind := by
  cases hblank : isBlank line with
  | true => exact ⟨_, .blank hblank⟩
  | false =>
    cases hjson : env.fromStr line with
    | error source => exact ⟨_, .json hblank hjson⟩
    | ok value =>
      by_cases hu32 : ∃ found, env.schemaVersionOf value = some found ∧ found < 2 ^ 32
      · obtain ⟨found, hversion, hu32⟩ := hu32
        by_cases hother : found = schemaVersion
        · subst hother
          cases hshape : env.fromValue value with
          | error source => exact ⟨_, .shape hblank hjson hversion hshape⟩
          | ok record =>
            have hstores : Stores env value record := ⟨hversion, hshape⟩
            cases htime : env.parseRfc3339 record.timestamp with
            | error source => exact ⟨_, .timestamp hblank hjson hstores htime⟩
            | ok _ =>
              cases hpayload : record.payload with
              | message direction messageType text rendered client detail =>
                cases haddr : env.parseAddr client with
                | error source => exact ⟨_, .client hblank hjson hstores htime hpayload haddr⟩
                | ok address => exact ⟨_, .message hblank hjson hstores htime hpayload haddr⟩
              | line text => exact ⟨_, .line hblank hjson hstores htime hpayload⟩
              | status text => exact ⟨_, .status hblank hjson hstores htime hpayload⟩
        · exact ⟨_, .unsupported hblank hjson hversion hu32 hother⟩
      · exact ⟨_, .version hblank hjson fun found hversion hless => hu32 ⟨found, hversion, hless⟩⟩

/-- A record of the supported version and shape is converted. -/
theorem readLine_stores {path : String} {number : ℕ} {line : String} {value : env.Json}
    {record : StoredRecord} (hblank : isBlank line = false) (hjson : env.fromStr line = .ok value)
    (hstores : Stores env value record) :
    readLine env path number line = (record.intoOutput env path number).map some := by
  have hfilter : (some schemaVersion).filter (· < 2 ^ 32) = some schemaVersion := rfl
  rw [readLine, hblank, hjson]
  simp only [hstores.version, hfilter, hstores.shape, ne_eq, not_true_eq_false, if_false,
    Bool.false_eq_true]

/-- **Reading a line gives what the line is.** -/
theorem readLine_of_lineIs {line : String} {kind : LineKind} (h : LineIs env line kind) (path : String)
    (number : ℕ) : readLine env path number line = kind.result path number := by
  cases h with
  | blank h => rw [readLine, h]; rfl
  | json hblank h => rw [readLine, hblank, h]; rfl
  | @version value hblank hjson h =>
    have hnone : (env.schemaVersionOf value).filter (· < 2 ^ 32) = none := by
      rw [Option.filter_eq_none_iff]
      intro found hfound
      simpa using h found hfound
    rw [readLine, hblank, hjson]
    simp only [hnone, Bool.false_eq_true, if_false]
    rfl
  | @unsupported value found hblank hjson h hu32 hother =>
    have hsome : (env.schemaVersionOf value).filter (· < 2 ^ 32) = some found := by
      rw [h, Option.filter_some, if_pos (by simpa using hu32)]
    rw [readLine, hblank, hjson]
    simp only [hsome, Bool.false_eq_true, if_false, ne_eq, hother, not_false_eq_true, if_true]
    rfl
  | @shape value source hblank hjson hversion h =>
    have hfilter : (some schemaVersion).filter (· < 2 ^ 32) = some schemaVersion := rfl
    rw [readLine, hblank, hjson]
    simp only [hversion, hfilter, h, ne_eq, not_true_eq_false, if_false, Bool.false_eq_true]
    rfl
  | timestamp hblank hjson hstores h =>
    rw [readLine_stores hblank hjson hstores, StoredRecord.intoOutput, h]
    rfl
  | client hblank hjson hstores htime hpayload h =>
    rw [readLine_stores hblank hjson hstores, StoredRecord.intoOutput, htime, hpayload]
    simp only [h]
    rfl
  | message hblank hjson hstores htime hpayload h =>
    rw [readLine_stores hblank hjson hstores, StoredRecord.intoOutput, htime, hpayload]
    simp only [h]
    rfl
  | line hblank hjson hstores htime hpayload =>
    rw [readLine_stores hblank hjson hstores, StoredRecord.intoOutput, htime, hpayload]
    rfl
  | status hblank hjson hstores htime hpayload =>
    rw [readLine_stores hblank hjson hstores, StoredRecord.intoOutput, htime, hpayload]
    rfl

theorem lineIs_unique {line : String} {kind kind' : LineKind} (h : LineIs env line kind)
    (h' : LineIs env line kind') : kind = kind' := by
  have heq := (readLine_of_lineIs h "" 0).symm.trans (readLine_of_lineIs h' "" 0)
  cases kind with
  | blank => cases kind' <;> first | rfl | cases heq
  | record output =>
    cases kind' with
    | record output' => cases heq; rfl
    | _ => cases heq
  | fault fault =>
    cases kind' with
    | fault fault' =>
      cases fault <;> cases fault' <;> cases heq <;> rfl
    | _ => cases heq

/-! ### Whole files -/

/-- The line is refused. -/
def Refused (env : SessionEnv) (line : String) : Prop := ∃ fault, LineIs env line (.fault fault)

/-- The records of lines of which none is refused. -/
inductive Delivers (env : SessionEnv) : List String → List Output → Prop where
  | nil : Delivers env [] []
  | blank {line : String} {lines : List String} {outputs : List Output} (h : LineIs env line .blank)
      (more : Delivers env lines outputs) : Delivers env (line :: lines) outputs
  | record {line : String} {lines : List String} {output : Output} {outputs : List Output}
      (h : LineIs env line (.record output)) (more : Delivers env lines outputs) :
      Delivers env (line :: lines) (output :: outputs)

theorem delivers_of_not_refused {lines : List String} (h : ∀ line ∈ lines, ¬Refused env line) :
    ∃ outputs, Delivers env lines outputs := by
  induction lines with
  | nil => exact ⟨[], .nil⟩
  | cons line lines ih =>
    obtain ⟨outputs, hmore⟩ := ih fun l hl => h l (List.mem_cons_of_mem line hl)
    obtain ⟨kind, hkind⟩ := lineIs_exists env line
    cases kind with
    | blank => exact ⟨outputs, .blank hkind hmore⟩
    | record output => exact ⟨output :: outputs, .record hkind hmore⟩
    | fault fault => exact absurd ⟨fault, hkind⟩ (h line List.mem_cons_self)

/-- **Lines that are not refused are read through**, counting every one of them. -/
theorem records_delivers {lines : List String} {outputs : List Output} (h : Delivers env lines outputs)
    (path : String) (index : ℕ) (rest : List (Except String String)) :
    records env path index (lines.map .ok ++ rest)
      = (outputs ++ (records env path (index + lines.length) rest).1,
          (records env path (index + lines.length) rest).2) := by
  induction h generalizing index with
  | nil => rfl
  | @blank line lines outputs hkind _ ih =>
    rw [List.map_cons, List.cons_append, records]
    simp only [readLine_of_lineIs hkind, LineKind.result]
    rw [ih, List.length_cons, Nat.add_right_comm, Nat.add_assoc]
  | @record line lines output outputs hkind _ ih =>
    rw [List.map_cons, List.cons_append, records]
    simp only [readLine_of_lineIs hkind, LineKind.result]
    rw [ih, List.length_cons, Nat.add_right_comm, Nat.add_assoc, List.cons_append]

/-- A file whose lines are all text. -/
def textFile (lines : List String) : SessionFile := .ok (lines.map .ok)

theorem fileRecords_delivers {lines : List String} {outputs : List Output} (h : Delivers env lines outputs)
    (path : String) : fileRecords env path (textFile lines) = (outputs, .ok ()) := by
  have hread := records_delivers h path 0 []
  rw [List.append_nil] at hread
  rw [textFile, fileRecords, hread, records, List.append_nil]

/-- **Reading stops at the first refused line.** -/
theorem fileRecords_refused {pre post : List String} {bad : String} {outputs : List Output}
    {fault : LineFault} (h : Delivers env pre outputs) (hbad : LineIs env bad (.fault fault))
    (path : String) :
    fileRecords env path (textFile (pre ++ bad :: post))
      = (outputs, .error (fault.error path (pre.length + 1))) := by
  rw [textFile, fileRecords, List.map_append, records_delivers h, List.map_cons, Nat.zero_add, records]
  simp only [readLine_of_lineIs hbad, LineKind.result, List.append_nil]

/-- A refused file is read up to its first refused line. -/
theorem first_refused {lines : List String} (h : ∃ line ∈ lines, Refused env line) :
    ∃ pre bad post outputs fault, lines = pre ++ bad :: post ∧ Delivers env pre outputs ∧
      LineIs env bad (.fault fault) := by
  induction lines with
  | nil =>
    obtain ⟨line, hline, _⟩ := h
    cases hline
  | cons line lines ih =>
    obtain ⟨kind, hkind⟩ := lineIs_exists env line
    have htail : ¬Refused env line → ∃ line ∈ lines, Refused env line := by
      intro hno
      obtain ⟨bad, hmem, hbad⟩ := h
      rcases List.mem_cons.mp hmem with rfl | hmem
      · exact absurd hbad hno
      · exact ⟨bad, hmem, hbad⟩
    have hno : ∀ {kind}, LineIs env line kind → (∀ fault, kind ≠ .fault fault) → ¬Refused env line := by
      intro kind hkind hne ⟨fault, hfault⟩
      exact hne fault (lineIs_unique hkind hfault)
    cases kind with
    | blank =>
      obtain ⟨pre, bad, post, outputs, fault, rfl, hpre, hbad⟩ := ih (htail (hno hkind (by simp)))
      exact ⟨line :: pre, bad, post, outputs, fault, rfl, .blank hkind hpre, hbad⟩
    | record output =>
      obtain ⟨pre, bad, post, outputs, fault, rfl, hpre, hbad⟩ := ih (htail (hno hkind (by simp)))
      exact ⟨line :: pre, bad, post, output :: outputs, fault, rfl, .record hkind hpre, hbad⟩
    | fault why => exact ⟨[], line, lines, [], why, rfl, .nil, hkind⟩

/-- What the three readers do with a file whose records and end are known. -/
theorem readers_of_fileRecords {path : String} {file : SessionFile} {outputs : List Output}
    {e : SessionError} (h : fileRecords env path file = (outputs, .error e)) :
    (∀ (σ : Type) (consume : σ → Output → σ) (s : σ),
        readWith env path file consume s = (outputs.foldl consume s, .error e)) ∧
      readAll env path file = .error e ∧ ∀ cap, readTail env path file cap = .error e := by
  refine ⟨fun σ consume s => ?_, ?_, fun cap => ?_⟩
  · rw [readWith_eq, h]
  · rw [readAll, readWith_eq, h]
  · rw [readTail, readWith_eq, h]

/-- **Reading stops exactly at the first bad line**: whatever consumes the records of a file of text
lines, it is handed those of the lines before the first refused one, in order; the error is that of the
line, under its number among all lines; the readers that collect return nothing then; and a file is read
to its end, with every record, exactly when no line of it is refused. -/
theorem reading_stops (env : SessionEnv) (path : String) (lines : List String) :
    (∀ pre bad post outputs fault, lines = pre ++ bad :: post → Delivers env pre outputs →
      LineIs env bad (.fault fault) →
        (∀ (σ : Type) (consume : σ → Output → σ) (s : σ), readWith env path (textFile lines) consume s
          = (outputs.foldl consume s, .error (fault.error path (pre.length + 1)))) ∧
        readAll env path (textFile lines) = .error (fault.error path (pre.length + 1)) ∧
        ∀ cap, readTail env path (textFile lines) cap
          = .error (fault.error path (pre.length + 1))) ∧
      ((∃ line ∈ lines, Refused env line) →
        ∃ pre bad post outputs fault, lines = pre ++ bad :: post ∧ Delivers env pre outputs ∧
          LineIs env bad (.fault fault)) ∧
      ((∀ line ∈ lines, ¬Refused env line) → ∃ outputs, Delivers env lines outputs ∧
        ∀ (σ : Type) (consume : σ → Output → σ) (s : σ),
          readWith env path (textFile lines) consume s = (outputs.foldl consume s, .ok ())) ∧
      ∀ (σ : Type) (consume : σ → Output → σ) (s : σ),
        (readWith env path (textFile lines) consume s).2 = .ok () ↔ ∀ line ∈ lines, ¬Refused env line := by
  have hall : (∀ line ∈ lines, ¬Refused env line) → ∃ outputs, Delivers env lines outputs ∧
      ∀ (σ : Type) (consume : σ → Output → σ) (s : σ),
        readWith env path (textFile lines) consume s = (outputs.foldl consume s, .ok ()) := by
    intro hlines
    obtain ⟨outputs, houtputs⟩ := delivers_of_not_refused hlines
    refine ⟨outputs, houtputs, fun σ consume s => ?_⟩
    rw [readWith_eq, fileRecords_delivers houtputs]
  refine ⟨?_, first_refused, hall, ?_⟩
  · intro pre bad post outputs fault hlines hpre hbad
    subst hlines
    exact readers_of_fileRecords (fileRecords_refused hpre hbad path)
  · intro σ consume s
    constructor
    · intro hok line hline hrefused
      obtain ⟨pre, bad, post, outputs, fault, rfl, hpre, hbad⟩ := first_refused ⟨line, hline, hrefused⟩
      rw [readWith_eq, fileRecords_refused hpre hbad] at hok
      cases hok
    · intro hlines
      obtain ⟨outputs, _, hread⟩ := hall hlines
      rw [hread]

/-- The libraries, for the line `{}` too: an object without members. -/
def noMembersLibs : SessionLibs :=
  { savedLibs with
      fromStr := fun text => if text = "\x7b\x7d" then .ok (.ofFields []) else savedLibs.fromStr text }

theorem lineText_kind : LineIs noMembersLibs.env lineText (.record lineOutput) := by
  have hquote : '"' ∈ lineText.toList := by
    unfold lineText
    rw [String.toList_append]
    exact List.mem_append_left _ ((mem_piece _ rfl).mpr (by decide +kernel))
  have hmembers : lineText ≠ "\x7b\x7d" := by
    intro heq
    rw [heq] at hquote
    exact absurd hquote (by decide)
  have hparses : noMembersLibs.env.fromStr lineText = .ok lineRecord.toValue := by
    have hsaved := printsBack_line.parses
    rw [toWriter_line] at hsaved
    show (if lineText = "\x7b\x7d" then .ok (Value.ofFields []) else savedLibs.fromStr lineText) = _
    rw [if_neg hmembers]
    exact hsaved
  have hread : StoredRecord.ofValue lineRecord.toValue = some lineRecord := ofValue_toValue (by decide) trivial
  have hstores : Stores noMembersLibs.env lineRecord.toValue lineRecord := by
    refine ⟨?_, ?_⟩
    · show (lineRecord.toValue.get? "schema_version").bind (Value.asUnsigned 64) = _
      simp [StoredRecord.toValue, lineRecord, schemaVersion, Value.asUnsigned]
    · simp only [SessionLibs.env, hread]
  exact .line lineText_line.1 hparses hstores (by simp [SessionLibs.env, noMembersLibs, savedLibs]) rfl

/-- A record, a blank line, and one without a version; what is behind it is not read. -/
theorem reading_stops_third_line :
    readWith noMembersLibs.env "session.jsonl" (textFile [lineText, "  ", "\x7b\x7d", rowText])
        (fun outputs output => outputs ++ [output]) []
      = ([lineOutput],
          .error (.invalidRecord "session.jsonl" 3 "schema_version must be an unsigned 32-bit integer")) := by
  have hpre : Delivers noMembersLibs.env [lineText, "  "] [lineOutput] :=
    .record lineText_kind (.blank (.blank (by decide)) .nil)
  have hversion : LineIs noMembersLibs.env "\x7b\x7d"
      (.fault (.invalidRecord "schema_version must be an unsigned 32-bit integer")) := by
    have hparses : noMembersLibs.env.fromStr "\x7b\x7d" = .ok (Value.ofFields []) := rfl
    refine .version (by decide) hparses ?_
    intro found hfound
    cases hfound
  exact ((reading_stops noMembersLibs.env "session.jsonl" [lineText, "  ", "\x7b\x7d", rowText]).1
    [lineText, "  "] _ [rowText] [lineOutput] _ rfl hpre hversion).1 _ _ _

/-! ### The bounded reader -/

/-- What the deque of `read_tail` holds behind each statement of the consumer that changes it. -/
def tailSteps (cap : ℕ) (outputs : List Output) (output : Output) : List (List Output) :=
  if cap = 0 then []
  else if outputs.length = cap then [outputs.tail, outputs.tail ++ [output]]
  else [outputs ++ [output]]

/-- The consumer of `read_tail`, with what the deque held so far. -/
def keepTailHeld (cap : ℕ) (s : (List Output × ℕ) × List (List Output)) (output : Output) :
    (List Output × ℕ) × List (List Output) :=
  (keepTail cap s.1 output, s.2 ++ tailSteps cap s.1.1 output)

/-- The last of the steps is what the consumer leaves. -/
theorem tailSteps_last {cap : ℕ} (hcap : cap ≠ 0) (outputs : List Output) (dropped : ℕ) (output : Output) :
    (tailSteps cap outputs output).getLast? = some (keepTail cap (outputs, dropped) output).1 := by
  rw [tailSteps, keepTail, if_neg hcap, if_neg hcap]
  split <;> rfl

theorem tailSteps_le {cap : ℕ} {outputs : List Output} (h : outputs.length ≤ cap) (output : Output) :
    ∀ held ∈ tailSteps cap outputs output, held.length ≤ cap := by
  intro held hheld
  rw [tailSteps] at hheld
  split at hheld
  · cases hheld
  split at hheld
  · rcases List.mem_cons.mp hheld with rfl | hheld
    · rw [List.length_tail]
      omega
    · rw [List.mem_singleton.mp hheld, List.length_append, List.length_tail, List.length_singleton]
      omega
  · rw [List.mem_singleton.mp hheld, List.length_append, List.length_singleton]
    omega

theorem keepTail_le {cap : ℕ} {s : List Output × ℕ} (h : s.1.length ≤ cap) (output : Output) :
    (keepTail cap s output).1.length ≤ cap := by
  obtain ⟨outputs, dropped⟩ := s
  by_cases hcap : cap = 0
  · rw [keepTail, if_pos hcap]
    exact h
  · have hlast := List.mem_of_getLast? (tailSteps_last hcap outputs dropped output)
    exact tailSteps_le h output _ hlast

/-- **The deque never holds more than `cap` records.** -/
theorem foldl_keepTailHeld (cap : ℕ) (outputs : List Output) {s : (List Output × ℕ) × List (List Output)}
    (hs : s.1.1.length ≤ cap) (hheld : ∀ held ∈ s.2, held.length ≤ cap) :
    ∀ held ∈ (outputs.foldl (keepTailHeld cap) s).2, held.length ≤ cap := by
  induction outputs generalizing s with
  | nil => exact hheld
  | cons output outputs ih =>
    refine ih (keepTail_le hs output) ?_
    intro held hmem
    rcases List.mem_append.mp hmem with hmem | hmem
    · exact hheld held hmem
    · exact tailSteps_le hs output held hmem

/-- Keeping the account does not change the deque. -/
theorem foldl_keepTailHeld_fst (cap : ℕ) (outputs : List Output)
    (s : (List Output × ℕ) × List (List Output)) :
    (outputs.foldl (keepTailHeld cap) s).1 = outputs.foldl (keepTail cap) s.1 := by
  induction outputs generalizing s with
  | nil => rfl
  | cons output outputs ih => exact ih _

/-- **The bounded reader is the tail of the full reader**: it fails with the same error, or returns the
last `min cap n` of the `n` records, and how many went before them; and while the file is read, valid or
not, its deque never holds more than `cap`. -/
theorem readTail_refines (env : SessionEnv) (path : String) (file : SessionFile) (cap : ℕ) :
    readTail env path file cap
        = (readAll env path file).map (fun outputs =>
          (outputs.drop (outputs.length - min cap outputs.length),
            outputs.length - min cap outputs.length)) ∧
      (readWith env path file (keepTailHeld cap) (([], 0), [])).1.1
        = (readWith env path file (keepTail cap) ([], 0)).1 ∧
      ∀ held ∈ (readWith env path file (keepTailHeld cap) (([], 0), [])).1.2, held.length ≤ cap := by
  refine ⟨?_, ?_, ?_⟩
  · rw [readTail, readAll, readWith_eq, readWith_eq, foldl_snoc, List.nil_append, foldl_keepTail]
    obtain ⟨outputs, result⟩ := fileRecords env path file
    cases result with
    | error e => rfl
    | ok _ =>
      have hmin : outputs.length - min cap outputs.length = outputs.length - cap := by omega
      show Except.ok (outputs.drop (outputs.length - cap), outputs.length - cap)
        = Except.ok (outputs.drop (outputs.length - min cap outputs.length), _)
      rw [hmin]
  · rw [readWith_eq, readWith_eq, foldl_keepTailHeld_fst]
  · rw [readWith_eq]
    exact foldl_keepTailHeld cap _ (Nat.zero_le cap) (by simp)

end Tapgres.Session
