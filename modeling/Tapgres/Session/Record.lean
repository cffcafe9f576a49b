import Tapgres.Decode.Output

/-!
# Records of a saved session

The shape in which an output record is stored, as one line of JSONL, and the two conversions.  JSON,
RFC 3339 timestamps and socket addresses are read and written by libraries: `SessionEnv` holds what the
session code uses of them.
-/

namespace Tapgres.Session

open Tapgres.Net Tapgres.Decode Tapgres.Filter

/-- `SCHEMA_VERSION`; readers refuse every other version. -/
def schemaVersion : ℕ := 1

structure StoredFieldSummary where
  name : String
  typeOid : ℕ
  formatCode : ℤ
  deriving DecidableEq, Repr

def StoredFieldSummary.from (value : FieldSummary) : StoredFieldSummary :=
  ⟨value.name, value.typeOid, value.formatCode⟩

def StoredFieldSummary.into (value : StoredFieldSummary) : FieldSummary :=
  ⟨value.name, value.typeOid, value.formatCode⟩

structure StoredDataColumn where
  name : String
  typeOid : ℕ
  value : String
  deriving DecidableEq, Repr

def StoredDataColumn.from (value : DataColumn) : StoredDataColumn :=
  ⟨value.name, value.typeOid, value.value⟩

def StoredDataColumn.into (value : StoredDataColumn) : DataColumn :=
  ⟨value.name, value.typeOid, value.value⟩

inductive StoredDetail where
  | rowDescription (columns : List StoredFieldSummary)
  | dataRow (columns : List StoredDataColumn)
  deriving DecidableEq, Repr

def StoredDetail.from : EventDetail → StoredDetail
  | .rowDescription columns => .rowDescription (columns.map StoredFieldSummary.from)
  | .dataRow columns => .dataRow (columns.map StoredDataColumn.from)

def StoredDetail.into : StoredDetail → EventDetail
  | .rowDescription columns => .rowDescription (columns.map StoredFieldSummary.into)
  | .dataRow columns => .dataRow (columns.map StoredDataColumn.into)

inductive StoredDirection where
  | f2b
  | b2f
  deriving DecidableEq, Repr

def StoredDirection.from : MessageDirection → StoredDirection
  | .frontendToBackend => .f2b
  | .backendToFrontend => .b2f

def StoredDirection.into : StoredDirection → MessageDirection
  | .f2b => .frontendToBackend
  | .b2f => .backendToFrontend

inductive StoredPayload where
  | message (direction : StoredDirection) (messageType text rendered client : String)
      (detail : Option StoredDetail)
  | line (text : String)
  | status (text : String)
  deriving DecidableEq, Repr

structure StoredRecord where
  schemaVersion : ℕ
  timestamp : String
  payload : StoredPayload
  deriving DecidableEq, Repr

inductive SessionError where
  | io (path source : String)
  | invalidRecord (path : String) (line : ℕ) (message : String)
  | unsupportedSchema (path : String) (line found : ℕ)
  | encode (path source : String)
  deriving DecidableEq, Repr

def SessionError.display : SessionError → String
  | .io path source => s!"{path}: {source}"
  | .invalidRecord path line message => s!"{path}: invalid JSONL record at line {line}: {message}"
  | .unsupportedSchema path line found =>
    s!"{path}: unsupported schema version {found} at line {line} (supported: {schemaVersion})"
  | .encode path source => s!"{path}: could not encode JSONL record: {source}"

/-- What the session code takes from elsewhere; errors are their texts. -/
structure SessionEnv where
  /-- `serde_json::Value` -/
  Json : Type
  /-- `serde_json::from_str` -/
  fromStr : String → Except String Json
  /-- The member `schema_version`, where it is an unsigned 64-bit integer. -/
  schemaVersionOf : Json → Option ℕ
  /-- `serde_json::from_value` -/
  fromValue : Json → Except String StoredRecord
  /-- `DateTime::parse_from_rfc3339`, of which only the failure is used. -/
  parseRfc3339 : String → Except String Unit
  /-- `SocketAddr::from_str` -/
  parseAddr : String → Except String SocketAddr
  /-- The `Display` of an address. -/
  showAddr : SocketAddr → String
  /-- The `Debug` of a string. -/
  debugStr : String → String

/-- `now` is the clock reading that lines and status records are stored under. -/
def StoredRecord.fromOutput (env : SessionEnv) (now : String) : Output → StoredRecord
  | .message message detail =>
    ⟨Session.schemaVersion, message.timestamp,
      .message (.from message.direction) message.kind message.text message.rendered
        (env.showAddr message.client) (detail.map StoredDetail.from)⟩
  | .line text => ⟨Session.schemaVersion, now, .line text⟩
  | .status text => ⟨Session.schemaVersion, now, .status text⟩

def StoredRecord.intoOutput (env : SessionEnv) (path : String) (line : ℕ) (record : StoredRecord) :
    Except SessionError Output :=
  match env.parseRfc3339 record.timestamp with
  | .error error => .error (.invalidRecord path line s!"timestamp must be RFC 3339: {error}")
  | .ok _ =>
    match record.payload with
    | .message direction messageType text rendered client detail =>
      match env.parseAddr client with
      | .error error =>
        .error (.invalidRecord path line
          s!"invalid client address {env.debugStr client}: {error}")
      | .ok address =>
        .ok (.message
          { timestamp := record.timestamp, rendered := rendered, client := address
            direction := direction.into, kind := messageType, text := text }
          (detail.map StoredDetail.into))
    | .line text => .ok (.line text)
    | .status text => .ok (.status text)

end Tapgres.Session
