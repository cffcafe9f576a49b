import Tapgres.Session.Record

/-!
# Stored records as JSON

What the `Serialize` and `Deserialize` of the stored types make of a record: an object into which the
payload is flattened, tagged by `record_type`; the detail, tagged by `detail_type`, is nested in it.  The
readers here are those of objects, the one form that is ever written.

* `ofValue_toValue` — a record whose numbers fit into their fields is read back as it was.
-/

namespace Tapgres.Session

/-- `serde_json::Value`; an object is read by key, so it is the map from its keys. -/
inductive Value where
  | null
  | bool (b : Bool)
  | integer (n : ℤ)
  | float (text : String)
  | string (text : String)
  | array (elements : List Value)
  | object (member : String → Option Value)

/-- The object with these members. -/
def Value.ofFields (fields : List (String × Value)) : Value := .object fun key => fields.lookup key

/-! ### Writing -/

def StoredFieldSummary.toValue (s : StoredFieldSummary) : Value :=
  .ofFields [("name", .string s.name), ("type_oid", .integer s.typeOid),
    ("format_code", .integer s.formatCode)]

def StoredDataColumn.toValue (c : StoredDataColumn) : Value :=
  .ofFields [("name", .string c.name), ("type_oid", .integer c.typeOid), ("value", .string c.value)]

def StoredDetail.toValue : StoredDetail → Value
  | .rowDescription columns =>
    .ofFields [("detail_type", .string "row_description"),
      ("columns", .array (columns.map StoredFieldSummary.toValue))]
  | .dataRow columns =>
    .ofFields [("detail_type", .string "data_row"),
      ("columns", .array (columns.map StoredDataColumn.toValue))]

def StoredDirection.toValue : StoredDirection → Value
  | .f2b => .string "f2b"
  | .b2f => .string "b2f"

/-- The members of a payload, its tag first; a missing detail is skipped. -/
def StoredPayload.fields : StoredPayload → List (String × Value)
  | .message direction messageType text rendered client detail =>
    [("record_type", .string "message"), ("direction", direction.toValue),
        ("message_type", .string messageType), ("text", .string text), ("rendered", .string rendered),
        ("client", .string client)]
      ++ (detail.map fun d => ("detail", d.toValue)).toList
  | .line text => [("record_type", .string "line"), ("text", .string text)]
  | .status text => [("record_type", .string "status"), ("text", .string text)]

/-- The payload's members are flattened into the record's. -/
def StoredRecord.toValue (record : StoredRecord) : Value :=
  .ofFields ([("schema_version", .integer record.schemaVersion), ("timestamp", .string record.timestamp)]
    ++ record.payload.fields)

/-! ### Reading -/

/-- `Value::get` -/
def Value.get? : Value → String → Option Value
  | .object member, key => member key
  | _, _ => none

def Value.asString : Value → Option String
  | .string text => some text
  | _ => none

/-- An unsigned integer of so many bits. -/
def Value.asUnsigned (bits : ℕ) : Value → Option ℕ
  | .integer n => if 0 ≤ n ∧ n.toNat < 2 ^ bits then some n.toNat else none
  | _ => none

/-- An `i16`. -/
def Value.asI16 : Value → Option ℤ
  | .integer n => if -32768 ≤ n ∧ n ≤ 32767 then some n else none
  | _ => none

def Value.asArray : Value → Option (List Value)
  | .array elements => some elements
  | _ => none

def StoredFieldSummary.ofValue (v : Value) : Option StoredFieldSummary := do
  let name ← (← v.get? "name").asString
  let typeOid ← (← v.get? "type_oid").asUnsigned 32
  let formatCode ← (← v.get? "format_code").asI16
  return ⟨name, typeOid, formatCode⟩

def StoredDataColumn.ofValue (v : Value) : Option StoredDataColumn := do
  let name ← (← v.get? "name").asString
  let typeOid ← (← v.get? "type_oid").asUnsigned 32
  let value ← (← v.get? "value").asString
  return ⟨name, typeOid, value⟩

def StoredDetail.ofValue (v : Value) : Option StoredDetail := do
  let tag ← (← v.get? "detail_type").asString
  let columns ← (← v.get? "columns").asArray
  match tag with
  | "row_description" => return .rowDescription (← columns.mapM StoredFieldSummary.ofValue)
  | "data_row" => return .dataRow (← columns.mapM StoredDataColumn.ofValue)
  | _ => none

/-- An optional member: absent and `null` are both `None`. -/
def StoredDetail.ofMember : Option Value → Option (Option StoredDetail)
  | none => some none
  | some .null => some none
  | some v => (StoredDetail.ofValue v).map some

def StoredDirection.ofValue (v : Value) : Option StoredDirection := do
  match ← v.asString with
  | "f2b" => return .f2b
  | "b2f" => return .b2f
  | _ => none

def StoredPayload.ofValue (v : Value) : Option StoredPayload := do
  match ← (← v.get? "record_type").asString with
  | "message" =>
    let direction ← StoredDirection.ofValue (← v.get? "direction")
    let messageType ← (← v.get? "message_type").asString
    let text ← (← v.get? "text").asString
    let rendered ← (← v.get? "rendered").asString
    let client ← (← v.get? "client").asString
    let detail ← StoredDetail.ofMember (v.get? "detail")
    return .message direction messageType text rendered client detail
  | "line" => return .line (← (← v.get? "text").asString)
  | "status" => return .status (← (← v.get? "text").asString)
  | _ => none

def StoredRecord.ofValue (v : Value) : Option StoredRecord := do
  let schemaVersion ← (← v.get? "schema_version").asUnsigned 32
  let timestamp ← (← v.get? "timestamp").asString
  return ⟨schemaVersion, timestamp, ← StoredPayload.ofValue v⟩

/-! ### What is read back -/

/-- The numbers of a field summary lie in their types, a `u32` and an `i16`. -/
def StoredFieldSummary.Fits (s : StoredFieldSummary) : Prop :=
  s.typeOid < 2 ^ 32 ∧ -32768 ≤ s.formatCode ∧ s.formatCode ≤ 32767

def StoredDataColumn.Fits (c : StoredDataColumn) : Prop := c.typeOid < 2 ^ 32

def StoredDetail.Fits : StoredDetail → Prop
  | .rowDescription columns => ∀ column ∈ columns, column.Fits
  | .dataRow columns => ∀ column ∈ columns, column.Fits

def StoredPayload.Fits : StoredPayload → Prop
  | .message _ _ _ _ _ detail => ∀ d ∈ detail, d.Fits
  | _ => True

@[simp] theorem get?_ofFields (fields : List (String × Value)) (key : String) :
    (Value.ofFields fields).get? key = fields.lookup key := rfl

@[simp] theorem asString_string (text : String) : (Value.string text).asString = some text := rfl

@[simp] theorem asArray_array (elements : List Value) : (Value.array elements).asArray = some elements :=
  rfl

theorem asUnsigned_integer (bits : ℕ) {n : ℕ} (h : n < 2 ^ bits) :
    (Value.integer n).asUnsigned bits = some n := by
  have hfits : (0 : ℤ) ≤ n ∧ (n : ℤ).toNat < 2 ^ bits := ⟨by omega, by rwa [Int.toNat_natCast]⟩
  rw [Value.asUnsigned, if_pos hfits, Int.toNat_natCast]

theorem asI16_integer {n : ℤ} (h : -32768 ≤ n ∧ n ≤ 32767) : (Value.integer n).asI16 = some n :=
  if_pos h

theorem fieldSummary_ofValue {s : StoredFieldSummary} (h : s.Fits) :
    StoredFieldSummary.ofValue s.toValue = some s := by
  obtain ⟨hoid, hcode⟩ := h
  simp [StoredFieldSummary.ofValue, StoredFieldSummary.toValue, List.lookup_cons, asUnsigned_integer 32 hoid,
    asI16_integer hcode]

theorem dataColumn_ofValue {c : StoredDataColumn} (h : c.Fits) :
    StoredDataColumn.ofValue c.toValue = some c := by
  simp [StoredDataColumn.ofValue, StoredDataColumn.toValue, List.lookup_cons, asUnsigned_integer 32 h]

/-- A list is read back when each of its elements is. -/
theorem mapM_ofValue {α : Type} {toValue : α → Value} {ofValue : Value → Option α} {l : List α}
    (h : ∀ x ∈ l, ofValue (toValue x) = some x) : (l.map toValue).mapM ofValue = some l := by
  induction l with
  | nil => rfl
  | cons x l ih =>
    rw [List.map_cons, List.mapM_cons, h x (by simp), ih fun y hy => h y (by simp [hy])]
    rfl

theorem detail_ofValue {d : StoredDetail} (h : d.Fits) : StoredDetail.ofValue d.toValue = some d := by
  cases d with
  | rowDescription columns =>
    simp [StoredDetail.ofValue, StoredDetail.toValue, List.lookup_cons,
      mapM_ofValue fun column hcolumn => fieldSummary_ofValue (h column hcolumn)]
  | dataRow columns =>
    simp [StoredDetail.ofValue, StoredDetail.toValue, List.lookup_cons,
      mapM_ofValue fun column hcolumn => dataColumn_ofValue (h column hcolumn)]

theorem detail_ofMember {d : StoredDetail} (h : d.Fits) :
    StoredDetail.ofMember (some d.toValue) = some (some d) := by
  have hobject : StoredDetail.ofMember (some d.toValue) = (StoredDetail.ofValue d.toValue).map some := by
    cases d <;> rfl
  rw [hobject, detail_ofValue h]
  rfl

@[simp] theorem direction_ofValue (d : StoredDirection) : StoredDirection.ofValue d.toValue = some d := by
  cases d <;> rfl

/-- The payload is found among the members of the record it is flattened into. -/
theorem payload_ofValue {record : StoredRecord} (h : record.payload.Fits) :
    StoredPayload.ofValue record.toValue = some record.payload := by
  obtain ⟨schemaVersion, timestamp, payload⟩ := record
  cases payload with
  | message direction messageType text rendered client detail =>
    cases detail with
    | none =>
      simp [StoredPayload.ofValue, StoredRecord.toValue, StoredPayload.fields, List.lookup_cons,
        StoredDetail.ofMember]
    | some d =>
      simp [StoredPayload.ofValue, StoredRecord.toValue, StoredPayload.fields, List.lookup_cons,
        detail_ofMember (h d rfl)]
  | line text => simp [StoredPayload.ofValue, StoredRecord.toValue, StoredPayload.fields, List.lookup_cons]
  | status text => simp [StoredPayload.ofValue, StoredRecord.toValue, StoredPayload.fields, List.lookup_cons]

/-- **A record is read back as it was written.** -/
theorem ofValue_toValue {record : StoredRecord} (hversion : record.schemaVersion < 2 ^ 32)
    (h : record.payload.Fits) : StoredRecord.ofValue record.toValue = some record := by
  have hget : ∀ key, record.toValue.get? key
      = ([("schema_version", .integer record.schemaVersion), ("timestamp", .string record.timestamp)]
          ++ record.payload.fields : List (String × Value)).lookup key := fun _ => rfl
  simp [StoredRecord.ofValue, hget, List.lookup_cons, asUnsigned_integer 32 hversion, payload_ofValue h]

end Tapgres.Session
