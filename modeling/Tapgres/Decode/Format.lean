import Tapgres.Pgwire

/-!
# Per-message formatting helpers

The texts `decode.rs` renders a message with: one function per message family, over the byte helpers
`is_printable`, `quote` and `hex_preview`.  Text that is written inside braces in the source uses the
escapes `\x7b` and `\x7d` here.
-/

namespace Tapgres.Decode

open Tapgres.Net Tapgres.Pgwire

/-- A stripped-down description of one result column. -/
structure FieldSummary where
  name : String
  typeOid : ℕ
  formatCode : ℤ
  deriving DecidableEq, Repr

def FieldSummary.fromDescription (f : FieldDescription) : FieldSummary :=
  ⟨f.name, f.typeId, f.formatCode⟩

/-- One decoded cell of a `DataRow`, labelled and pre-formatted for display. -/
structure DataColumn where
  name : String
  typeOid : ℕ
  value : String
  deriving DecidableEq, Repr

/-- Structured rendering detail for the TUI's rich display mode. -/
inductive EventDetail where
  | rowDescription (columns : List FieldSummary)
  | dataRow (columns : List DataColumn)
  deriving DecidableEq, Repr

def formatCodeText : ℤ := 0
def formatCodeBinary : ℤ := 1

/-! ### Byte helpers -/

def field (fields : List (UInt8 × String)) (ty : UInt8) : Option String :=
  (fields.find? fun kv => kv.1 == ty).map Prod.snd

def isPrintable (b : Bytes) : Bool :=
  !b.isEmpty && b.all fun c => (32 ≤ c && c < 127) || c == 9 || c == 10

/-- `String::from_utf8_lossy`, which the source calls on printable (hence ASCII) bytes only. -/
def fromUtf8Ascii (b : Bytes) : String :=
  String.ofList (b.map fun c => Char.ofNat c.toNat)

/-- `{:02x}` of one byte. -/
def hexByte (c : UInt8) : List Char :=
  [Nat.digitChar (c.toNat / 16), Nat.digitChar (c.toNat % 16)]

def hexPreview (b : Bytes) : String :=
  let max := 48
  let n := min b.length max
  let s := String.ofList ((b.take n).flatMap hexByte)
  if b.length > max then s ++ "… (" ++ toString b.length ++ " bytes)" else s

def quote (b : Bytes) : String :=
  if isPrintable b then "'" ++ fromUtf8Ascii b ++ "'" else hexPreview b

def formatBytes (b : Bytes) : String :=
  if isPrintable b then fromUtf8Ascii b else hexPreview b

def join (sep : String) (parts : List String) : String := sep.intercalate parts

/-! ### Frontend messages -/

def formatStartup (s : Startup) : String :=
  let out := "protocol " ++ toString s.protocolNumberMajor ++ "." ++ toString s.protocolNumberMinor
  if s.parameters.isEmpty then out
  else out ++ "  " ++ join ", " (s.parameters.map fun kv => kv.1 ++ "=" ++ kv.2)

def queryText (q : Query) : String := q.query

def formatOids (oids : List ℕ) : String :=
  let parts := oids.map fun o => toString o
  if parts.isEmpty then "-" else join ", " parts

def formatParse (p : Parse) : String :=
  p.name.getD "<unnamed>" ++ "  [param types: " ++ formatOids p.typeOids ++ "]  " ++ p.query

/-- Format codes (text `0`, binary `1`): `text`, `binary`, or a per-column list. -/
def formatFormatCodes (codes : List ℤ) : String :=
  if codes.isEmpty || codes.all (· == formatCodeText) then "text"
  else if codes.all (· == formatCodeBinary) then "binary"
  else
    let parts := codes.map fun c => if c == formatCodeBinary then "binary" else "text"
    "[" ++ join ", " parts ++ "]"

def formatBind (b : Bind) : String :=
  let portal := b.portalName.getD "<unnamed>"
  let stmt := b.statementName.getD "<unnamed>"
  let allText := b.parameterFormatCodes.all (· == formatCodeText) || b.parameterFormatCodes.isEmpty
  let allBinary := b.parameterFormatCodes.all (· == formatCodeBinary)
  let params := b.parameters.map fun p =>
    match p with
    | none => "NULL"
    | some bytes =>
      if allBinary then hexPreview bytes
      else if allText || isPrintable bytes then quote bytes
      else hexPreview bytes
  portal ++ "  <-  " ++ stmt ++ "  params: [" ++ join ", " params ++ "]  result: "
    ++ formatFormatCodes b.resultColumnFormatCodes

/-- `targetType` is `b'S'` for a statement and `b'P'` for a portal. -/
def formatDescribeClose (targetType : UInt8) (name : Option String) : String :=
  let kind := if targetType == 83 then "statement" else if targetType == 80 then "portal" else "?"
  kind ++ " " ++ name.getD "<unnamed>"

def formatExecute (e : Execute) : String :=
  let name := e.name.getD "<unnamed>"
  if e.maxRows == 0 then name else name ++ " (limit " ++ toString e.maxRows ++ ")"

def formatPmf : PasswordMessageFamily → String
  | .password p => "password (len=" ++ toString p.utf8ByteSize ++ ")"
  | .saslInitialResponse authMethod data =>
    "SASL initial  mech=" ++ authMethod ++ "  data-len=" ++ toString ((data.map List.length).getD 0)
  | .saslResponse data => "SASL continue (len=" ++ toString data.length ++ ")"
  | .raw b => "raw password-family message (len=" ++ toString b.length ++ ")"
  | .other => "auth message"

/-! ### Backend messages -/

def formatAuth : Authentication → String
  | .ok => "Ok"
  | .cleartextPassword => "CleartextPassword"
  | .kerberosV5 => "KerberosV5"
  | .md5Password => "MD5Password"
  | .sasl methods => "SASL [" ++ join ", " methods ++ "]"
  | .saslContinue => "SASLContinue"
  | .saslFinal => "SASLFinal"
  | .other => "Authentication"

def formatBkd (pid : ℤ) (secretKey : SecretKey) : String :=
  let key :=
    match secretKey with
    | .i32 i => toString i
    | .bytes bs => hexPreview bs
  "pid=" ++ toString pid ++ " key=" ++ key

def formatNegotiate (newestMinorProtocol : ℤ) (unsupportedOptions : List String) : String :=
  let out := "negotiated minor protocol " ++ toString newestMinorProtocol
  if unsupportedOptions.isEmpty then out
  else out ++ "; unsupported: [" ++ join ", " unsupportedOptions ++ "]"

def txnStatus : TransactionStatus → String
  | .idle => "idle"
  | .transaction => "in-transaction"
  | .error => "failed-transaction"

/-- The field keys are `S`, `V`, `C`, `M`, `D` and `H`. -/
def formatErrorFields (fields : List (UInt8 × String)) : String :=
  let severity := ((field fields 83).or (field fields 86)).getD "ERROR"
  let code := (field fields 67).getD ""
  let message := (field fields 77).getD ""
  let out := severity ++ ": " ++ message ++ " [" ++ code ++ "]"
  let out := match field fields 68 with
    | some detail => out ++ "  detail: " ++ detail
    | none => out
  match field fields 72 with
  | some hint => out ++ "  hint: " ++ hint
  | none => out

def formatRowDesc (fields : List FieldSummary) : String :=
  join ", " (fields.map fun f =>
    let fmt :=
      if f.formatCode == formatCodeText then "text"
      else if f.formatCode == formatCodeBinary then "binary" else "?"
    f.name ++ "(oid=" ++ toString f.typeOid ++ ", " ++ fmt ++ ")")

def formatCopyResponse (dir : String) (columns : ℤ) : String :=
  "copy " ++ dir ++ " (" ++ toString columns ++ " columns)"

/-! ### Data rows -/

/-- One field's worth of bytes read from a `DataRow` payload. -/
inductive FieldRead where
  | null
  | bytes (b : Bytes)
  | truncated
  deriving DecidableEq, Repr

/-- `get_i32`: four bytes, big-endian, as a signed number. -/
def getI32 (b0 b1 b2 b3 : UInt8) : ℤ :=
  (BitVec.ofNat 32 (((b0.toNat * 256 + b1.toNat) * 256 + b2.toNat) * 256 + b3.toNat)).toInt

/-- Read one field; returns the value, whether more fields may follow, and the rest of the payload. -/
def readField : Bytes → FieldRead × Bool × Bytes
  | b0 :: b1 :: b2 :: b3 :: b =>
    let len := getI32 b0 b1 b2 b3
    if len < 0 then (.null, true, b)
    else if b.length < len.toNat then (.truncated, false, b)
    else (.bytes (b.take len.toNat), true, b.drop len.toNat)
  | b => (.truncated, false, b)

/-- The loop of `data_row_columns`: `remaining` fields from index `i` on. -/
def dataRowColumnsFrom (desc : Option (List FieldSummary)) :
    ℕ → ℕ → Bytes → List DataColumn
  | 0, _, _ => []
  | remaining + 1, i, b =>
    let field := desc.bind fun d => d[i]?
    let (read, more, rest) := readField b
    let value :=
      match read with
      | .null => "NULL"
      | .truncated => "<?>"
      | .bytes bytes =>
        let binary := (field.map fun f => f.formatCode == formatCodeBinary).getD false
        if binary then hexPreview bytes else quote bytes
    let col : DataColumn :=
      { name := (field.map FieldSummary.name).getD "?"
        typeOid := (field.map FieldSummary.typeOid).getD 0
        value := value }
    if more then col :: dataRowColumnsFrom desc remaining (i + 1) rest else [col]

def dataRowColumns (r : DataRow) (desc : Option (List FieldSummary)) : List DataColumn :=
  dataRowColumnsFrom desc (max r.fieldCount 0).toNat 0 r.data

def formatColumns (cols : List DataColumn) (labelled : Bool) : String :=
  if labelled then
    "\x7b " ++ join ", " (cols.map fun c => c.name ++ "=" ++ c.value) ++ " \x7d"
  else
    "[" ++ join ", " (cols.map DataColumn.value) ++ "]"

end Tapgres.Decode
