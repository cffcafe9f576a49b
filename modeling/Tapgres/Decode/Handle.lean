import Tapgres.Decode.Output
import Tapgres.Lib.Loop

/-!
# Draining one direction's buffer

`handle_frontend`, `handle_backend` and `drain_direction` of `decode.rs`.  Each handler returns what it
does to the direction and to the outcome, what it emits, and whether the loop goes round again; the
drain is a loop (`Lib.Loop`) over these, on fuel that `drain_ends` shows to be enough.
-/

namespace Tapgres.Decode

open Tapgres.Net Tapgres.Pgwire Tapgres.Flow Tapgres.Lib.Loop

/-- Which one-byte answer the *server* side should now expect. -/
inductive ServerNegotiationWait where
  | none
  | ssl
  | gss
  deriving DecidableEq, Repr

/-- Result of draining one direction's buffer. -/
structure DrainOutcome where
  serverNegotiationWait : ServerNegotiationWait := .none
  encrypted : Bool := false
  msgs : ℕ := 0
  bytes : ℕ := 0
  deriving DecidableEq, Repr

/-- What handling one message leaves behind; `more` is whether draining goes on. -/
structure Handled where
  dir : Direction
  outcome : DrainOutcome
  events : List Event
  more : Bool

def DrainOutcome.count (outcome : DrainOutcome) (consumed : ℕ) : DrainOutcome :=
  { outcome with msgs := outcome.msgs + 1, bytes := outcome.bytes + consumed }

def Direction.emitter (dir : Direction) : MessageEmitter := ⟨dir.role, dir.client⟩

def sslAcceptedText : String := "SSL accepted — connection is now encrypted, decoding stops here"
def gssAcceptedText : String := "GSS accepted — connection is now encrypted, decoding stops here"

/-- Handle one frontend message. -/
def handleFrontend (dir : Direction) (msg : FrontendMessage) (outcome : DrainOutcome)
    (consumed : ℕ) : Handled :=
  let outcome := if msg.isPeek then outcome else outcome.count consumed
  let emit (dir : Direction) (kind text : String) : Handled :=
    ⟨dir, outcome, [.message (Direction.emitter dir) (.emit kind text none) consumed], true⟩
  match msg with
  | .sslNegotiation .none =>
    -- neither SSL nor GSS requested: the next turn decodes the Startup message
    ⟨{ dir with ctx := { dir.ctx with awaitingFrontendSsl := false } }, outcome, [], true⟩
  | .sslNegotiation .postgresSsl =>
    -- stop draining the client and have the caller arm the server direction
    let dir := { dir with ctx := { dir.ctx with awaitingFrontendSsl := false } }
    { emit dir "SSLRequest" "(awaiting server reply)" with
      outcome := { outcome with serverNegotiationWait := .ssl }, more := false }
  | .sslNegotiation .postgresGss =>
    let dir := { dir with ctx := { dir.ctx with awaitingFrontendSsl := false } }
    { emit dir "GssEncRequest" "(awaiting server reply)" with
      outcome := { outcome with serverNegotiationWait := .gss }, more := false }
  | .startup s =>
    -- from now on bytes are typed frontend messages
    emit { dir with ctx := { dir.ctx with awaitingFrontendStartup := false } } "Startup" (formatStartup s)
  | .cancelRequest => emit dir "CancelRequest" ""
  | .query q => emit dir "Query" (queryText q)
  | .parse p => emit dir "Parse" (formatParse p)
  | .bind b => emit dir "Bind" (formatBind b)
  | .describe d => emit dir "Describe" (formatDescribeClose d.targetType d.name)
  | .execute e => emit dir "Execute" (formatExecute e)
  | .close c => emit dir "Close" (formatDescribeClose c.targetType c.name)
  | .sync => emit dir "Sync" ""
  | .flush => emit dir "Flush" ""
  | .terminate => emit dir "Terminate" ""
  | .passwordMessageFamily pmf => emit dir "AuthData" (formatPmf pmf)
  | .copyData data => emit dir "CopyData" (formatBytes data)
  | .copyFail message => emit dir "CopyFail" message
  | .copyDone => emit dir "CopyDone" ""
  | .portalSuspended => emit dir "PortalSuspended" ""

/-- Handle one backend message; the server loop always goes round again. -/
def handleBackend (pg : Decoder) (dir : Direction) (msg : BackendMessage) (outcome : DrainOutcome)
    (consumed : ℕ) : Handled :=
  let outcome := outcome.count consumed
  let handled (dir : Direction) (body : Body) : Handled :=
    ⟨dir, outcome, [.message (Direction.emitter dir) body consumed], true⟩
  let emit (kind text : String) : Handled := handled dir (.emit kind text none)
  match msg with
  | .authentication a => emit "Authentication" (formatAuth a)
  | .parameterStatus name value => emit "ParameterStatus" (name ++ "=" ++ value)
  | .backendKeyData pid secretKey => emit "BackendKeyData" (formatBkd pid secretKey)
  | .negotiateProtocolVersion newest unsupported =>
    emit "NegotiateProtocolVersion" (formatNegotiate newest unsupported)
  | .readyForQuery status => emit "ReadyForQuery" ("txn=" ++ txnStatus status)
  | .commandComplete tag => emit "CommandComplete" tag
  | .emptyQueryResponse => emit "EmptyQueryResponse" ""
  | .errorResponse fields => emit "ERROR" (formatErrorFields fields)
  | .noticeResponse fields => emit "NOTICE" (formatErrorFields fields)
  | .notificationResponse channel payload =>
    emit "NOTIFY" ("channel=" ++ pg.debugStr channel ++ " payload=" ++ pg.debugStr payload)
  | .rowDescription fields =>
    let summary := fields.map FieldSummary.fromDescription
    -- cached for later `DataRow`s, across `ReadyForQuery` cycles
    handled { dir with rowDesc := some summary }
      (.emit "RowDescription" (formatRowDesc summary) (some (.rowDescription summary)))
  | .noData => handled { dir with rowDesc := none } (.emit "NoData" "" none)
  | .dataRow r =>
    let columns := dataRowColumns r dir.rowDesc
    let text := formatColumns columns dir.rowDesc.isSome
    if dir.rowDesc.isSome then handled dir (.emit "DataRow" text (some (.dataRow columns)))
    else emit "DataRow" text
  | .parameterDescription types => emit "ParameterDescription" (formatOids types)
  | .parseComplete => emit "ParseComplete" ""
  | .bindComplete => emit "BindComplete" ""
  | .closeComplete => emit "CloseComplete" ""
  | .portalSuspended => emit "PortalSuspended" ""
  | .sslResponse s =>
    -- one-shot: the flag is cleared whatever the answer
    let dir := { dir with ctx := { dir.ctx with awaitingBackendSslResponse := false } }
    match s with
    | .accept =>
      { handled dir (.warn sslAcceptedText) with outcome := { outcome with encrypted := true } }
    | .refuse => handled dir (.emit "SslResponse" "refuse (continuing in cleartext)" none)
    | .other => handled dir (.emit "SslResponse" "unknown" none)
  | .gssEncResponse s =>
    let dir := { dir with ctx := { dir.ctx with awaitingBackendGssResponse := false } }
    match s with
    | .accept =>
      { handled dir (.warn gssAcceptedText) with outcome := { outcome with encrypted := true } }
    | .refuse => handled dir (.emit "GssEncResponse" "refuse (continuing in cleartext)" none)
    | .other => handled dir (.emit "GssEncResponse" "unknown" none)
  | .copyInResponse columns => emit "CopyInResponse" (formatCopyResponse "in" columns)
  | .copyOutResponse columns => emit "CopyOutResponse" (formatCopyResponse "out" columns)
  | .copyBothResponse columns => emit "CopyBothResponse" (formatCopyResponse "both" columns)
  | .copyData data => emit "CopyData" (formatBytes data)
  | .copyFail message => emit "CopyFail" message
  | .copyDone => emit "CopyDone" ""

/-! ### The drain loop -/

/-- The state of a drain: the direction, the outcome so far, and what has been emitted. -/
structure Draining where
  dir : Direction
  outcome : DrainOutcome
  events : List Event

/-- `decode_error`: report and drop the remainder.  `lost` is the buffer before the failing decode. -/
def decodeError (role : Role) (e : String) (rest : Bytes) (lost : ℕ) (s : Draining) : Draining :=
  { s with
    dir := { s.dir with rxbuf := [] }
    events := s.events ++ [.decodeError role rest.length e lost] }

/-- One turn of either loop of `drain_direction`: `decode` the next message and `handle` it. -/
def drainTurn {M : Type} (role : Role) (decode : Bytes → DecodeContext → Decoded M)
    (handle : Direction → M → DrainOutcome → ℕ → Handled) (s : Draining) : Draining ⊕ Draining :=
  let before := s.dir.rxbuf.length
  match decode s.dir.rxbuf s.dir.ctx with
  | (.ok none, rest) => .inr { s with dir := { s.dir with rxbuf := rest } }
  | (.ok (some msg), rest) =>
    let consumed := before - rest.length
    let h := handle { s.dir with rxbuf := rest } msg s.outcome consumed
    let s' : Draining := ⟨h.dir, h.outcome, s.events ++ h.events⟩
    if h.more then .inl s' else .inr s'
  | (.error e, rest) => .inr (decodeError role e rest before s)

/-- The client loop. -/
def clientTurn (pg : Decoder) : Draining → Draining ⊕ Draining :=
  drainTurn .client pg.decodeFrontend handleFrontend

/-- The server loop. -/
def serverTurn (pg : Decoder) : Draining → Draining ⊕ Draining :=
  drainTurn .server pg.decodeBackend (handleBackend pg)

def roleTurn (pg : Decoder) (role : Role) : Draining → Draining ⊕ Draining :=
  if role = .client then clientTurn pg else serverTurn pg

/-- Repeatedly decode messages from `dir`'s buffer until it runs dry. -/
def drainDirection (pg : Decoder) (dir : Direction) (outcome : DrainOutcome) : Draining :=
  let s : Draining := ⟨dir, outcome, []⟩
  if outcome.encrypted then s
  else (loop (roleTurn pg dir.role) (dir.rxbuf.length + 2) s).getD s

end Tapgres.Decode
