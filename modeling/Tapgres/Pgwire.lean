import Tapgres.Net

/-!
# The pgwire protocol layer, as the decoder sees it

`pgwire` is a third-party crate: its message types appear here with the fields `decode.rs` reads, and
its two `decode` functions are the parameter `Decoder`.  A `decode` call takes the buffer by mutable
reference, so it returns its result together with the bytes it leaves in the buffer.

What the decoder relies on is stated as properties of a `Decoder`, each a documented behaviour of the
crate:

* `Decoder.Consumes` — `Ok(None)` and the `SslNegotiation::None` peek leave the buffer alone, the peek
  is given only while `awaiting_frontend_ssl` is set, and every other message is cut off the front of
  the buffer and is at least one byte long;
* `Decoder.Appends` — bytes behind a decoded message do not change it;
* `Decoder.Waits` — the beginning of a message is waited on, not an error;
* `Decoder.Negotiates` — what the flags of the context mean for the SSL/GSS negotiation;
* `Decoder.StartsUp` — no typed message is decoded before the Startup;
* `Decoder.Replies` — nothing but the answer is decoded while one is awaited.
-/

namespace Tapgres.Pgwire

open Tapgres.Net

/-! ### Frontend messages -/

inductive SslNegotiationMetaMessage where
  | none
  | postgresSsl
  | postgresGss
  deriving DecidableEq, Repr

/-- `parameters` is a `BTreeMap`: it is listed in key order. -/
structure Startup where
  protocolNumberMajor : ℕ
  protocolNumberMinor : ℕ
  parameters : List (String × String)
  deriving DecidableEq, Repr

structure Query where
  query : String
  deriving DecidableEq, Repr

structure Parse where
  name : Option String
  query : String
  typeOids : List ℕ
  deriving DecidableEq, Repr

structure Bind where
  portalName : Option String
  statementName : Option String
  parameterFormatCodes : List ℤ
  parameters : List (Option Bytes)
  resultColumnFormatCodes : List ℤ
  deriving DecidableEq, Repr

/-- `Describe` and `Close` carry the same two fields. -/
structure TargetName where
  targetType : UInt8
  name : Option String
  deriving DecidableEq, Repr

structure Execute where
  name : Option String
  maxRows : ℤ
  deriving DecidableEq, Repr

/-- `data` of a `SASLInitialResponse` may be absent. -/
inductive PasswordMessageFamily where
  | password (password : String)
  | saslInitialResponse (authMethod : String) (data : Option Bytes)
  | saslResponse (data : Bytes)
  | raw (bytes : Bytes)
  | other
  deriving DecidableEq, Repr

inductive FrontendMessage where
  | sslNegotiation (request : SslNegotiationMetaMessage)
  | startup (s : Startup)
  | cancelRequest
  | query (q : Query)
  | parse (p : Parse)
  | bind (b : Bind)
  | describe (d : TargetName)
  | execute (e : Execute)
  | close (c : TargetName)
  | sync
  | flush
  | terminate
  | passwordMessageFamily (pmf : PasswordMessageFamily)
  | copyData (data : Bytes)
  | copyFail (message : String)
  | copyDone
  | portalSuspended
  deriving DecidableEq, Repr

/-- `matches!(msg, SslNegotiation(SslNegotiationMetaMessage::None))`: the peek that consumes nothing. -/
def FrontendMessage.isPeek : FrontendMessage → Bool
  | .sslNegotiation .none => true
  | _ => false

/-- A message with a type byte: any but those a client may open the connection with. -/
def FrontendMessage.isTyped : FrontendMessage → Bool
  | .sslNegotiation _ => false
  | .startup _ => false
  | .cancelRequest => false
  | _ => true

/-! ### Backend messages -/

inductive Authentication where
  | ok
  | cleartextPassword
  | kerberosV5
  | md5Password
  | sasl (methods : List String)
  | saslContinue
  | saslFinal
  | other
  deriving DecidableEq, Repr

inductive SecretKey where
  | i32 (i : ℤ)
  | bytes (bs : Bytes)
  deriving DecidableEq, Repr

inductive TransactionStatus where
  | idle
  | transaction
  | error
  deriving DecidableEq, Repr

structure FieldDescription where
  name : String
  typeId : ℕ
  formatCode : ℤ
  deriving DecidableEq, Repr

structure DataRow where
  data : Bytes
  fieldCount : ℤ
  deriving DecidableEq, Repr

/-- The one-byte answers `SslResponse` and `GssEncResponse`; both enums are non-exhaustive. -/
inductive NegotiationResponse where
  | accept
  | refuse
  | other
  deriving DecidableEq, Repr

inductive BackendMessage where
  | authentication (a : Authentication)
  | parameterStatus (name value : String)
  | backendKeyData (pid : ℤ) (secretKey : SecretKey)
  | negotiateProtocolVersion (newestMinorProtocol : ℤ) (unsupportedOptions : List String)
  | readyForQuery (status : TransactionStatus)
  | commandComplete (tag : String)
  | emptyQueryResponse
  | errorResponse (fields : List (UInt8 × String))
  | noticeResponse (fields : List (UInt8 × String))
  | notificationResponse (channel payload : String)
  | rowDescription (fields : List FieldDescription)
  | noData
  | dataRow (r : DataRow)
  | parameterDescription (types : List ℕ)
  | parseComplete
  | bindComplete
  | closeComplete
  | portalSuspended
  | sslResponse (s : NegotiationResponse)
  | gssEncResponse (s : NegotiationResponse)
  | copyInResponse (columns : ℤ)
  | copyOutResponse (columns : ℤ)
  | copyBothResponse (columns : ℤ)
  | copyData (data : Bytes)
  | copyFail (message : String)
  | copyDone
  deriving DecidableEq, Repr

/-- The answer after which the connection is encrypted. -/
def BackendMessage.isAccept : BackendMessage → Bool
  | .sslResponse .accept => true
  | .gssEncResponse .accept => true
  | _ => false

/-- The one-byte answers to a request for encryption. -/
def BackendMessage.isAnswer : BackendMessage → Bool
  | .sslResponse _ => true
  | .gssEncResponse _ => true
  | _ => false

/-! ### Decoding -/

/-- The flags of pgwire's `DecodeContext` that the monitor sets; `{}` is `DecodeContext::default()`. -/
structure DecodeContext where
  awaitingFrontendSsl : Bool := true
  awaitingFrontendStartup : Bool := true
  awaitingBackendSslResponse : Bool := false
  awaitingBackendGssResponse : Bool := false
  deriving DecidableEq, Repr

/-- `PgWireResult<Option<M>>` with the error as the text it prints, and what is left in the buffer. -/
abbrev Decoded (M : Type) := Except String (Option M) × Bytes

/-- The functions outside this repository that the decode layer calls: pgwire's two `decode`s, and the
escaping of `{:?}` for strings. -/
structure Decoder where
  decodeFrontend : Bytes → DecodeContext → Decoded FrontendMessage
  decodeBackend : Bytes → DecodeContext → Decoded BackendMessage
  debugStr : String → String

/-- What `decode` does to the buffer. -/
structure Decoder.Consumes (pg : Decoder) : Prop where
  frontend_none : ∀ buf ctx rest, pg.decodeFrontend buf ctx = (.ok none, rest) → rest = buf
  frontend_peek : ∀ buf ctx m rest, pg.decodeFrontend buf ctx = (.ok (some m), rest) →
    m.isPeek = true → rest = buf ∧ ctx.awaitingFrontendSsl = true
  frontend_some : ∀ buf ctx m rest, pg.decodeFrontend buf ctx = (.ok (some m), rest) →
    m.isPeek = false → ∃ wire, wire ≠ [] ∧ buf = wire ++ rest
  backend_none : ∀ buf ctx rest, pg.decodeBackend buf ctx = (.ok none, rest) → rest = buf
  backend_some : ∀ buf ctx m rest, pg.decodeBackend buf ctx = (.ok (some m), rest) →
    ∃ wire, wire ≠ [] ∧ buf = wire ++ rest

/-- A well-formed message, one that is decoded with nothing left of it, is unaffected by bytes appended
behind it. -/
structure Decoder.Appends (pg : Decoder) : Prop where
  frontend : ∀ wire ctx m more, pg.decodeFrontend wire ctx = (.ok (some m), []) →
    pg.decodeFrontend (wire ++ more) ctx = (.ok (some m), more)
  backend : ∀ wire ctx m more, pg.decodeBackend wire ctx = (.ok (some m), []) →
    pg.decodeBackend (wire ++ more) ctx = (.ok (some m), more)

/-- Nothing is reported of no bytes. -/
structure Decoder.Idles (pg : Decoder) : Prop where
  frontend : ∀ ctx, pg.decodeFrontend [] ctx = (.ok none, [])
  backend : ∀ ctx, pg.decodeBackend [] ctx = (.ok none, [])

/-- While some of a well-formed message is missing, it is waited for. -/
structure Decoder.Waits (pg : Decoder) : Prop where
  frontend : ∀ begun more ctx m, more ≠ [] → pg.decodeFrontend (begun ++ more) ctx = (.ok (some m), []) →
    pg.decodeFrontend begun ctx = (.ok none, begun)
  backend : ∀ begun more ctx m, more ≠ [] → pg.decodeBackend (begun ++ more) ctx = (.ok (some m), []) →
    pg.decodeBackend begun ctx = (.ok none, begun)

/-- The code of an `SSLRequest`, bytes 4 to 8 of the packet. -/
def sslMagic : Bytes := [0x04, 0xd2, 0x16, 0x2f]

/-- The code of a `GssEncRequest`. -/
def gssMagic : Bytes := [0x04, 0xd2, 0x16, 0x30]

/-- Bytes 4 to 8 of a packet: the protocol version of a `Startup`, the code of a request. -/
def packetCode (buf : Bytes) : Bytes := (buf.drop 4).take 4

theorem packetCode_append {buf : Bytes} (h : 8 ≤ buf.length) (more : Bytes) :
    packetCode (buf ++ more) = packetCode buf := by
  rw [packetCode, packetCode, List.drop_append_of_le_length (by omega),
    List.take_append_of_le_length (by rw [List.length_drop]; omega)]

/-- The negotiation: while `awaiting_frontend_ssl` is set, eight bytes are awaited and then taken for a
request by their code, or peeked at; a request is recognised under no other flag, and a one-byte answer
only while the matching backend flag is set.  The backend looks at no other flag. -/
structure Decoder.Negotiates (pg : Decoder) : Prop where
  short : ∀ buf ctx, ctx.awaitingFrontendSsl = true → buf.length < 8 →
    pg.decodeFrontend buf ctx = (.ok none, buf)
  peek : ∀ buf ctx, ctx.awaitingFrontendSsl = true → 8 ≤ buf.length →
    packetCode buf ≠ sslMagic → packetCode buf ≠ gssMagic →
    pg.decodeFrontend buf ctx = (.ok (some (.sslNegotiation .none)), buf)
  request : ∀ buf ctx r rest, pg.decodeFrontend buf ctx = (.ok (some (.sslNegotiation r)), rest) →
    ctx.awaitingFrontendSsl = true
  sslAnswer : ∀ buf ctx s rest, pg.decodeBackend buf ctx = (.ok (some (.sslResponse s)), rest) →
    ctx.awaitingBackendSslResponse = true
  gssAnswer : ∀ buf ctx s rest, pg.decodeBackend buf ctx = (.ok (some (.gssEncResponse s)), rest) →
    ctx.awaitingBackendGssResponse = true
  backendFlags : ∀ buf ctx ctx', ctx.awaitingBackendSslResponse = ctx'.awaitingBackendSslResponse →
    ctx.awaitingBackendGssResponse = ctx'.awaitingBackendGssResponse →
    pg.decodeBackend buf ctx = pg.decodeBackend buf ctx'

/-- The two requests with which a client may ask for encryption. -/
inductive NegotiationRequest where
  | ssl
  | gss
  deriving DecidableEq, Repr

/-- The packet of a request. -/
def NegotiationRequest.wire : NegotiationRequest → Bytes
  | .ssl => [0x00, 0x00, 0x00, 0x08] ++ sslMagic
  | .gss => [0x00, 0x00, 0x00, 0x08] ++ gssMagic

def NegotiationRequest.message : NegotiationRequest → FrontendMessage
  | .ssl => .sslNegotiation .postgresSsl
  | .gss => .sslNegotiation .postgresGss

def NegotiationRequest.refusal : NegotiationRequest → BackendMessage
  | .ssl => .sslResponse .refuse
  | .gss => .gssEncResponse .refuse

/-- The byte `'N'`. -/
def refuseByte : UInt8 := 0x4e

/-- A request is recognised while the SSL flag is set, and the byte `'N'` refuses it while its answer is
the one awaited. -/
structure Decoder.Recognises (pg : Decoder) : Prop where
  request : ∀ (q : NegotiationRequest) ctx, ctx.awaitingFrontendSsl = true →
    pg.decodeFrontend q.wire ctx = (.ok (some q.message), [])
  refusal : ∀ (q : NegotiationRequest) ctx, ctx.awaitingBackendSslResponse = decide (q = .ssl) →
    ctx.awaitingBackendGssResponse = decide (q = .gss) →
    pg.decodeBackend [refuseByte] ctx = (.ok (some q.refusal), [])

/-- While `awaiting_frontend_startup` is set, no typed frontend message is decoded. -/
def Decoder.StartsUp (pg : Decoder) : Prop :=
  ∀ buf ctx m rest, ctx.awaitingFrontendStartup = true →
    pg.decodeFrontend buf ctx = (.ok (some m), rest) → m.isTyped = false

/-- While an answer is awaited, what the backend decodes is an answer. -/
def Decoder.Replies (pg : Decoder) : Prop :=
  ∀ buf ctx m rest, (ctx.awaitingBackendSslResponse = true ∨ ctx.awaitingBackendGssResponse = true) →
    pg.decodeBackend buf ctx = (.ok (some m), rest) → m.isAnswer = true

/-- The laws that speak of one buffer at a time. -/
structure Decoder.Stepwise (pg : Decoder) : Prop where
  consumes : pg.Consumes
  idles : pg.Idles
  negotiates : pg.Negotiates

/-- All of the decoder's own laws. -/
structure Decoder.Lawful (pg : Decoder) : Prop extends Decoder.Stepwise pg where
  appends : pg.Appends
  waits : pg.Waits

end Tapgres.Pgwire
