import Tapgres.Filter.Syntax
import Tapgres.Flow.Direction

/-!
# What the decoder emits

`Output` is the record a consumer receives.  The decoder itself produces `Event`s: what is to be
emitted before the wall clock is read.  `Event.output` is the delivery, which reads the clock once and
builds the text.  An event also carries the bytes of `rxbuf` it accounts for; `output` drops them.
-/

namespace Tapgres.Decode

open Tapgres.Net Tapgres.Flow Tapgres.Filter

/-- One reading of the wall clock: RFC 3339 with milliseconds, and `%H:%M:%S%.3f`. -/
structure LocalTime where
  rfc3339 : String
  display : String
  deriving DecidableEq, Repr

/-- What kind of output a record is, so the consumer can route it without re-parsing the text. -/
inductive Output where
  | message (message : DisplayMessage) (detail : Option EventDetail)
  | line (text : String)
  | status (text : String)
  deriving DecidableEq, Repr

def Output.rendered : Output → String
  | .message m _ => m.rendered
  | .line text => text
  | .status text => text

def Output.detail : Output → Option EventDetail
  | .message _ detail => detail
  | .line _ | .status _ => none

/-- Operational records remain visible in a filtered display. -/
def Output.matchesFilter (env : FilterEnv) (filter : DisplayFilter) : Output → Bool
  | .message m _ => filter.matches env m
  | .line _ | .status _ => true

def dirTag (role : Role) : String := if role = .client then "F→B" else "B→F"

def roleDbg (role : Role) : String := if role = .client then "client" else "server"

/-- The direction a record of this side is filed under. -/
def messageDirection (role : Role) : MessageDirection :=
  if role = .client then .frontendToBackend else .backendToFrontend

structure MessageEmitter where
  role : Role
  client : SocketAddr
  deriving DecidableEq, Repr

def MessageEmitter.emitWithDetail (e : MessageEmitter) (now : LocalTime) (kind text : String)
    (detail : Option EventDetail) : Output :=
  let rendered :=
    if text.isEmpty then "[" ++ now.display ++ "] [" ++ dirTag e.role ++ "] " ++ kind
    else "[" ++ now.display ++ "] [" ++ dirTag e.role ++ "] " ++ kind ++ ": " ++ text
  .message
    { timestamp := now.rfc3339, rendered := rendered, client := e.client
      direction := messageDirection e.role, kind := kind, text := text }
    detail

def MessageEmitter.warn (e : MessageEmitter) (now : LocalTime) (msg : String) : Output :=
  .message
    { timestamp := now.rfc3339
      rendered := "[" ++ now.display ++ "] [" ++ dirTag e.role ++ "] ⚠ " ++ msg
      client := e.client, direction := messageDirection e.role, kind := "Warning", text := msg }
    none

/-- A call of the emitter: `emit`/`emit_rich` or `warn`. -/
inductive Body where
  | emit (kind text : String) (detail : Option EventDetail)
  | warn (msg : String)
  deriving DecidableEq, Repr

/-- An emission, with the bytes it accounts for: `wire` left `rxbuf` as a decoded message, `lost` were
in `rxbuf` when the failing decode was called (`left` of them after it). -/
inductive Event where
  | message (emitter : MessageEmitter) (body : Body) (wire : ℕ)
  | decodeError (role : Role) (left : ℕ) (error : String) (lost : ℕ)
  | opened (client server : Endpoint) (pgPort : UInt16)
  | reset
  | closed
  deriving DecidableEq, Repr

/-- The filter kind, text and rich detail of the record a body becomes. -/
def Body.record : Body → String × String × Option EventDetail
  | .emit kind text detail => (kind, text, detail)
  | .warn msg => ("Warning", msg, none)

def Body.output (e : MessageEmitter) (now : LocalTime) : Body → Output
  | .emit kind text detail => e.emitWithDetail now kind text detail
  | .warn msg => e.warn now msg

/-- The record delivered at `now`; `showIp` is the `Display` of an address. -/
def Event.output (showIp : IpAddr → String) (now : LocalTime) : Event → Output
  | .message emitter body _ => body.output emitter now
  | .decodeError role left error _ =>
    .line ("[" ++ roleDbg role ++ "] [" ++ dirTag role ++ "] ⚠ decode error (" ++ toString left
      ++ " lost bytes): " ++ error)
  | .opened client server pgPort =>
    .line ("[" ++ now.display ++ "] === new connection  " ++ showIp client.1 ++ ":"
      ++ toString client.2.toNat ++ "  ->  " ++ showIp server.1 ++ ":" ++ toString server.2.toNat
      ++ "  (port " ++ toString pgPort.toNat ++ ") ===")
  | .reset => .line ("[" ++ now.display ++ "] === connection reset (RST) ===")
  | .closed => .line ("[" ++ now.display ++ "] === connection closed (FIN) ===")

end Tapgres.Decode
