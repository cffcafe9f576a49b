import Tapgres.Net

/-!
# A decoded message with the fields display filters use
-/

namespace Tapgres.Filter

open Tapgres.Net

inductive MessageDirection where
  | frontendToBackend
  | backendToFrontend
  deriving DecidableEq, Repr

/-- A decoded message plus the structured fields used by display filters. -/
structure DisplayMessage where
  timestamp : String
  rendered : String
  client : SocketAddr
  direction : MessageDirection
  kind : String
  text : String
  deriving DecidableEq, Repr

end Tapgres.Filter
