import Mathlib.Algebra.GroupWithZero.Nat
import Mathlib.Data.Int.Notation
import Mathlib.Data.Nat.Notation
import Mathlib.Tactic.Common

/-!
# Captured segments

The part of `net.rs` the flow tracker reads: addresses and the TCP segment of one packet.  The tracker does
not look at frames; their parsing into segments is in `Net.Frame`.
-/

namespace Tapgres.Net

/-- A run of captured or decoded bytes. -/
abbrev Bytes := List UInt8

/-- `std::net::IpAddr`. -/
inductive IpAddr where
  | v4 (bits : BitVec 32)
  | v6 (bits : BitVec 128)
  deriving DecidableEq, Repr

/-- `std::net::SocketAddr`, as `SocketAddr::new` builds it. -/
structure SocketAddr where
  ip : IpAddr
  port : UInt16
  deriving DecidableEq, Repr

/-- A single captured TCP segment (one direction of one packet). -/
structure TcpSegment where
  src : IpAddr
  dst : IpAddr
  srcPort : UInt16
  dstPort : UInt16
  seq : BitVec 32
  ack : BitVec 32
  syn : Bool
  fin : Bool
  rst : Bool
  payload : Bytes
  deriving DecidableEq, Repr

end Tapgres.Net
