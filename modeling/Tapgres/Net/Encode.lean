import Tapgres.Net
import Tapgres.Lib.BigEndian

/-!
# Frames on the wire

The nested format that the parser takes apart, from the inside out.  Each header is a structure whose
fields carry what makes it well formed, so that every value of `Frame` is a well-formed frame.

* `TcpPacket` — a TCP header with options, and the payload;
* `Ipv4Packet`, `Ipv6Packet` — an unfragmented packet around it, with options or extension headers;
* `Link` — the link-layer header, by datalink type;
* `Frame` — link-layer header, packet, and padding behind it.
-/

namespace Tapgres.Net.Wire

open Tapgres.Net Tapgres.Lib.BigEndian

/-! ### TCP -/

/-- Options of a TCP or IPv4 header: whole 32-bit words, of which the length field can count ten. -/
structure Options where
  bytes : Bytes
  words : bytes.length % 4 = 0
  fits : bytes.length ≤ 40

/-- The length of a header with these options, in 32-bit words. -/
def Options.headerWords (o : Options) : ℕ := 5 + o.bytes.length / 4

/-- `reserved` are the four bits behind the data offset, `others` the five flags in front of RST, SYN and
FIN (ACK and PSH among them). -/
structure TcpPacket where
  srcPort : UInt16
  dstPort : UInt16
  seq : BitVec 32
  ack : BitVec 32
  reserved : Fin 16
  others : Fin 32
  rst : Bool
  syn : Bool
  fin : Bool
  window : BitVec 16
  checksum : BitVec 16
  urgent : BitVec 16
  options : Options
  payload : Bytes

def TcpPacket.flags (t : TcpPacket) : UInt8 :=
  UInt8.ofNat (8 * t.others + 4 * t.rst.toNat + 2 * t.syn.toNat + t.fin.toNat)

def TcpPacket.encode (t : TcpPacket) : Bytes :=
  toBe 2 t.srcPort.toNat ++ toBe 2 t.dstPort.toNat ++ toBe 4 t.seq.toNat ++ toBe 4 t.ack.toNat
    ++ [UInt8.ofNat (16 * t.options.headerWords + t.reserved), t.flags]
    ++ toBe 2 t.window.toNat ++ toBe 2 t.checksum.toNat ++ toBe 2 t.urgent.toNat
    ++ t.options.bytes ++ t.payload

/-- The segment the packet is, between two addresses. -/
def TcpPacket.segment (t : TcpPacket) (src dst : IpAddr) : TcpSegment where
  src := src
  dst := dst
  srcPort := t.srcPort
  dstPort := t.dstPort
  seq := t.seq
  ack := t.ack
  syn := t.syn
  fin := t.fin
  rst := t.rst
  payload := t.payload

/-! ### IPv4 -/

/-- An unfragmented IPv4 packet: no fragment offset, and no more fragments. -/
structure Ipv4Packet where
  tos : UInt8
  identification : BitVec 16
  dontFragment : Bool
  ttl : UInt8
  checksum : BitVec 16
  src : BitVec 32
  dst : BitVec 32
  options : Options
  tcp : TcpPacket
  fits : 20 + options.bytes.length + tcp.encode.length < 2 ^ 16

def Ipv4Packet.encode (p : Ipv4Packet) : Bytes :=
  [UInt8.ofNat (16 * 4 + p.options.headerWords), p.tos]
    ++ toBe 2 (20 + p.options.bytes.length + p.tcp.encode.length)
    ++ toBe 2 p.identification.toNat ++ [if p.dontFragment then 0x40 else 0, 0] ++ [p.ttl, 6]
    ++ toBe 2 p.checksum.toNat ++ toBe 4 p.src.toNat ++ toBe 4 p.dst.toNat
    ++ p.options.bytes ++ p.tcp.encode

/-! ### IPv6 -/

/-- The extension headers with a length in 8-byte units. -/
inductive UnitHeader where
  | hopByHop
  | routing
  | destination
  deriving DecidableEq, Repr

def UnitHeader.code : UnitHeader → UInt8
  | .hopByHop => 0
  | .routing => 43
  | .destination => 60

/-- An extension header; a fragment header is that of a first fragment, with offset 0, and `flags` its
last three bits. -/
inductive ExtensionHeader where
  | unit (kind : UnitHeader) (len : UInt8) (body : Bytes) (whole : body.length = (len.toNat + 1) * 8 - 2)
  | fragment (reserved : UInt8) (flags : Fin 8) (identification : BitVec 32)
  | authentication (len : UInt8) (body : Bytes) (whole : body.length = (len.toNat + 2) * 4 - 2)

def ExtensionHeader.code : ExtensionHeader → UInt8
  | .unit kind _ _ _ => kind.code
  | .fragment _ _ _ => 44
  | .authentication _ _ _ => 51

/-- The header, naming `next` as the one behind it. -/
def ExtensionHeader.encode (next : UInt8) : ExtensionHeader → Bytes
  | .unit _ len body _ => next :: len :: body
  | .fragment reserved flags identification =>
    [next, reserved, 0, UInt8.ofNat flags] ++ toBe 4 identification.toNat
  | .authentication len body _ => next :: len :: body

/-- The header a chain starts with: TCP where there is none. -/
def chainCode : List ExtensionHeader → UInt8
  | [] => 6
  | h :: _ => h.code

def encodeChain : List ExtensionHeader → Bytes
  | [] => []
  | h :: hs => h.encode (chainCode hs) ++ encodeChain hs

/-- `trafficHigh` are the four bits behind the version, `flow` the rest of traffic class and flow label. -/
structure Ipv6Packet where
  trafficHigh : Fin 16
  flow : BitVec 24
  hopLimit : UInt8
  src : BitVec 128
  dst : BitVec 128
  headers : List ExtensionHeader
  tcp : TcpPacket
  fits : (encodeChain headers).length + tcp.encode.length < 2 ^ 16

def Ipv6Packet.encode (p : Ipv6Packet) : Bytes :=
  [UInt8.ofNat (16 * 6 + p.trafficHigh)] ++ toBe 3 p.flow.toNat
    ++ toBe 2 ((encodeChain p.headers).length + p.tcp.encode.length)
    ++ [chainCode p.headers, p.hopLimit] ++ toBe 16 p.src.toNat ++ toBe 16 p.dst.toNat
    ++ encodeChain p.headers ++ p.tcp.encode

/-! ### Packets and frames -/

inductive Packet where
  | v4 (p : Ipv4Packet)
  | v6 (p : Ipv6Packet)

def Packet.encode : Packet → Bytes
  | .v4 p => p.encode
  | .v6 p => p.encode

def Packet.ethertype : Packet → ℕ
  | .v4 _ => 0x0800
  | .v6 _ => 0x86dd

/-- The segment in the packet. -/
def Packet.segment : Packet → TcpSegment
  | .v4 p => p.tcp.segment (.v4 p.src) (.v4 p.dst)
  | .v6 p => p.tcp.segment (.v6 p.src) (.v6 p.dst)

/-- A link-layer header.  An Ethernet header holds two addresses and any number of VLAN tags, each with
its tag control information; the others have a fixed length. -/
inductive Link where
  | ethernet (dst src : BitVec 48) (tags : List (BitVec 16))
  | raw (dlt : ℤ) (isRaw : dlt = 12 ∨ dlt = 101 ∨ dlt = 228 ∨ dlt = 229)
  | null (family : BitVec 32)
  | linuxSll (header : BitVec 128)
  | linuxSll2 (header : BitVec 160)

/-- The datalink type of the capture. -/
def Link.dlt : Link → ℤ
  | .ethernet _ _ _ => 1
  | .raw dlt _ => dlt
  | .null _ => 0
  | .linuxSll _ => 113
  | .linuxSll2 _ => 276

/-- The type field in front of the tags `tags`. -/
def typeField (ethertype : ℕ) : List (BitVec 16) → ℕ
  | [] => ethertype
  | _ :: _ => 0x8100

/-- The tags behind a type field: the control information, and the next type field. -/
def encodeTags (ethertype : ℕ) : List (BitVec 16) → Bytes
  | [] => []
  | tci :: tags => toBe 2 tci.toNat ++ toBe 2 (typeField ethertype tags) ++ encodeTags ethertype tags

def Link.encode (ethertype : ℕ) : Link → Bytes
  | .ethernet dst src tags =>
    toBe 6 dst.toNat ++ toBe 6 src.toNat ++ toBe 2 (typeField ethertype tags) ++ encodeTags ethertype tags
  | .raw _ _ => []
  | .null family => toBe 4 family.toNat
  | .linuxSll header => toBe 16 header.toNat
  | .linuxSll2 header => toBe 20 header.toNat

/-- A frame; `padding` are bytes the link layer has added behind the packet. -/
structure Frame where
  link : Link
  packet : Packet
  padding : Bytes

def Frame.encode (f : Frame) : Bytes :=
  f.link.encode f.packet.ethertype ++ (f.packet.encode ++ f.padding)

end Tapgres.Net.Wire
