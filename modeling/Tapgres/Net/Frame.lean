import Tapgres.Net
import Tapgres.Lib.BigEndian
import Tapgres.Lib.Slice
import Tapgres.Lib.While

/-!
# From a captured frame to a TCP segment

`parse_frame` of `net.rs` and the functions it calls.  Every index and slice is checked: a run stops with
`panic` where one is out of range, with `none` where the source returns `None`, and with `unfinished`
where a loop would still be going after as many turns as there are bytes.
-/

namespace Tapgres.Net

open Tapgres.Lib.BigEndian Tapgres.Lib.Loop

/-- How a parse ends without a value. -/
inductive Halt where
  | none
  | panic
  | unfinished
  deriving DecidableEq, Repr

abbrev Parsed (α : Type) := Except Halt α

/-- The value of an index or a slice, which panics out of range. -/
def orPanic {α : Type} : Option α → Parsed α
  | some a => .ok a
  | none => .error .panic

/-- `b[i]` -/
def byteAt (b : Bytes) (i : ℕ) : Parsed UInt8 := orPanic b[i]?

/-- `&b[i..j]` -/
def bytesBetween (b : Bytes) (i j : ℕ) : Parsed Bytes := orPanic (Lib.Slice.slice b i j)

/-- `&b[i..]` -/
def bytesFrom (b : Bytes) (i : ℕ) : Parsed Bytes := orPanic (Lib.Slice.sliceFrom b i)

/-- `from_be_bytes` of the `n` bytes `b[i]`, `b[i+1]`, … -/
def readBe (b : Bytes) (i n : ℕ) : Parsed ℕ := do
  let bytes ← bytesBetween b i (i + n)
  return ofBe bytes

/-- `while cond { body }`, for at most `fuel` turns. -/
def whileLoop {σ : Type} (cond : σ → Bool) (body : σ → Parsed σ) (fuel : ℕ) (s : σ) : Parsed σ :=
  (loop (whileTurn cond body) fuel s).getD (.error .unfinished)

/-! ### Link layer -/

def dltNull : ℤ := 0
def dltEn10mb : ℤ := 1
def dltRawOld : ℤ := 12
def dltRaw : ℤ := 101
def dltLinuxSll : ℤ := 113
def dltLinuxSll2 : ℤ := 276
def dltIpv4 : ℤ := 228
def dltIpv6 : ℤ := 229

/-- Is there another VLAN tag? -/
def vlanTagged (s : ℕ × Bytes) : Bool := s.1 == 0x8100 && 4 ≤ s.2.length

/-- Skip one 802.1Q tag: the ethertype behind it, and the payload. -/
def skipVlanTag (s : ℕ × Bytes) : Parsed (ℕ × Bytes) := do
  let ethertype ← readBe s.2 0 2
  let payload ← bytesFrom s.2 4
  return (ethertype, payload)

def stripLink (data : Bytes) (dlt : ℤ) : Parsed Bytes :=
  if dlt = dltEn10mb then
    if data.length < 14 then .error .none
    else do
      let ethertype ← readBe data 12 2
      let payload ← bytesFrom data 14
      let (ethertype, payload) ← whileLoop vlanTagged skipVlanTag (data.length + 1) (ethertype, payload)
      if ethertype = 0x0800 ∨ ethertype = 0x86dd then .ok payload else .error .none
  else if dlt = dltRaw ∨ dlt = dltRawOld ∨ dlt = dltIpv4 ∨ dlt = dltIpv6 then .ok data
  else if dlt = dltNull then
    -- BSD loopback: a 4-byte address family
    if data.length < 4 then .error .none else bytesFrom data 4
  else if dlt = dltLinuxSll then
    if data.length < 16 then .error .none else bytesFrom data 16
  else if dlt = dltLinuxSll2 then
    if data.length < 20 then .error .none else bytesFrom data 20
  else .error .none

/-! ### TCP -/

def parseTcp (l4 : Bytes) (src dst : IpAddr) : Parsed TcpSegment :=
  if l4.length < 20 then .error .none
  else do
    let srcPort ← readBe l4 0 2
    let dstPort ← readBe l4 2 2
    let seq ← readBe l4 4 4
    let ack ← readBe l4 8 4
    let dataOffset := ((← byteAt l4 12) >>> 4).toNat * 4
    let flags ← byteAt l4 13
    if dataOffset < 20 ∨ l4.length < dataOffset then .error .none
    else
      let payload ← if l4.length > dataOffset then bytesFrom l4 dataOffset else .ok []
      return {
        src := src, dst := dst
        srcPort := UInt16.ofNat srcPort, dstPort := UInt16.ofNat dstPort
        seq := BitVec.ofNat 32 seq, ack := BitVec.ofNat 32 ack
        syn := flags &&& 0x02 != 0, fin := flags &&& 0x01 != 0, rst := flags &&& 0x04 != 0
        payload := payload }

/-! ### IP -/

def parseIpv4 (b : Bytes) : Parsed TcpSegment :=
  if b.length < 20 then .error .none
  else do
    let ihl := ((← byteAt b 0) &&& 0x0f).toNat * 4
    if ihl < 20 ∨ b.length < ihl then .error .none
    else
      let proto ← byteAt b 9
      if proto ≠ 6 then .error .none
      else
        let totalLen ← readBe b 2 2
        let ends := min totalLen b.length
        if ends < ihl then .error .none
        else
          let src := IpAddr.v4 (BitVec.ofNat 32 (← readBe b 12 4))
          let dst := IpAddr.v4 (BitVec.ofNat 32 (← readBe b 16 4))
          parseTcp (← bytesBetween b ihl ends) src dst

def isExtensionHeader (nh : UInt8) : Bool := nh == 0 || nh == 43 || nh == 44 || nh == 51 || nh == 60

/-- The length of an extension header: fixed for a fragment header, in 4-byte units and two more for AH,
in 8-byte units and one more for the others. -/
def extensionHeaderLen (nh : UInt8) (ext : Bytes) : Parsed ℕ :=
  if nh = 44 then .ok 8
  else if nh = 51 then
    if ext.length < 2 then .error .none
    else do
      let len ← byteAt ext 1
      return (len.toNat + 2) * 4
  else
    if ext.length < 2 then .error .none
    else do
      let len ← byteAt ext 1
      return (len.toNat + 1) * 8

/-- Is there another extension header at `s.2`, of which at least 8 bytes are there? -/
def atExtension (bodyEnd : ℕ) (s : UInt8 × ℕ) : Bool := isExtensionHeader s.1 && s.2 + 8 ≤ bodyEnd

/-- Step over the extension header `s.1` at `s.2`. -/
def skipExtension (b : Bytes) (bodyEnd : ℕ) (s : UInt8 × ℕ) : Parsed (UInt8 × ℕ) := do
  let extNext ← byteAt b s.2
  let extLen ← extensionHeaderLen s.1 (← bytesBetween b s.2 bodyEnd)
  if s.2 + extLen > bodyEnd then .error .none else return (extNext, s.2 + extLen)

def parseIpv6 (b : Bytes) : Parsed TcpSegment :=
  if b.length < 40 then .error .none
  else do
    let payloadLen ← readBe b 4 2
    let nextHeader ← byteAt b 6
    let src := IpAddr.v6 (BitVec.ofNat 128 (← readBe b 8 16))
    let dst := IpAddr.v6 (BitVec.ofNat 128 (← readBe b 24 16))
    let bodyEnd := min (40 + payloadLen) b.length
    let (nextHeader, off) ←
      whileLoop (atExtension bodyEnd) (skipExtension b bodyEnd) (b.length + 1) (nextHeader, 40)
    if nextHeader ≠ 6 then .error .none else parseTcp (← bytesBetween b off bodyEnd) src dst

def parseIp (b : Bytes) : Parsed TcpSegment :=
  if b.isEmpty then .error .none
  else do
    let version := (← byteAt b 0) >>> 4
    if version = 4 then parseIpv4 b
    else if version = 6 then parseIpv6 b
    else .error .none

/-- Parse a captured frame, based on the datalink type. -/
def parseFrame (data : Bytes) (dlt : ℤ) : Parsed TcpSegment := do
  let ip ← stripLink data dlt
  parseIp ip

end Tapgres.Net
