import Tapgres.Net.Reads

/-!
# Fragments of IP packets

Only the first fragment of a packet starts with the TCP header.  The parser reads the offset of a
fragment in neither version of IP:

* `Ipv4Fragment`, `Ipv6Fragment` — a fragment that is not the first;
* `CarriesTcp` — the packet names TCP behind its IP headers, and what stands there passes for a TCP
  header;
* `fragment_ignored_iff` — a fragment is left alone exactly when it does not pass for a segment;
* `fragment_taken_for_segment` — two fragments that do.
-/

namespace Tapgres.Net

open Tapgres.Lib.BigEndian

/-- An IPv4 packet with a fragment offset, the low 13 bits of the fourth 16-bit word. -/
def Ipv4Fragment (b : Bytes) : Prop :=
  20 ≤ b.length ∧ at0 b 0 >>> 4 = 4 ∧ numberAt b 6 2 % 2 ^ 13 ≠ 0

/-- An IPv6 packet with a fragment header, at any depth of the chain, that has an offset: the high 13
bits of its second 16-bit word. -/
def Ipv6Fragment (b : Bytes) : Prop :=
  40 ≤ b.length ∧ at0 b 0 >>> 4 = 6 ∧
    ∃ off, Leads b (ipv6End b) (at0 b 6, 40) (44, off) ∧ off + 8 ≤ ipv6End b ∧ numberAt b (off + 2) 2 / 8 ≠ 0

/-- The headers of an IPv4 packet name TCP, and the bytes behind them pass for a TCP header. -/
def Ipv4CarriesTcp (b : Bytes) : Prop := TcpInIpv4 b ∧ ReadsAsTcp (ipv4Body b)

/-- The same for IPv6, behind the extension headers. -/
def Ipv6CarriesTcp (b : Bytes) : Prop := ∃ off, TcpInIpv6 b off ∧ ReadsAsTcp (ipv6Body b off)

/-! ### What is parsed -/

theorem parseTcp_none_iff (l4 : Bytes) (src dst : IpAddr) :
    parseTcp l4 src dst = .error .none ↔ ¬ReadsAsTcp l4 := by
  rw [parseTcp_eq]
  split
  · rename_i h
    exact ⟨nofun, fun hnot => absurd h hnot⟩
  · rename_i h
    exact ⟨fun _ => h, fun _ => rfl⟩

theorem parseIpv4_none_iff (b : Bytes) : parseIpv4 b = .error .none ↔ ¬Ipv4CarriesTcp b := by
  rw [parseIpv4_eq, Ipv4CarriesTcp]
  split
  · rename_i h
    rw [parseTcp_none_iff, not_and]
    exact ⟨fun hnot _ => hnot, fun hnot => hnot h⟩
  · rename_i h
    exact ⟨fun _ hand => h hand.1, fun _ => rfl⟩

theorem parseIpv6_none_iff (b : Bytes) : parseIpv6 b = .error .none ↔ ¬Ipv6CarriesTcp b := by
  rcases parseIpv6_cases b with ⟨off, htcp, hparse⟩ | ⟨hnot, hparse⟩
  · rw [hparse, parseTcp_none_iff]
    constructor
    · rintro hreads ⟨off', htcp', hreads'⟩
      rw [← htcp.unique htcp'] at hreads'
      exact hreads hreads'
    · intro hcarries hreads
      exact hcarries ⟨off, htcp, hreads⟩
  · rw [hparse]
    exact ⟨fun _ ⟨off, htcp, _⟩ => hnot ⟨off, htcp⟩, fun _ => rfl⟩

/-- **A fragment that is not the first is left alone exactly when it does not pass for a segment.** -/
theorem fragment_ignored_iff (data b : Bytes) (dlt : ℤ) (hb : LinkPayload data dlt b) :
    (Ipv4Fragment b → (parseFrame data dlt = .error .none ↔ ¬Ipv4CarriesTcp b)) ∧
      (Ipv6Fragment b → (parseFrame data dlt = .error .none ↔ ¬Ipv6CarriesTcp b)) := by
  rw [parseFrame_of_payload hb, parseIp_eq]
  constructor
  · rintro ⟨hlen, hversion, _⟩
    have hne : b ≠ [] := List.length_pos_iff.mp (by omega)
    rw [if_neg hne, if_pos hversion, parseIpv4_none_iff]
  · rintro ⟨hlen, hversion, _⟩
    have hne : b ≠ [] := List.length_pos_iff.mp (by omega)
    have hother : at0 b 0 >>> 4 ≠ 4 := by
      rw [hversion]
      decide
    rw [if_neg hne, if_neg hother, if_pos hversion, parseIpv6_none_iff]

/-- The text `SELECT qty, SUM(n) F`, from the middle of a stream. -/
def fragmentText : Bytes :=
  [83, 69, 76, 69, 67, 84, 32, 113, 116, 121, 44, 32, 83, 85, 77, 40, 110, 41, 32, 70]

/-- The text in the second fragment of an IPv4 packet. -/
def ipv4FragmentBytes : Bytes :=
  [0x45, 0, 0, 40, 0, 1, 0, 185, 64, 6, 0, 0, 10, 0, 0, 1, 10, 0, 0, 2] ++ fragmentText

/-- The text behind a fragment header of an IPv6 packet. -/
def ipv6FragmentBytes : Bytes :=
  [0x60, 0, 0, 0, 0, 28, 44, 64] ++ List.replicate 32 1 ++ [6, 0, 5, 200, 0, 0, 0, 1] ++ fragmentText

/-- A fragment of another protocol than TCP. -/
theorem fragment_ignored_udp :
    parseFrame [0x45, 0, 0, 24, 0, 1, 0, 185, 64, 17, 0, 0, 10, 0, 0, 1, 10, 0, 0, 2, 1, 2, 3, 4] 101
      = .error .none :=
  ((fragment_ignored_iff _ [0x45, 0, 0, 24, 0, 1, 0, 185, 64, 17, 0, 0, 10, 0, 0, 1, 10, 0, 0, 2, 1, 2, 3, 4]
    101 ⟨0, rfl, Nat.zero_le _, rfl⟩).1 (by unfold Ipv4Fragment; decide)).mpr
    (by unfold Ipv4CarriesTcp; decide)

/-- **Text taken for a header.**  In either version of IP the text of the fragment is read as ports, numbers
and flags: an RST between two ports that are nobody's. -/
theorem fragment_taken_for_segment :
    Ipv4Fragment ipv4FragmentBytes ∧ parseFrame ipv4FragmentBytes 101 = .ok
        { src := .v4 0x0a000001, dst := .v4 0x0a000002, srcPort := 0x5345, dstPort := 0x4c45
          seq := 0x43542071, ack := 0x74792c20, syn := false, fin := true, rst := true, payload := [] } ∧
      Ipv6Fragment ipv6FragmentBytes ∧ parseFrame ipv6FragmentBytes 101 = .ok
        (segmentOf fragmentText (ipv6Address ipv6FragmentBytes 8) (ipv6Address ipv6FragmentBytes 24)) := by
  refine ⟨by unfold Ipv4Fragment; decide, ?_, ⟨by decide, by decide, 40, .refl, by decide, by decide⟩, ?_⟩
  · have hpayload : LinkPayload ipv4FragmentBytes 101 ipv4FragmentBytes := ⟨0, rfl, Nat.zero_le _, rfl⟩
    have hbody : ipv4Body ipv4FragmentBytes = fragmentText := by decide
    rw [parseFrame_of_payload hpayload, parseIp_eq, if_neg (by decide), if_pos (by decide), parseIpv4_eq,
      if_pos (by decide), hbody, parseTcp_eq, if_pos (by decide)]
    exact congrArg Except.ok (by decide)
  · have htcp : TcpInIpv6 ipv6FragmentBytes 48 :=
      ⟨by decide, .single ⟨by decide, by decide, by decide, by decide⟩⟩
    have hpayload : LinkPayload ipv6FragmentBytes 101 ipv6FragmentBytes := ⟨0, rfl, Nat.zero_le _, rfl⟩
    have hbody : ipv6Body ipv6FragmentBytes 48 = fragmentText := by decide
    rw [parseFrame_of_payload hpayload, parseIp_eq, if_neg (by decide), if_neg (by decide), if_pos (by decide),
      parseIpv6_eq htcp, hbody, parseTcp_eq, if_pos (by decide)]

end Tapgres.Net
