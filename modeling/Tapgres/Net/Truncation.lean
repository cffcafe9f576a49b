import Tapgres.Net.Reads

/-!
# Frames cut short by the capture

A capture may keep the first `k` bytes of a frame.  Each function of the parser, given more bytes, takes
the same decisions and finds the same numbers:

* `Continues` — a segment, and one with the same header whose payload goes on;
* `parseTcp_continues`, `parseIp_continues`, `LinkPayload.continues` — the layers;
* `parse_frame_safe_and_stable` — no read is out of range, and a segment found in the first bytes of a
  frame is the start of the one in the whole frame.
-/

namespace Tapgres.Net

open Tapgres.Lib.BigEndian Tapgres.Lib.Slice

/-- The same header, and a payload that starts with that of `seg`. -/
structure Continues (seg seg' : TcpSegment) : Prop where
  src : seg'.src = seg.src
  dst : seg'.dst = seg.dst
  srcPort : seg'.srcPort = seg.srcPort
  dstPort : seg'.dstPort = seg.dstPort
  seq : seg'.seq = seg.seq
  ack : seg'.ack = seg.ack
  syn : seg'.syn = seg.syn
  fin : seg'.fin = seg.fin
  rst : seg'.rst = seg.rst
  payload : seg.payload <+: seg'.payload

section Prefix

variable {b b' : Bytes} (h : b <+: b')
include h

theorem at0_extend {i : ℕ} (hi : i < b.length) : at0 b' i = at0 b i := by
  obtain ⟨more, rfl⟩ := h
  rw [at0, at0, List.getD_eq_getElem?_getD, List.getD_eq_getElem?_getD, List.getElem?_append_left hi]

theorem numberAt_extend {i n : ℕ} (hin : i + n ≤ b.length) : numberAt b' i n = numberAt b i n := by
  obtain ⟨more, rfl⟩ := h
  rw [numberAt, numberAt, List.take_append_of_le_length hin]

/-! ### TCP -/

theorem parseTcp_continues {src dst : IpAddr} {seg : TcpSegment} (hseg : parseTcp b src dst = .ok seg) :
    ∃ seg', parseTcp b' src dst = .ok seg' ∧ Continues seg seg' := by
  rw [parseTcp_eq] at hseg
  split at hseg
  · rename_i htcp
    obtain ⟨hlen, hoff, hwithin⟩ := htcp
    obtain rfl := Except.ok.inj hseg
    have hmore : b.length ≤ b'.length := h.length_le
    have hoffset : tcpDataOffset b' = tcpDataOffset b := by
      rw [tcpDataOffset, tcpDataOffset, at0_extend h (by omega)]
    have htcp' : ReadsAsTcp b' := ⟨by omega, by omega, by omega⟩
    refine ⟨segmentOf b' src dst, ?_, ?_⟩
    · rw [parseTcp_eq, if_pos htcp']
    · simp only [segmentOf, hoffset, at0_extend h (show 13 < b.length by omega),
        numberAt_extend h (show 0 + 2 ≤ b.length by omega), numberAt_extend h (show 2 + 2 ≤ b.length by omega),
        numberAt_extend h (show 4 + 4 ≤ b.length by omega), numberAt_extend h (show 8 + 4 ≤ b.length by omega)]
      exact ⟨rfl, rfl, rfl, rfl, rfl, rfl, rfl, rfl, rfl, h.drop _⟩
  · cases hseg

/-! ### IP -/

theorem parseIpv4_continues {seg : TcpSegment} (hseg : parseIpv4 b = .ok seg) :
    ∃ seg', parseIpv4 b' = .ok seg' ∧ Continues seg seg' := by
  rw [parseIpv4_eq] at hseg
  split at hseg
  · rename_i htcp
    obtain ⟨hlen, hihl, hend, hproto⟩ := htcp
    have hmore : b.length ≤ b'.length := h.length_le
    have hheader : ipv4HeaderLen b' = ipv4HeaderLen b := by
      rw [ipv4HeaderLen, ipv4HeaderLen, at0_extend h (by omega)]
    have hends : ipv4End b ≤ ipv4End b' := by
      rw [ipv4End, ipv4End, numberAt_extend h (by omega)]
      omega
    have htcp' : TcpInIpv4 b' :=
      ⟨by omega, by omega, by omega, (at0_extend h (by omega)).trans hproto⟩
    have hbody : ipv4Body b <+: ipv4Body b' := by
      rw [ipv4Body, ipv4Body, hheader]
      exact slice_extend h _ hends
    rw [parseIpv4_eq, if_pos htcp', ipv4Address, ipv4Address, numberAt_extend h (by omega),
      numberAt_extend h (by omega)]
    exact parseTcp_continues hbody hseg
  · cases hseg

/-- A chain of extension headers is still there in a longer packet. -/
theorem Leads.continues {bodyEnd bodyEnd' : ℕ} (hb : bodyEnd ≤ b.length) (hle : bodyEnd ≤ bodyEnd')
    {s s' : UInt8 × ℕ} (hleads : Leads b bodyEnd s s') : Leads b' bodyEnd' s s' := by
  induction hleads with
  | refl => exact .refl
  | tail _ hstep ih =>
    rename_i s₁ s₂ _
    obtain ⟨hext, hhere, hnext, hwithin⟩ := hstep
    refine ih.tail ⟨hext, by omega, ?_, by omega⟩
    rw [hnext, extensionLength, extensionLength, at0_extend h (by omega), at0_extend h (by omega)]

theorem parseIpv6_continues {seg : TcpSegment} (hseg : parseIpv6 b = .ok seg) :
    ∃ seg', parseIpv6 b' = .ok seg' ∧ Continues seg seg' := by
  rcases parseIpv6_cases b with ⟨off, htcp, hparse⟩ | ⟨_, hparse⟩
  · obtain ⟨hlen, hleads⟩ := htcp
    have hmore : b.length ≤ b'.length := h.length_le
    have hends : ipv6End b ≤ ipv6End b' := by
      rw [ipv6End, ipv6End, numberAt_extend h (by omega)]
      omega
    have htcp' : TcpInIpv6 b' off := by
      refine ⟨by omega, ?_⟩
      rw [at0_extend h (by omega)]
      exact hleads.continues h (Nat.min_le_right _ _) hends
    have hbody : ipv6Body b off <+: ipv6Body b' off := slice_extend h off hends
    rw [hparse] at hseg
    rw [parseIpv6_eq htcp', ipv6Address, ipv6Address, numberAt_extend h (by omega),
      numberAt_extend h (by omega)]
    exact parseTcp_continues hbody hseg
  · rw [hparse] at hseg
    cases hseg

theorem parseIp_continues {seg : TcpSegment} (hseg : parseIp b = .ok seg) :
    ∃ seg', parseIp b' = .ok seg' ∧ Continues seg seg' := by
  rw [parseIp_eq] at hseg
  split at hseg
  · cases hseg
  · rename_i hne
    have hpos : 0 < b.length := List.length_pos_iff.mpr hne
    have hne' : b' ≠ [] := List.length_pos_iff.mp (Nat.lt_of_lt_of_le hpos h.length_le)
    rw [parseIp_eq, if_neg hne', at0_extend h hpos]
    split at hseg
    · rename_i hversion
      rw [if_pos hversion]
      exact parseIpv4_continues h hseg
    · rename_i hversion
      rw [if_neg hversion]
      split at hseg
      · rename_i hversion'
        rw [if_pos hversion']
        exact parseIpv6_continues h hseg
      · cases hseg

/-! ### The link layer -/

theorem VlanLeads.continues {e e' : ℕ} {p : Bytes} (hleads : VlanLeads (e, b) (e', p)) :
    ∃ p', VlanLeads (e, b') (e', p') ∧ p <+: p' := by
  generalize hs : (e', p) = s at hleads
  induction hleads generalizing e' p with
  | refl =>
    cases hs
    exact ⟨b', .refl, h⟩
  | tail _ hstep ih =>
    rename_i s₁ s₂ _
    obtain ⟨hvlan, hlen, hnext⟩ := hstep
    obtain ⟨p', hleads', hprefix⟩ := ih rfl
    rw [hnext] at hs
    cases hs
    refine ⟨p'.drop 4, hleads'.tail ⟨hvlan, hlen.trans hprefix.length_le, ?_⟩, hprefix.drop 4⟩
    rw [numberAt_extend hprefix (by omega)]

theorem LinkPayload.continues {dlt : ℤ} {ip : Bytes} (hip : LinkPayload b dlt ip) :
    ∃ ip', LinkPayload b' dlt ip' ∧ ip <+: ip' := by
  have hmore : b.length ≤ b'.length := h.length_le
  rw [LinkPayload] at hip
  split at hip
  · rename_i hdlt
    obtain ⟨hlen, e, htype, hleads⟩ := hip
    rw [← numberAt_extend h (by omega)] at hleads
    obtain ⟨ip', hleads', hprefix⟩ := hleads.continues (h.drop 14)
    refine ⟨ip', ?_, hprefix⟩
    rw [LinkPayload, if_pos hdlt]
    exact ⟨by omega, e, htype, hleads'⟩
  · rename_i hdlt
    obtain ⟨n, hn, hlen, rfl⟩ := hip
    refine ⟨b'.drop n, ?_, h.drop n⟩
    rw [LinkPayload, if_neg hdlt]
    exact ⟨n, hn, by omega, rfl⟩

theorem parseFrame_continues {dlt : ℤ} {seg : TcpSegment} (hseg : parseFrame b dlt = .ok seg) :
    ∃ seg', parseFrame b' dlt = .ok seg' ∧ Continues seg seg' := by
  obtain ⟨ip, hip, hparse⟩ := parseFrame_ok hseg
  obtain ⟨ip', hip', hprefix⟩ := hip.continues h
  rw [parseFrame_of_payload hip']
  exact parseIp_continues hprefix hparse

end Prefix

/-- **The frame parser is safe on any bytes, and stable under truncation.** -/
theorem parse_frame_safe_and_stable (data : Bytes) (dlt : ℤ) :
    Returns (parseFrame data dlt) ∧
      ∀ k seg, parseFrame (data.take k) dlt = .ok seg →
        ∃ seg', parseFrame data dlt = .ok seg' ∧ Continues seg seg' :=
  ⟨parseFrame_returns data dlt, fun k _ hseg => parseFrame_continues (List.take_prefix k data) hseg⟩

end Tapgres.Net
