import Tapgres.Net.Encode
import Tapgres.Net.Reads

/-!
# Reading frames back

The parser against the format: what it finds in a well-formed frame.

* `numberAt_toBe`, `numberAt_skip` — a number is read where its field starts, whatever stands in front;
* `parseTcp_encode`, `parseIp_encode` — every packet, with any padding behind it, gives its segment;
* `leads_encodeChain` — by induction over the extension headers;
* `TagsPass` — the parser reads the control information of a VLAN tag as the type field behind it;
* `frames_recovered_iff` — the link-layer headers behind which every packet is recovered.
-/

namespace Tapgres.Net.Wire

open Tapgres.Net Tapgres.Lib.BigEndian

/-! ### Fields in front of other bytes -/

/-- A number is read where its bytes start. -/
theorem numberAt_toBe {w n : ℕ} (hn : n < 256 ^ w) (post : Bytes) : numberAt (toBe w n ++ post) 0 w = n := by
  rw [numberAt, Nat.zero_add, List.take_left' (length_toBe w n), List.drop_zero, ofBe_toBe_of_lt hn]

/-- What is read behind a field of `k` bytes does not depend on them. -/
theorem numberAt_skip {pre : Bytes} {k : ℕ} (hk : pre.length = k) (b : Bytes) (i w : ℕ) :
    numberAt (pre ++ b) (k + i) w = numberAt b i w := by
  subst hk
  rw [numberAt, numberAt, Nat.add_assoc, List.take_length_add_append, List.drop_length_add_append]

theorem at0_skip {pre : Bytes} {k : ℕ} (hk : pre.length = k) (b : Bytes) (i : ℕ) :
    at0 (pre ++ b) (k + i) = at0 b i := by
  subst hk
  rw [at0, at0, List.getD_eq_getElem?_getD, List.getD_eq_getElem?_getD,
    List.getElem?_append_right (Nat.le_add_right _ _), Nat.add_sub_cancel_left]

/-! ### TCP -/

theorem shiftRight_nibbles {k r : ℕ} (hk : k < 16) (hr : r < 16) :
    (UInt8.ofNat (16 * k + r) >>> 4).toNat = k := by
  have hshift : UInt8.toNat 4 % 8 = 4 := rfl
  rw [UInt8.toNat_shiftRight, UInt8.toNat_ofNat', hshift, Nat.shiftRight_eq_div_pow]
  omega

theorem Options.headerWords_le (o : Options) : 5 ≤ o.headerWords ∧ o.headerWords < 16 := by
  have := o.fits
  rw [Options.headerWords]
  omega

/-- The length of a header with options, in bytes. -/
theorem Options.headerBytes (o : Options) : o.headerWords * 4 = 20 + o.bytes.length := by
  have := o.words
  rw [Options.headerWords]
  omega

/-- The three flags the parser reads, among the eight. -/
theorem flags_read (t : TcpPacket) :
    (t.flags &&& 0x02 != 0) = t.syn ∧ (t.flags &&& 0x01 != 0) = t.fin ∧ (t.flags &&& 0x04 != 0) = t.rst := by
  have hall : ∀ (others : Fin 32) (rst syn fin : Bool),
      (UInt8.ofNat (8 * others + 4 * rst.toNat + 2 * syn.toNat + fin.toNat) &&& 0x02 != 0) = syn ∧
      (UInt8.ofNat (8 * others + 4 * rst.toNat + 2 * syn.toNat + fin.toNat) &&& 0x01 != 0) = fin ∧
      (UInt8.ofNat (8 * others + 4 * rst.toNat + 2 * syn.toNat + fin.toNat) &&& 0x04 != 0) = rst := by
    decide
  exact hall t.others t.rst t.syn t.fin

/-- The packet field by field. -/
theorem TcpPacket.encode_eq (t : TcpPacket) :
    t.encode = toBe 2 t.srcPort.toNat ++ (toBe 2 t.dstPort.toNat ++ (toBe 4 t.seq.toNat ++ (toBe 4 t.ack.toNat
      ++ ([UInt8.ofNat (16 * t.options.headerWords + t.reserved), t.flags] ++ (toBe 2 t.window.toNat
      ++ (toBe 2 t.checksum.toNat ++ (toBe 2 t.urgent.toNat ++ (t.options.bytes ++ t.payload)))))))) := by
  simp only [TcpPacket.encode, List.append_assoc]

theorem TcpPacket.length_encode (t : TcpPacket) :
    t.encode.length = 20 + t.options.bytes.length + t.payload.length := by
  simp [TcpPacket.encode]
  omega

/-- The two bytes behind the acknowledgement number: data offset and flags. -/
theorem TcpPacket.at0_encode (t : TcpPacket) :
    at0 t.encode 12 = UInt8.ofNat (16 * t.options.headerWords + t.reserved) ∧ at0 t.encode 13 = t.flags := by
  have hskip : ∀ i, at0 t.encode (12 + i)
      = at0 ([UInt8.ofNat (16 * t.options.headerWords + t.reserved), t.flags] ++ (toBe 2 t.window.toNat
        ++ (toBe 2 t.checksum.toNat ++ (toBe 2 t.urgent.toNat ++ (t.options.bytes ++ t.payload))))) i := by
    intro i
    rw [t.encode_eq, show 12 + i = 2 + (2 + (4 + (4 + i))) by omega, at0_skip (length_toBe 2 _),
      at0_skip (length_toBe 2 _), at0_skip (length_toBe 4 _), at0_skip (length_toBe 4 _)]
  exact ⟨hskip 0, hskip 1⟩

theorem tcpDataOffset_encode (t : TcpPacket) : tcpDataOffset t.encode = 20 + t.options.bytes.length := by
  rw [tcpDataOffset, t.at0_encode.1, shiftRight_nibbles t.options.headerWords_le.2 t.reserved.isLt,
    t.options.headerBytes]

/-- **A TCP packet is read back.** -/
theorem parseTcp_encode (t : TcpPacket) (src dst : IpAddr) :
    parseTcp t.encode src dst = .ok (t.segment src dst) := by
  have hlen := t.length_encode
  have hoff := tcpDataOffset_encode t
  have hreads : ReadsAsTcp t.encode := ⟨by omega, by omega, by omega⟩
  have hpayload : t.encode.drop (tcpDataOffset t.encode) = t.payload := by
    rw [hoff, TcpPacket.encode]
    exact List.drop_left' (by simp; omega)
  have hflags := t.at0_encode.2
  obtain ⟨hsyn, hfin, hrst⟩ := flags_read t
  have hsrcPort : numberAt t.encode 0 2 = t.srcPort.toNat := by
    rw [t.encode_eq, numberAt_toBe t.srcPort.toNat_lt]
  have hdstPort : numberAt t.encode 2 2 = t.dstPort.toNat := by
    rw [t.encode_eq, numberAt_skip (length_toBe 2 _) _ 0, numberAt_toBe t.dstPort.toNat_lt]
  have hseq : numberAt t.encode 4 4 = t.seq.toNat := by
    rw [t.encode_eq, numberAt_skip (length_toBe 2 _) _ 2, numberAt_skip (length_toBe 2 _) _ 0,
      numberAt_toBe t.seq.isLt]
  have hack : numberAt t.encode 8 4 = t.ack.toNat := by
    rw [t.encode_eq, numberAt_skip (length_toBe 2 _) _ 6, numberAt_skip (length_toBe 2 _) _ 4,
      numberAt_skip (length_toBe 4 _) _ 0, numberAt_toBe t.ack.isLt]
  rw [parseTcp_eq, if_pos hreads]
  apply congrArg Except.ok
  rw [segmentOf, hsrcPort, hdstPort, hseq, hack, hflags, hsyn, hfin, hrst, hpayload, UInt16.ofNat_toNat,
    UInt16.ofNat_toNat, BitVec.ofNat_toNat, BitVec.ofNat_toNat, BitVec.setWidth_eq, BitVec.setWidth_eq]
  rfl

/-! ### IPv4 -/

/-- The fixed header of an IPv4 packet, up to the addresses. -/
def Ipv4Packet.leading (p : Ipv4Packet) : Bytes :=
  [UInt8.ofNat (16 * 4 + p.options.headerWords), p.tos]
    ++ (toBe 2 (20 + p.options.bytes.length + p.tcp.encode.length) ++ (toBe 2 p.identification.toNat
    ++ ([if p.dontFragment then 0x40 else 0, 0, p.ttl, 6] ++ toBe 2 p.checksum.toNat)))

theorem Ipv4Packet.length_leading (p : Ipv4Packet) : p.leading.length = 12 := by
  simp [Ipv4Packet.leading]

theorem Ipv4Packet.encode_append (p : Ipv4Packet) (more : Bytes) :
    p.encode ++ more = p.leading
      ++ (toBe 4 p.src.toNat ++ (toBe 4 p.dst.toNat ++ (p.options.bytes ++ (p.tcp.encode ++ more)))) := by
  simp only [Ipv4Packet.encode, Ipv4Packet.leading, List.append_assoc, List.cons_append, List.nil_append]

theorem Ipv4Packet.length_encode (p : Ipv4Packet) :
    p.encode.length = 20 + p.options.bytes.length + p.tcp.encode.length := by
  simp [Ipv4Packet.encode]
  omega

/-- The first byte of an IPv4 packet: its version, and the length of its header. -/
theorem versionByte_ipv4 (o : Options) :
    UInt8.ofNat (16 * 4 + o.headerWords) >>> 4 = 4 ∧
      (UInt8.ofNat (16 * 4 + o.headerWords) &&& 0x0f).toNat = o.headerWords := by
  have hall : ∀ words : Fin 16, UInt8.ofNat (16 * 4 + words) >>> 4 = 4 ∧
      (UInt8.ofNat (16 * 4 + words) &&& 0x0f).toNat = words := by
    decide
  exact hall ⟨o.headerWords, o.headerWords_le.2⟩

/-- **An IPv4 packet is read back**, and bytes behind it are left alone. -/
theorem parseIpv4_encode (p : Ipv4Packet) (more : Bytes) :
    at0 (p.encode ++ more) 0 >>> 4 = 4 ∧
      parseIpv4 (p.encode ++ more) = .ok (p.tcp.segment (.v4 p.src) (.v4 p.dst)) := by
  have hlen := p.length_encode
  have htcp := p.tcp.length_encode
  obtain ⟨hversion, hwords⟩ := versionByte_ipv4 p.options
  have hfirst : at0 (p.encode ++ more) 0 = UInt8.ofNat (16 * 4 + p.options.headerWords) := rfl
  have hproto : at0 (p.encode ++ more) 9 = 6 := by
    rw [p.encode_append, Ipv4Packet.leading, List.append_assoc, List.append_assoc, List.append_assoc,
      at0_skip (show [_, _].length = 2 from rfl) _ 7, at0_skip (length_toBe 2 _) _ 5,
      at0_skip (length_toBe 2 _) _ 3]
    rfl
  have hihl : ipv4HeaderLen (p.encode ++ more) = 20 + p.options.bytes.length := by
    rw [ipv4HeaderLen, hfirst, hwords, p.options.headerBytes]
  have htotal : numberAt (p.encode ++ more) 2 2 = p.encode.length := by
    rw [hlen, p.encode_append, Ipv4Packet.leading, List.append_assoc, List.append_assoc,
      numberAt_skip (show [_, _].length = 2 from rfl) _ 0, numberAt_toBe p.fits]
  have hsrc : numberAt (p.encode ++ more) 12 4 = p.src.toNat := by
    rw [p.encode_append, numberAt_skip p.length_leading _ 0, numberAt_toBe p.src.isLt]
  have hdst : numberAt (p.encode ++ more) 16 4 = p.dst.toNat := by
    rw [p.encode_append, numberAt_skip p.length_leading _ 4, numberAt_skip (length_toBe 4 _) _ 0,
      numberAt_toBe p.dst.isLt]
  have hend : ipv4End (p.encode ++ more) = p.encode.length := by
    rw [ipv4End, htotal, List.length_append]
    omega
  have hbody : ipv4Body (p.encode ++ more) = p.tcp.encode := by
    rw [ipv4Body, hend, hihl, List.take_left', Ipv4Packet.encode]
    · exact List.drop_left' (by simp; omega)
    · rfl
  have hnames : TcpInIpv4 (p.encode ++ more) :=
    ⟨by rw [List.length_append]; omega, by omega, by omega, hproto⟩
  refine ⟨by rw [hfirst, hversion], ?_⟩
  rw [parseIpv4_eq, if_pos hnames, hbody, parseTcp_encode, ipv4Address, ipv4Address, hsrc, hdst,
    BitVec.ofNat_toNat, BitVec.ofNat_toNat, BitVec.setWidth_eq, BitVec.setWidth_eq]

/-! ### IPv6 -/

theorem ExtensionHeader.length_encode (next : UInt8) (h : ExtensionHeader) : 8 ≤ (h.encode next).length := by
  cases h with
  | unit kind len body whole =>
    rw [ExtensionHeader.encode, List.length_cons, List.length_cons]
    omega
  | fragment reserved flags identification => exact le_refl 8
  | authentication len body whole =>
    rw [ExtensionHeader.encode, List.length_cons, List.length_cons]
    omega

/-- **One extension header** is stepped over, to the one it names. -/
theorem extensionStep_encode (pre post : Bytes) (h : ExtensionHeader) (next : UInt8) (bodyEnd : ℕ)
    (hend : pre.length + (h.encode next).length ≤ bodyEnd) :
    ExtensionStep (pre ++ (h.encode next ++ post)) bodyEnd (h.code, pre.length)
      (next, pre.length + (h.encode next).length) := by
  have hlen := h.length_encode next
  have hnext : at0 (pre ++ (h.encode next ++ post)) pre.length = next := by
    cases h <;> exact at0_skip rfl _ 0
  have hlength : extensionLength (pre ++ (h.encode next ++ post)) (h.code, pre.length)
      = (h.encode next).length := by
    cases h with
    | unit kind len body whole =>
      have hbyte : at0 (pre ++ (next :: len :: body ++ post)) (pre.length + 1) = len :=
        at0_skip rfl _ 1
      have hkind : kind.code ≠ 44 ∧ kind.code ≠ 51 := by cases kind <;> decide
      rw [extensionLength, ExtensionHeader.code, ExtensionHeader.encode, if_neg hkind.1, if_neg hkind.2,
        hbyte, List.length_cons, List.length_cons]
      omega
    | fragment reserved flags identification => rfl
    | authentication len body whole =>
      have hbyte : at0 (pre ++ (next :: len :: body ++ post)) (pre.length + 1) = len :=
        at0_skip rfl _ 1
      rw [extensionLength, ExtensionHeader.code, ExtensionHeader.encode,
        if_neg (show (51 : UInt8) ≠ 44 by decide), if_pos rfl, hbyte, List.length_cons, List.length_cons]
      omega
  refine ⟨?_, by show pre.length + 8 ≤ bodyEnd; omega, by rw [hnext, hlength], hend⟩
  cases h with
  | unit kind len body whole => cases kind <;> rfl
  | fragment reserved flags identification => rfl
  | authentication len body whole => rfl

/-- **A chain of extension headers leads to the TCP header behind it.** -/
theorem leads_encodeChain (headers : List ExtensionHeader) (pre post : Bytes) (bodyEnd : ℕ)
    (hend : pre.length + (encodeChain headers).length ≤ bodyEnd) :
    Leads (pre ++ (encodeChain headers ++ post)) bodyEnd (chainCode headers, pre.length)
      (6, pre.length + (encodeChain headers).length) := by
  induction headers generalizing pre with
  | nil => exact .refl
  | cons h hs ih =>
    rw [encodeChain, List.length_append] at hend
    have hstep := extensionStep_encode pre (encodeChain hs ++ post) h (chainCode hs) bodyEnd (by omega)
    have hrest := ih (pre ++ h.encode (chainCode hs)) (by rw [List.length_append]; omega)
    rw [List.length_append, List.append_assoc, Nat.add_assoc] at hrest
    rw [encodeChain, List.append_assoc, List.length_append]
    exact .head hstep hrest

theorem Ipv6Packet.length_encode (p : Ipv6Packet) :
    p.encode.length = 40 + (encodeChain p.headers).length + p.tcp.encode.length := by
  simp [Ipv6Packet.encode]
  omega

/-- The fixed header of an IPv6 packet, up to the addresses. -/
def Ipv6Packet.leading (p : Ipv6Packet) : Bytes :=
  [UInt8.ofNat (16 * 6 + p.trafficHigh)] ++ toBe 3 p.flow.toNat
    ++ toBe 2 ((encodeChain p.headers).length + p.tcp.encode.length) ++ [chainCode p.headers, p.hopLimit]

theorem Ipv6Packet.length_leading (p : Ipv6Packet) : p.leading.length = 8 := by
  simp [Ipv6Packet.leading]

def Ipv6Packet.fixedHeader (p : Ipv6Packet) : Bytes :=
  p.leading ++ toBe 16 p.src.toNat ++ toBe 16 p.dst.toNat

theorem Ipv6Packet.length_fixedHeader (p : Ipv6Packet) : p.fixedHeader.length = 40 := by
  simp [Ipv6Packet.fixedHeader, Ipv6Packet.leading]

theorem Ipv6Packet.encode_eq (p : Ipv6Packet) :
    p.encode = p.fixedHeader ++ (encodeChain p.headers ++ p.tcp.encode) := by
  rw [Ipv6Packet.encode, ← Ipv6Packet.leading, ← Ipv6Packet.fixedHeader, List.append_assoc]

theorem Ipv6Packet.encode_append (p : Ipv6Packet) (more : Bytes) :
    p.encode ++ more = p.leading ++ (toBe 16 p.src.toNat ++ (toBe 16 p.dst.toNat
      ++ (encodeChain p.headers ++ (p.tcp.encode ++ more)))) := by
  simp only [p.encode_eq, Ipv6Packet.fixedHeader, List.append_assoc]

theorem versionByte_ipv6 (n : Fin 16) : UInt8.ofNat (16 * 6 + n) >>> 4 = 6 := by
  revert n
  decide

/-- **An IPv6 packet is read back**, and bytes behind it are left alone. -/
theorem parseIpv6_encode (p : Ipv6Packet) (more : Bytes) :
    at0 (p.encode ++ more) 0 >>> 4 = 6 ∧
      parseIpv6 (p.encode ++ more) = .ok (p.tcp.segment (.v6 p.src) (.v6 p.dst)) := by
  have hlen := p.length_encode
  have hfixed := p.length_fixedHeader
  have hfirst : at0 (p.encode ++ more) 0 = UInt8.ofNat (16 * 6 + p.trafficHigh) := rfl
  have hcode : at0 (p.encode ++ more) 6 = chainCode p.headers := by
    rw [p.encode_append, Ipv6Packet.leading, List.append_assoc, List.append_assoc, List.append_assoc,
      at0_skip (show [_].length = 1 from rfl) _ 5, at0_skip (length_toBe 3 _) _ 2,
      at0_skip (length_toBe 2 _) _ 0]
    rfl
  have hpayload : numberAt (p.encode ++ more) 4 2 = (encodeChain p.headers).length + p.tcp.encode.length := by
    rw [p.encode_append, Ipv6Packet.leading, List.append_assoc, List.append_assoc, List.append_assoc,
      numberAt_skip (show [_].length = 1 from rfl) _ 3, numberAt_skip (length_toBe 3 _) _ 0,
      numberAt_toBe p.fits]
  have hsrc : numberAt (p.encode ++ more) 8 16 = p.src.toNat := by
    rw [p.encode_append, numberAt_skip p.length_leading _ 0, numberAt_toBe p.src.isLt]
  have hdst : numberAt (p.encode ++ more) 24 16 = p.dst.toNat := by
    rw [p.encode_append, numberAt_skip p.length_leading _ 16, numberAt_skip (length_toBe 16 _) _ 0,
      numberAt_toBe p.dst.isLt]
  have hend : ipv6End (p.encode ++ more) = p.encode.length := by
    rw [ipv6End, hpayload, List.length_append]
    omega
  have hnames : TcpInIpv6 (p.encode ++ more) (40 + (encodeChain p.headers).length) := by
    refine ⟨by rw [List.length_append]; omega, ?_⟩
    have hleads := leads_encodeChain p.headers p.fixedHeader (p.tcp.encode ++ more)
      p.encode.length (by omega)
    rw [hfixed] at hleads
    rw [hend, hcode, p.encode_eq]
    simpa only [List.append_assoc, p.encode_eq] using hleads
  have hbody : ipv6Body (p.encode ++ more) (40 + (encodeChain p.headers).length) = p.tcp.encode := by
    rw [ipv6Body, hend, List.take_left' rfl, p.encode_eq, ← List.append_assoc]
    exact List.drop_left' (by rw [List.length_append, hfixed])
  refine ⟨by rw [hfirst, versionByte_ipv6], ?_⟩
  rw [parseIpv6_eq hnames, hbody, parseTcp_encode, ipv6Address, ipv6Address, hsrc, hdst,
    BitVec.ofNat_toNat, BitVec.ofNat_toNat, BitVec.setWidth_eq, BitVec.setWidth_eq]

/-- **Every packet is read back**, whatever padding stands behind it. -/
theorem parseIp_encode (packet : Packet) (padding : Bytes) :
    parseIp (packet.encode ++ padding) = .ok packet.segment := by
  cases packet with
  | v4 p =>
    obtain ⟨hversion, hparse⟩ := parseIpv4_encode p padding
    have hne : p.encode ++ padding ≠ [] := by simp [Ipv4Packet.encode]
    show parseIp (p.encode ++ padding) = _
    rw [parseIp_eq, if_neg hne, if_pos hversion, hparse]
    rfl
  | v6 p =>
    obtain ⟨hversion, hparse⟩ := parseIpv6_encode p padding
    have hne : p.encode ++ padding ≠ [] := by simp [Ipv6Packet.encode]
    have hother : at0 (p.encode ++ padding) 0 >>> 4 ≠ 4 := by
      rw [hversion]
      decide
    show parseIp (p.encode ++ padding) = _
    rw [parseIp_eq, if_neg hne, if_neg hother, if_pos hversion, hparse]
    rfl

/-! ### The link layer -/

/-- The type field `x` has been read in front of the tags `tags`.  The parser takes the control
information of a tag for the next type field: it gets to the packet if all but the last look like another
tag, and the last like the type of an IP packet. -/
def TagsPass : ℕ → List (BitVec 16) → Prop
  | x, [] => IpEthertype x
  | x, tci :: tags => x = 0x8100 ∧ TagsPass tci.toNat tags

/-- A header behind which packets are found: any but one with VLAN tags, and some of these. -/
def Link.Passes : Link → Prop
  | .ethernet _ _ (tci :: tags) => TagsPass tci.toNat tags
  | _ => True

theorem Packet.ethertype_ip (packet : Packet) : IpEthertype packet.ethertype := by
  cases packet
  · exact .inl rfl
  · exact .inr rfl

/-- One tag is skipped, and its control information taken for the type field. -/
theorem vlanStep_encode (e : ℕ) (tci : BitVec 16) (tags : List (BitVec 16)) (b : Bytes) :
    VlanStep (0x8100, encodeTags e (tci :: tags) ++ b) (tci.toNat, encodeTags e tags ++ b) := by
  have hread : numberAt (encodeTags e (tci :: tags) ++ b) 0 2 = tci.toNat := by
    rw [encodeTags, List.append_assoc, List.append_assoc, numberAt_toBe tci.isLt]
  refine ⟨rfl, ?_, ?_⟩
  · simp [encodeTags]
    omega
  · rw [hread]
    rfl

theorem vlanLeads_of_tagsPass (e : ℕ) {x : ℕ} {tags : List (BitVec 16)} (h : TagsPass x tags) (b : Bytes) :
    ∃ e', IpEthertype e' ∧ VlanLeads (x, encodeTags e tags ++ b) (e', b) := by
  induction tags generalizing x with
  | nil => exact ⟨x, h, .refl⟩
  | cons tci tags ih =>
    obtain ⟨rfl, hrest⟩ := h
    obtain ⟨e', htype, hleads⟩ := ih hrest
    exact ⟨e', htype, .head (vlanStep_encode e tci tags b) hleads⟩

/-- An Ethernet frame holds what its tags lead to. -/
theorem linkPayload_ethernet_iff (dst src : BitVec 48) (tags : List (BitVec 16)) (e : ℕ)
    (he : e < 2 ^ 16) (b ip : Bytes) :
    LinkPayload ((Link.ethernet dst src tags).encode e ++ b) 1 ip ↔
      ∃ e', IpEthertype e' ∧ VlanLeads (typeField e tags, encodeTags e tags ++ b) (e', ip) := by
  have hfield : typeField e tags < 2 ^ 16 := by
    cases tags
    · exact he
    · show (0x8100 : ℕ) < 2 ^ 16
      omega
  have htype : numberAt ((Link.ethernet dst src tags).encode e ++ b) 12 2 = typeField e tags := by
    rw [Link.encode, List.append_assoc, List.append_assoc, List.append_assoc,
      numberAt_skip (length_toBe 6 _) _ 6, numberAt_skip (length_toBe 6 _) _ 0, numberAt_toBe hfield]
  have hdrop : ((Link.ethernet dst src tags).encode e ++ b).drop 14 = encodeTags e tags ++ b := by
    rw [Link.encode, List.append_assoc]
    exact List.drop_left' (by simp)
  have hlen : 14 ≤ ((Link.ethernet dst src tags).encode e ++ b).length := by
    simp [Link.encode]
    omega
  rw [LinkPayload, if_pos (show (1 : ℤ) = dltEn10mb from rfl), htype, hdrop]
  exact and_iff_right hlen

theorem linkPayload_fixed (header b : Bytes) {dlt : ℤ} (hdlt : dlt ≠ dltEn10mb)
    (hheader : linkHeader dlt = some header.length) : LinkPayload (header ++ b) dlt b := by
  rw [LinkPayload, if_neg hdlt]
  refine ⟨header.length, hheader, ?_, List.drop_left.symm⟩
  rw [List.length_append]
  omega

/-- **Behind a header that passes, the packet is found.** -/
theorem linkPayload_of_passes {link : Link} (h : link.Passes) {e : ℕ} (he : IpEthertype e) (b : Bytes) :
    LinkPayload (link.encode e ++ b) link.dlt b := by
  cases link with
  | ethernet dst src tags =>
    have hsmall : e < 2 ^ 16 := by rcases he with rfl | rfl <;> omega
    refine (linkPayload_ethernet_iff dst src tags e hsmall b b).mpr ?_
    apply vlanLeads_of_tagsPass
    cases tags with
    | nil => exact he
    | cons tci tags => exact ⟨rfl, h⟩
  | raw dlt isRaw =>
    refine linkPayload_fixed [] b ?_ ?_
    · rcases isRaw with rfl | rfl | rfl | rfl <;> decide
    · rcases isRaw with rfl | rfl | rfl | rfl <;> rfl
  | null family =>
    exact linkPayload_fixed (toBe 4 family.toNat) b (show (0 : ℤ) ≠ 1 by decide)
      (congrArg some (length_toBe 4 _).symm)
  | linuxSll header =>
    exact linkPayload_fixed (toBe 16 header.toNat) b (show (113 : ℤ) ≠ 1 by decide)
      (congrArg some (length_toBe 16 _).symm)
  | linuxSll2 header =>
    exact linkPayload_fixed (toBe 20 header.toNat) b (show (276 : ℤ) ≠ 1 by decide)
      (congrArg some (length_toBe 20 _).symm)

/-! ### Other headers -/

/-- A SYN, as the parser would have to find it behind any header. -/
def synPacket : Packet := .v4 {
  tos := 0, identification := 0, dontFragment := false, ttl := 64, checksum := 0
  src := 0x0a000001, dst := 0x0a000002, options := ⟨[], rfl, Nat.zero_le _⟩
  tcp := {
    srcPort := 40001, dstPort := 5432, seq := 7, ack := 0, reserved := 0, others := 0
    rst := false, syn := true, fin := false, window := 0, checksum := 0, urgent := 0
    options := ⟨[], rfl, Nat.zero_le _⟩, payload := [] }
  fits := by decide }

/-- Tags that do not pass lead nowhere, or to a place in front of another tag. -/
theorem vlanLeads_not_pass {x : ℕ} {tags : List (BitVec 16)} (h : ¬TagsPass x tags) {e : ℕ} {ip : Bytes}
    (he : IpEthertype e)
    (hleads : VlanLeads (x, encodeTags 0x0800 tags ++ synPacket.encode) (e, ip)) :
    ∃ tci tags', ip = encodeTags 0x0800 (tci :: tags') ++ synPacket.encode := by
  induction tags generalizing x with
  | nil =>
    rcases hleads.cases_head with hsame | ⟨s, ⟨_, _, rfl⟩, hrest⟩
    · obtain ⟨rfl, _⟩ := Prod.mk.inj hsame
      exact absurd he h
    · -- the first bytes of the packet are taken for a type field
      have hversion : numberAt (encodeTags 0x0800 [] ++ synPacket.encode) 0 2 = 0x4500 := rfl
      rw [hversion] at hrest
      rcases hrest.cases_head with hsame | ⟨s, ⟨hvlan, _⟩, _⟩
      · obtain ⟨rfl, _⟩ := Prod.mk.inj hsame
        rcases he with he | he <;> omega
      · exact absurd hvlan (show (0x4500 : ℕ) ≠ 0x8100 by decide)
  | cons tci tags ih =>
    rcases hleads.cases_head with hsame | ⟨s, ⟨hvlan, hlen, rfl⟩, hrest⟩
    · exact ⟨tci, tags, (Prod.mk.inj hsame).2.symm⟩
    · replace hvlan : x = 0x8100 := hvlan
      subst hvlan
      obtain ⟨_, _, hstep⟩ := vlanStep_encode 0x0800 tci tags synPacket.encode
      rw [← hstep] at hrest
      exact ih (fun hpass => h ⟨rfl, hpass⟩) hrest

/-- The source address of a parsed packet. -/
theorem parseIp_src {b : Bytes} {seg : TcpSegment} (h : parseIp b = .ok seg) :
    seg.src = ipv4Address b 12 ∨ seg.src = ipv6Address b 8 := by
  have htcp : ∀ {l4 src dst}, parseTcp l4 src dst = .ok seg → seg.src = src := by
    intro l4 src dst hseg
    rw [parseTcp_eq] at hseg
    split at hseg
    · rw [← Except.ok.inj hseg]
      rfl
    · cases hseg
  rw [parseIp_eq] at h
  split at h
  · cases h
  · split at h
    · rw [parseIpv4_eq] at h
      split at h
      · exact .inl (htcp h)
      · cases h
    · split at h
      · rcases parseIpv6_cases b with ⟨off, _, hparse⟩ | ⟨_, hparse⟩
        · rw [hparse] at h
          exact .inr (htcp h)
        · rw [hparse] at h
          cases h
      · cases h

/-- A tag is four bytes. -/
theorem numberAt_tags (e : ℕ) (tci : BitVec 16) (tags : List (BitVec 16)) (b : Bytes) (i w : ℕ) :
    numberAt (encodeTags e (tci :: tags) ++ b) (4 + i) w = numberAt (encodeTags e tags ++ b) i w := by
  rw [encodeTags, List.append_assoc, numberAt_skip (by simp)]

/-- What stands where the source address of an IPv4 packet would, in front of a tag. -/
theorem source_tags (tci : BitVec 16) (tags : List (BitVec 16)) :
    numberAt (encodeTags 0x0800 (tci :: tags) ++ synPacket.encode) 12 4 % 2 ^ 32 ≠ 0x0a000001 := by
  match tags with
  | [] =>
    rw [numberAt_tags _ _ _ _ 8]
    decide
  | [_] =>
    rw [numberAt_tags _ _ _ _ 8, numberAt_tags _ _ _ _ 4]
    decide
  | [_, _] =>
    rw [numberAt_tags _ _ _ _ 8, numberAt_tags _ _ _ _ 4, numberAt_tags _ _ _ _ 0]
    decide
  | _ :: _ :: t :: more =>
    -- the last byte is that of a type field
    obtain ⟨x, hlast⟩ : ∃ x, toBe 2 (typeField 0x0800 more) = [x] ++ [0] := by
      cases more with
      | nil => exact ⟨0x08, by decide⟩
      | cons _ _ => exact ⟨0x81, show toBe 2 0x8100 = [0x81] ++ [0] by decide⟩
    have hread : numberAt (encodeTags 0x0800 (t :: more) ++ synPacket.encode) 0 4
        = ofBe (toBe 2 t.toNat ++ toBe 2 (typeField 0x0800 more)) := by
      rw [encodeTags, List.append_assoc, numberAt, Nat.zero_add, List.take_left' (by simp), List.drop_zero]
    rw [numberAt_tags _ _ _ _ 8, numberAt_tags _ _ _ _ 4, numberAt_tags _ _ _ _ 0, hread, hlast,
      ← List.append_assoc, ofBe_append_singleton]
    show (ofBe (toBe 2 t.toNat ++ [x]) * 256 + 0) % 2 ^ 32 ≠ 0x0a000001
    omega

/-- The SYN is not what is read in front of a tag: its source address stands elsewhere. -/
theorem parseIp_tags (tci : BitVec 16) (tags : List (BitVec 16)) :
    parseIp (encodeTags 0x0800 (tci :: tags) ++ synPacket.encode) ≠ .ok synPacket.segment := by
  intro hparse
  have hsyn : synPacket.segment.src = .v4 0x0a000001 := rfl
  rcases parseIp_src hparse with hsrc | hsrc
  · rw [hsyn, ipv4Address] at hsrc
    have hbits := congrArg BitVec.toNat (IpAddr.v4.inj hsrc)
    rw [BitVec.toNat_ofNat] at hbits
    exact source_tags tci tags hbits.symm
  · rw [hsyn, ipv6Address] at hsrc
    cases hsrc

/-- **The headers behind which every packet is recovered.** -/
theorem frames_recovered_iff (link : Link) :
    (∀ packet padding,
      parseFrame (Frame.encode ⟨link, packet, padding⟩) link.dlt = .ok packet.segment) ↔ link.Passes := by
  constructor
  · intro hall
    have hsyn := hall synPacket []
    cases link with
    | ethernet dst src tags =>
      cases tags with
      | nil => trivial
      | cons tci tags =>
        by_contra hnot
        rw [Frame.encode, List.append_nil] at hsyn
        obtain ⟨ip, hip, hparse⟩ := parseFrame_ok hsyn
        obtain ⟨e, he, hleads⟩ :=
          (linkPayload_ethernet_iff dst src (tci :: tags) 0x0800 (by decide) synPacket.encode ip).mp hip
        obtain ⟨tci', tags', rfl⟩ := vlanLeads_not_pass (fun hpass : TagsPass 0x8100 (tci :: tags) =>
          hnot hpass.2) he hleads
        exact parseIp_tags tci' tags' hparse
    | _ => trivial
  · intro hpasses packet padding
    rw [Frame.encode, parseFrame_of_payload (linkPayload_of_passes hpasses packet.ethertype_ip _)]
    exact parseIp_encode packet padding

/-- **A frame of VLAN 1 is dropped**: its control information is no IP type. -/
theorem vlan_frame_dropped :
    parseFrame (Frame.encode ⟨.ethernet 0xa 0xb [1], synPacket, []⟩) 1 = .error .none ∧
      parseFrame (Frame.encode ⟨.ethernet 0xa 0xb [1], synPacket, []⟩) 1 ≠ .ok synPacket.segment := by
  have hnone : parseFrame (Frame.encode ⟨.ethernet 0xa 0xb [1], synPacket, []⟩) 1 = .error .none := by
    decide +kernel
  refine ⟨hnone, ?_⟩
  rw [hnone]
  exact nofun

end Tapgres.Net.Wire
