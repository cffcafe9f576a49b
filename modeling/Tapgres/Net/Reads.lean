import Tapgres.Net.Frame

/-!
# What the frame parser reads

Each function of the parser, with its checks and slices carried out: what it requires of the bytes, and
what it returns then.

* `ReadsAsTcp`, `segmentOf` — a TCP header (`parseTcp_eq`);
* `TcpInIpv4` — an IPv4 header in front of one (`parseIpv4_eq`);
* `Leads` — the extension headers of an IPv6 packet, step by step (`parseIpv6_cases`);
* `VlanLeads` — the VLAN tags of an Ethernet frame (`stripLink_ethernet`);
* `parseFrame_returns` — no index or slice is out of range, and every loop ends.
-/

namespace Tapgres.Net

open Tapgres.Lib.BigEndian Tapgres.Lib.Loop Tapgres.Lib.Slice

/-! ### Reading in range -/

/-- The byte at `i`, where there is one. -/
def at0 (b : Bytes) (i : ℕ) : UInt8 := b.getD i 0

/-- The number in the `n` bytes from `i` on. -/
def numberAt (b : Bytes) (i n : ℕ) : ℕ := ofBe ((b.take (i + n)).drop i)

theorem byteAt_eq {b : Bytes} {i : ℕ} (h : i < b.length) : byteAt b i = .ok (at0 b i) := by
  rw [byteAt, at0, List.getD_eq_getElem?_getD, List.getElem?_eq_getElem h]
  rfl

theorem bytesBetween_eq {b : Bytes} {i j : ℕ} (hij : i ≤ j) (hj : j ≤ b.length) :
    bytesBetween b i j = .ok ((b.take j).drop i) := by
  rw [bytesBetween, slice_eq hij hj]
  rfl

theorem bytesFrom_eq {b : Bytes} {i : ℕ} (h : i ≤ b.length) : bytesFrom b i = .ok (b.drop i) := by
  rw [bytesFrom, sliceFrom_eq h]
  rfl

theorem readBe_eq {b : Bytes} {i n : ℕ} (h : i + n ≤ b.length) : readBe b i n = .ok (numberAt b i n) := by
  rw [readBe, bytesBetween_eq (Nat.le_add_right i n) h]
  rfl

/-! ### TCP -/

def tcpDataOffset (l4 : Bytes) : ℕ := (at0 l4 12 >>> 4).toNat * 4

/-- The bytes pass for a TCP header: twenty of them, and a data offset that lies behind these and within
what is there. -/
def ReadsAsTcp (l4 : Bytes) : Prop :=
  20 ≤ l4.length ∧ 20 ≤ tcpDataOffset l4 ∧ tcpDataOffset l4 ≤ l4.length

instance (l4 : Bytes) : Decidable (ReadsAsTcp l4) := inferInstanceAs (Decidable (_ ∧ _ ∧ _))

/-- The segment behind such a header. -/
def segmentOf (l4 : Bytes) (src dst : IpAddr) : TcpSegment where
  src := src
  dst := dst
  srcPort := UInt16.ofNat (numberAt l4 0 2)
  dstPort := UInt16.ofNat (numberAt l4 2 2)
  seq := BitVec.ofNat 32 (numberAt l4 4 4)
  ack := BitVec.ofNat 32 (numberAt l4 8 4)
  syn := at0 l4 13 &&& 0x02 != 0
  fin := at0 l4 13 &&& 0x01 != 0
  rst := at0 l4 13 &&& 0x04 != 0
  payload := l4.drop (tcpDataOffset l4)

theorem parseTcp_eq (l4 : Bytes) (src dst : IpAddr) :
    parseTcp l4 src dst = if ReadsAsTcp l4 then .ok (segmentOf l4 src dst) else .error .none := by
  rw [parseTcp]
  by_cases hlen : l4.length < 20
  · rw [if_pos hlen, if_neg fun h : ReadsAsTcp l4 => by have := h.1; omega]
  · rw [if_neg hlen, readBe_eq (by omega), readBe_eq (by omega), readBe_eq (by omega),
      readBe_eq (by omega), byteAt_eq (by omega), byteAt_eq (by omega)]
    show (if tcpDataOffset l4 < 20 ∨ l4.length < tcpDataOffset l4 then _ else _) = _
    by_cases hoff : tcpDataOffset l4 < 20 ∨ l4.length < tcpDataOffset l4
    · rw [if_pos hoff, if_neg fun h : ReadsAsTcp l4 => by obtain ⟨_, h1, h2⟩ := h; omega]
    · rw [if_neg hoff, if_pos (show ReadsAsTcp l4 from ⟨by omega, by omega, by omega⟩)]
      by_cases hmore : tcpDataOffset l4 < l4.length
      · have hslice : bytesFrom l4 (tcpDataOffset l4) = .ok (l4.drop (tcpDataOffset l4)) :=
          bytesFrom_eq (by omega)
        rw [tcpDataOffset] at hslice hmore
        simp only [gt_iff_lt, if_pos hmore, hslice]
        rfl
      · have hnone : l4.drop (tcpDataOffset l4) = [] := List.drop_eq_nil_of_le (by omega)
        rw [segmentOf, hnone]
        rw [tcpDataOffset] at hmore
        simp only [gt_iff_lt, if_neg hmore]
        rfl

/-! ### IPv4 -/

def ipv4HeaderLen (b : Bytes) : ℕ := (at0 b 0 &&& 0x0f).toNat * 4

/-- Where the packet ends: at its declared length, or where the capture does. -/
def ipv4End (b : Bytes) : ℕ := min (numberAt b 2 2) b.length

/-- A whole IPv4 header of a packet that names TCP as its protocol. -/
def TcpInIpv4 (b : Bytes) : Prop :=
  20 ≤ b.length ∧ 20 ≤ ipv4HeaderLen b ∧ ipv4HeaderLen b ≤ ipv4End b ∧ at0 b 9 = 6

instance (b : Bytes) : Decidable (TcpInIpv4 b) := inferInstanceAs (Decidable (_ ∧ _ ∧ _ ∧ _))

/-- What the packet carries. -/
def ipv4Body (b : Bytes) : Bytes := (b.take (ipv4End b)).drop (ipv4HeaderLen b)

def ipv4Address (b : Bytes) (i : ℕ) : IpAddr := .v4 (BitVec.ofNat 32 (numberAt b i 4))

theorem parseIpv4_eq (b : Bytes) :
    parseIpv4 b = if TcpInIpv4 b then parseTcp (ipv4Body b) (ipv4Address b 12) (ipv4Address b 16)
      else .error .none := by
  rw [parseIpv4]
  by_cases hlen : b.length < 20
  · rw [if_pos hlen, if_neg fun h : TcpInIpv4 b => by have := h.1; omega]
  · rw [if_neg hlen, byteAt_eq (by omega), byteAt_eq (by omega), readBe_eq (by omega), readBe_eq (by omega),
      readBe_eq (by omega)]
    show (if ipv4HeaderLen b < 20 ∨ b.length < ipv4HeaderLen b then _ else
      if at0 b 9 ≠ 6 then _ else if ipv4End b < ipv4HeaderLen b then _ else _) = _
    have hend : ipv4End b ≤ b.length := Nat.min_le_right _ _
    by_cases hihl : ipv4HeaderLen b < 20 ∨ b.length < ipv4HeaderLen b
    · rw [if_pos hihl, if_neg fun h : TcpInIpv4 b => by obtain ⟨_, h1, h2, _⟩ := h; omega]
    · rw [if_neg hihl]
      by_cases hproto : at0 b 9 = 6
      · rw [if_neg (not_not.mpr hproto)]
        by_cases hshort : ipv4End b < ipv4HeaderLen b
        · rw [if_pos hshort, if_neg fun h : TcpInIpv4 b => by obtain ⟨_, _, h2, _⟩ := h; omega]
        · have hslice : bytesBetween b (ipv4HeaderLen b) (ipv4End b) = .ok (ipv4Body b) :=
            bytesBetween_eq (by omega) hend
          rw [ipv4HeaderLen, ipv4End] at hslice
          rw [if_neg hshort, if_pos (show TcpInIpv4 b from ⟨by omega, by omega, by omega, hproto⟩)]
          simp only [hslice]
          rfl
      · rw [if_pos hproto, if_neg fun h : TcpInIpv4 b => hproto h.2.2.2]

/-! ### The extension headers of IPv6 -/

/-- The length of the extension header `s.1` at `s.2`. -/
def extensionLength (b : Bytes) (s : UInt8 × ℕ) : ℕ :=
  if s.1 = 44 then 8
  else if s.1 = 51 then ((at0 b (s.2 + 1)).toNat + 2) * 4
  else ((at0 b (s.2 + 1)).toNat + 1) * 8

/-- `s` is an extension header within the first `bodyEnd` bytes, and names `s'` as the next header. -/
structure ExtensionStep (b : Bytes) (bodyEnd : ℕ) (s s' : UInt8 × ℕ) : Prop where
  extension : isExtensionHeader s.1 = true
  here : s.2 + 8 ≤ bodyEnd
  next : s' = (at0 b s.2, s.2 + extensionLength b s)
  within : s'.2 ≤ bodyEnd

/-- From the header `s.1` at `s.2`, the chain of extension headers leads to `s'.1` at `s'.2`. -/
def Leads (b : Bytes) (bodyEnd : ℕ) : UInt8 × ℕ → UInt8 × ℕ → Prop :=
  Relation.ReflTransGen (ExtensionStep b bodyEnd)

theorem at0_slice {b : Bytes} {i j k : ℕ} (h : i + k < j) : at0 ((b.take j).drop i) k = at0 b (i + k) := by
  simp [at0, List.getD_eq_getElem?_getD, List.getElem?_drop, h]

theorem extensionHeaderLen_eq {b : Bytes} {bodyEnd : ℕ} {s : UInt8 × ℕ} (hs : s.2 + 8 ≤ bodyEnd)
    (hb : bodyEnd ≤ b.length) :
    extensionHeaderLen s.1 ((b.take bodyEnd).drop s.2) = .ok (extensionLength b s) := by
  have hlen : ((b.take bodyEnd).drop s.2).length = bodyEnd - s.2 := by
    rw [List.length_drop, List.length_take, Nat.min_eq_left hb]
  have hbyte : byteAt ((b.take bodyEnd).drop s.2) 1 = .ok (at0 b (s.2 + 1)) := by
    rw [byteAt_eq (by omega), at0_slice (by omega)]
  have hnot : ¬((b.take bodyEnd).drop s.2).length < 2 := by omega
  simp only [extensionHeaderLen, extensionLength, hbyte, if_neg hnot]
  split
  · rfl
  · split <;> rfl

/-- **One turn of the walk.** -/
theorem skipExtension_eq {b : Bytes} {bodyEnd : ℕ} {s : UInt8 × ℕ} (hs : s.2 + 8 ≤ bodyEnd)
    (hb : bodyEnd ≤ b.length) :
    skipExtension b bodyEnd s
      = if bodyEnd < s.2 + extensionLength b s then .error .none
        else .ok (at0 b s.2, s.2 + extensionLength b s) := by
  rw [skipExtension, byteAt_eq (by omega), bytesBetween_eq (by omega) hb]
  show (do let extLen ← extensionHeaderLen s.1 ((b.take bodyEnd).drop s.2); _) = _
  rw [extensionHeaderLen_eq hs hb]
  rfl

theorem whileStep_extension_iff {b : Bytes} {bodyEnd : ℕ} (hb : bodyEnd ≤ b.length) {s s' : UInt8 × ℕ} :
    WhileStep (atExtension bodyEnd) (skipExtension b bodyEnd) s s' ↔ ExtensionStep b bodyEnd s s' := by
  constructor
  · rintro ⟨hcond, hbody⟩
    obtain ⟨hext, hhere⟩ := Bool.and_eq_true_iff.mp hcond
    replace hhere : s.2 + 8 ≤ bodyEnd := of_decide_eq_true hhere
    rw [skipExtension_eq hhere hb] at hbody
    split at hbody
    · cases hbody
    · rename_i hover
      obtain rfl := Except.ok.inj hbody
      exact ⟨hext, hhere, rfl, by omega⟩
  · rintro ⟨hext, hhere, rfl, hwithin⟩
    refine ⟨Bool.and_eq_true_iff.mpr ⟨hext, decide_eq_true hhere⟩, ?_⟩
    rw [skipExtension_eq hhere hb, if_neg (by omega)]

/-- A `while` loop with a falling measure that starts below its fuel is left. -/
theorem whileLoop_ends {σ : Type} {cond : σ → Bool} {body : σ → Parsed σ} (μ : σ → ℕ)
    (hround : ∀ s s', WhileStep cond body s s' → μ s' < μ s) {fuel : ℕ} {s : σ} (hfuel : μ s < fuel) :
    Ends (whileTurn cond body) s (whileLoop cond body fuel s) := by
  obtain ⟨r, hr⟩ := whileTurn_ends μ hround hfuel
  rw [whileLoop, hr]
  exact ⟨fuel, hr⟩

theorem extension_loop_ends {b : Bytes} {bodyEnd : ℕ} (hb : bodyEnd ≤ b.length) (s : UInt8 × ℕ) :
    Ends (whileTurn (atExtension bodyEnd) (skipExtension b bodyEnd)) s
      (whileLoop (atExtension bodyEnd) (skipExtension b bodyEnd) (b.length + 1) s) := by
  refine whileLoop_ends (fun s => bodyEnd - s.2) ?_ (by omega)
  intro s s' hstep
  obtain ⟨_, hhere, rfl, hwithin⟩ := (whileStep_extension_iff hb).mp hstep
  have hpos : 0 < extensionLength b s := by
    rw [extensionLength]
    split
    · omega
    · split <;> omega
  show bodyEnd - (s.2 + extensionLength b s) < bodyEnd - s.2
  omega

theorem leads_iff {b : Bytes} {bodyEnd : ℕ} (hb : bodyEnd ≤ b.length) {s s' : UInt8 × ℕ} :
    Leads b bodyEnd s s' ↔
      Relation.ReflTransGen (WhileStep (atExtension bodyEnd) (skipExtension b bodyEnd)) s s' := by
  have hsame : ExtensionStep b bodyEnd = WhileStep (atExtension bodyEnd) (skipExtension b bodyEnd) := by
    funext s s'
    exact propext (whileStep_extension_iff hb).symm
  rw [Leads, hsame]

/-- A chain stays within the packet. -/
theorem Leads.within {b : Bytes} {bodyEnd : ℕ} {s s' : UInt8 × ℕ} (h : Leads b bodyEnd s s')
    (hs : s.2 ≤ bodyEnd) : s'.2 ≤ bodyEnd := by
  induction h with
  | refl => exact hs
  | tail _ hstep _ => exact hstep.within

/-- The protocol number of TCP is not that of an extension header. -/
theorem not_atExtension {nh : UInt8} (hnh : nh = 6) (bodyEnd off : ℕ) :
    atExtension bodyEnd (nh, off) = false := by
  rw [hnh]
  rfl

/-- **The walk over the extension headers** either leads to TCP, or the loop stops elsewhere. -/
theorem extension_loop_cases {b : Bytes} {bodyEnd : ℕ} (hb : bodyEnd ≤ b.length) (s : UInt8 × ℕ) :
    (∃ off, Leads b bodyEnd s (6, off) ∧
        whileLoop (atExtension bodyEnd) (skipExtension b bodyEnd) (b.length + 1) s = .ok (6, off)) ∨
      ((¬∃ off, Leads b bodyEnd s (6, off)) ∧
        ((∃ s', s'.1 ≠ 6 ∧
          whileLoop (atExtension bodyEnd) (skipExtension b bodyEnd) (b.length + 1) s = .ok s') ∨
          whileLoop (atExtension bodyEnd) (skipExtension b bodyEnd) (b.length + 1) s = .error .none)) := by
  have hends := extension_loop_ends hb s
  by_cases htcp : ∃ off, Leads b bodyEnd s (6, off)
  · left
    obtain ⟨off, hleads⟩ := htcp
    have hthere := Ends.of_whileSteps ((leads_iff hb).mp hleads) (not_atExtension rfl bodyEnd off)
    exact ⟨off, hleads, hends.unique hthere⟩
  · right
    refine ⟨htcp, ?_⟩
    obtain ⟨s', hsteps, hexit⟩ := whileTurn_cases hends
    have hleads := (leads_iff hb).mpr hsteps
    rcases hexit with ⟨_, hr⟩ | ⟨hcond, e, hbody, hr⟩
    · left
      refine ⟨s', fun hsix => htcp ⟨s'.2, ?_⟩, hr⟩
      rw [← hsix]
      exact hleads
    · right
      obtain ⟨_, hhere⟩ := Bool.and_eq_true_iff.mp hcond
      rw [skipExtension_eq (of_decide_eq_true hhere) hb] at hbody
      split at hbody
      · rw [hr, ← Except.error.inj hbody]
      · cases hbody

/-! ### IPv6 -/

def ipv6End (b : Bytes) : ℕ := min (40 + numberAt b 4 2) b.length

/-- What an IPv6 packet carries behind the headers that end at `off`. -/
def ipv6Body (b : Bytes) (off : ℕ) : Bytes := (b.take (ipv6End b)).drop off

def ipv6Address (b : Bytes) (i : ℕ) : IpAddr := .v6 (BitVec.ofNat 128 (numberAt b i 16))

/-- The extension headers of the packet lead to a TCP header at `off`. -/
def TcpInIpv6 (b : Bytes) (off : ℕ) : Prop := 40 ≤ b.length ∧ Leads b (ipv6End b) (at0 b 6, 40) (6, off)

theorem parseIpv6_cases (b : Bytes) :
    (∃ off, TcpInIpv6 b off ∧
        parseIpv6 b = parseTcp (ipv6Body b off) (ipv6Address b 8) (ipv6Address b 24)) ∨
      ((¬∃ off, TcpInIpv6 b off) ∧ parseIpv6 b = .error .none) := by
  by_cases hlen : b.length < 40
  · right
    refine ⟨fun ⟨off, hlong, _⟩ => by omega, ?_⟩
    rw [parseIpv6, if_pos hlen]
  · have hend : ipv6End b ≤ b.length := Nat.min_le_right _ _
    have hparse : parseIpv6 b =
        (do let s ← whileLoop (atExtension (ipv6End b)) (skipExtension b (ipv6End b)) (b.length + 1) (at0 b 6, 40)
            if s.1 ≠ 6 then .error .none
            else parseTcp (← bytesBetween b s.2 (ipv6End b)) (ipv6Address b 8) (ipv6Address b 24)) := by
      rw [parseIpv6, if_neg hlen, readBe_eq (by omega), byteAt_eq (by omega), readBe_eq (by omega),
        readBe_eq (by omega)]
      rfl
    rcases extension_loop_cases hend (at0 b 6, 40) with ⟨off, hleads, hloop⟩ | ⟨hnot, hloop⟩
    · left
      have hwithin : off ≤ ipv6End b := hleads.within (show 40 ≤ min (40 + numberAt b 4 2) b.length by omega)
      refine ⟨off, ⟨by omega, hleads⟩, ?_⟩
      rw [hparse, hloop]
      show (do let l4 ← bytesBetween b off (ipv6End b); parseTcp l4 _ _) = _
      rw [bytesBetween_eq hwithin hend]
      rfl
    · right
      refine ⟨fun ⟨off, _, hleads⟩ => hnot ⟨off, hleads⟩, ?_⟩
      rw [hparse]
      rcases hloop with ⟨s', hsix, hloop⟩ | hloop
      · rw [hloop]
        show (if s'.1 ≠ 6 then _ else _) = _
        rw [if_pos hsix]
      · rw [hloop]
        rfl

/-- The chain stops at one TCP header. -/
theorem TcpInIpv6.unique {b : Bytes} {off off' : ℕ} (h : TcpInIpv6 b off) (h' : TcpInIpv6 b off') :
    off = off' := by
  have hend : ipv6End b ≤ b.length := Nat.min_le_right _ _
  have hhere := Ends.of_whileSteps ((leads_iff hend).mp h.2) (not_atExtension rfl _ off)
  have hthere := Ends.of_whileSteps ((leads_iff hend).mp h'.2) (not_atExtension rfl _ off')
  exact (Prod.mk.inj (Except.ok.inj (hhere.unique hthere))).2

theorem parseIpv6_eq {b : Bytes} {off : ℕ} (h : TcpInIpv6 b off) :
    parseIpv6 b = parseTcp (ipv6Body b off) (ipv6Address b 8) (ipv6Address b 24) := by
  rcases parseIpv6_cases b with ⟨off', htcp, hparse⟩ | ⟨hnot, _⟩
  · rw [hparse, h.unique htcp]
  · exact absurd ⟨off, h⟩ hnot

/-- **An IP packet**: what its version leads to. -/
theorem parseIp_eq (b : Bytes) :
    parseIp b = if b = [] then .error .none
      else if at0 b 0 >>> 4 = 4 then parseIpv4 b
      else if at0 b 0 >>> 4 = 6 then parseIpv6 b
      else .error .none := by
  rw [parseIp]
  by_cases hb : b = []
  · rw [hb]
    rfl
  · have hpos : 0 < b.length := List.length_pos_iff.mpr hb
    have hempty : ¬b.isEmpty = true := by simpa using hb
    rw [if_neg hempty, if_neg hb, byteAt_eq hpos]
    rfl

/-! ### The link layer -/

/-- `s` starts with a VLAN tag, and `s'` is what stands behind it. -/
def VlanStep (s s' : ℕ × Bytes) : Prop :=
  s.1 = 0x8100 ∧ 4 ≤ s.2.length ∧ s' = (numberAt s.2 0 2, s.2.drop 4)

/-- Skipping VLAN tags leads from the ethertype and payload `s` to `s'`. -/
def VlanLeads : ℕ × Bytes → ℕ × Bytes → Prop := Relation.ReflTransGen VlanStep

theorem skipVlanTag_eq {s : ℕ × Bytes} (h : 4 ≤ s.2.length) :
    skipVlanTag s = .ok (numberAt s.2 0 2, s.2.drop 4) := by
  rw [skipVlanTag, readBe_eq (by omega), bytesFrom_eq h]
  rfl

theorem vlanTagged_iff {s : ℕ × Bytes} : vlanTagged s = true ↔ s.1 = 0x8100 ∧ 4 ≤ s.2.length := by
  rw [vlanTagged, Bool.and_eq_true_iff, beq_iff_eq, decide_eq_true_iff]

theorem whileStep_vlan_iff {s s' : ℕ × Bytes} : WhileStep vlanTagged skipVlanTag s s' ↔ VlanStep s s' := by
  rw [WhileStep, VlanStep, vlanTagged_iff, and_assoc]
  refine and_congr_right fun _ => and_congr_right fun hlen => ?_
  rw [skipVlanTag_eq hlen]
  exact ⟨fun h => (Except.ok.inj h).symm, fun h => congrArg Except.ok h.symm⟩

theorem vlanLeads_iff {s s' : ℕ × Bytes} :
    VlanLeads s s' ↔ Relation.ReflTransGen (WhileStep vlanTagged skipVlanTag) s s' := by
  have hsame : VlanStep = WhileStep vlanTagged skipVlanTag := by
    funext s s'
    exact propext whileStep_vlan_iff.symm
  rw [VlanLeads, hsame]

theorem vlan_loop_ends {s : ℕ × Bytes} {fuel : ℕ} (hfuel : s.2.length < fuel) :
    Ends (whileTurn vlanTagged skipVlanTag) s (whileLoop vlanTagged skipVlanTag fuel s) := by
  refine whileLoop_ends (fun s => s.2.length) ?_ hfuel
  intro s s' hstep
  obtain ⟨_, hlen, rfl⟩ := whileStep_vlan_iff.mp hstep
  show (s.2.drop 4).length < s.2.length
  rw [List.length_drop]
  omega

/-- The loop over the tags is left with what they lead to, where no further tag stands. -/
theorem vlan_loop_ok {s : ℕ × Bytes} {fuel : ℕ} (hfuel : s.2.length < fuel) :
    ∃ s', VlanLeads s s' ∧ whileLoop vlanTagged skipVlanTag fuel s = .ok s' := by
  obtain ⟨s', hsteps, hexit⟩ := whileTurn_cases (vlan_loop_ends hfuel)
  rcases hexit with ⟨_, hr⟩ | ⟨hcond, e, hbody, _⟩
  · exact ⟨s', vlanLeads_iff.mpr hsteps, hr⟩
  · rw [skipVlanTag_eq (vlanTagged_iff.mp hcond).2] at hbody
    cases hbody

/-- An ethertype the parser goes on with. -/
def IpEthertype (e : ℕ) : Prop := e = 0x0800 ∨ e = 0x86dd

theorem IpEthertype.not_tagged {e : ℕ} (h : IpEthertype e) (p : Bytes) : vlanTagged (e, p) = false := by
  rw [Bool.eq_false_iff]
  intro htag
  have hvlan : e = 0x8100 := (vlanTagged_iff.mp htag).1
  rcases h with h | h <;> omega

/-- The header in front of the packet, where that has a fixed length. -/
def linkHeader (dlt : ℤ) : Option ℕ :=
  if dlt = dltRaw ∨ dlt = dltRawOld ∨ dlt = dltIpv4 ∨ dlt = dltIpv6 then some 0
  else if dlt = dltNull then some 4
  else if dlt = dltLinuxSll then some 16
  else if dlt = dltLinuxSll2 then some 20
  else none

/-- The frame holds `ip` behind its link-layer header. -/
def LinkPayload (data : Bytes) (dlt : ℤ) (ip : Bytes) : Prop :=
  if dlt = dltEn10mb then
    14 ≤ data.length ∧ ∃ e, IpEthertype e ∧ VlanLeads (numberAt data 12 2, data.drop 14) (e, ip)
  else ∃ n, linkHeader dlt = some n ∧ n ≤ data.length ∧ ip = data.drop n

theorem stripLink_fixed (data : Bytes) {dlt : ℤ} (hdlt : dlt ≠ dltEn10mb) :
    stripLink data dlt = match linkHeader dlt with
      | some n => if data.length < n then .error .none else .ok (data.drop n)
      | none => .error .none := by
  have hskip : ∀ n, (if data.length < n then .error .none else bytesFrom data n)
      = (if data.length < n then .error .none else .ok (data.drop n) : Parsed Bytes) := by
    intro n
    split
    · rfl
    · rw [bytesFrom_eq (by omega)]
  rw [stripLink, if_neg hdlt, linkHeader, hskip, hskip, hskip]
  split
  · show _ = if data.length < 0 then Except.error Halt.none else .ok (data.drop 0)
    rw [if_neg (by omega), List.drop_zero]
  · split
    · rfl
    · split
      · rfl
      · split <;> rfl

theorem stripLink_cases (data : Bytes) (dlt : ℤ) :
    (∃ ip, LinkPayload data dlt ip ∧ stripLink data dlt = .ok ip) ∨
      ((¬∃ ip, LinkPayload data dlt ip) ∧ stripLink data dlt = .error .none) := by
  by_cases hdlt : dlt = dltEn10mb
  · simp only [LinkPayload, if_pos hdlt]
    by_cases hlen : data.length < 14
    · right
      refine ⟨fun ⟨_, hlong, _⟩ => by omega, ?_⟩
      rw [stripLink, if_pos hdlt, if_pos hlen]
    · have hpayload : (data.drop 14).length < data.length + 1 := by
        rw [List.length_drop]
        omega
      obtain ⟨⟨e, ip⟩, hleads, hloop⟩ := vlan_loop_ok (s := (numberAt data 12 2, data.drop 14)) hpayload
      have hstrip : stripLink data dlt = if e = 0x0800 ∨ e = 0x86dd then .ok ip else .error .none := by
        rw [stripLink, if_pos hdlt, if_neg hlen, readBe_eq (by omega), bytesFrom_eq (by omega)]
        show (do let s ← whileLoop vlanTagged skipVlanTag (data.length + 1)
                  (numberAt data 12 2, data.drop 14); _) = _
        rw [hloop]
        rfl
      by_cases htype : IpEthertype e
      · left
        refine ⟨ip, ⟨by omega, e, htype, hleads⟩, ?_⟩
        rw [hstrip]
        exact if_pos htype
      · right
        constructor
        · rintro ⟨ip', _, e', htype', hleads'⟩
          -- the loop cannot stop at two places
          have hthere := Ends.of_whileSteps (vlanLeads_iff.mp hleads') (htype'.not_tagged ip')
          have hsame := (vlan_loop_ends hpayload).unique hthere
          rw [hloop] at hsame
          exact htype ((Prod.mk.inj (Except.ok.inj hsame)).1 ▸ htype')
        · rw [hstrip]
          exact if_neg htype
  · simp only [LinkPayload, if_neg hdlt]
    rw [stripLink_fixed data hdlt]
    cases hheader : linkHeader dlt with
    | none =>
      right
      refine ⟨?_, rfl⟩
      rintro ⟨_, _, hsome, _⟩
      cases hsome
    | some n =>
      by_cases hlen : data.length < n
      · right
        refine ⟨?_, if_pos hlen⟩
        rintro ⟨_, m, hm, hle, _⟩
        obtain rfl := Option.some.inj hm
        omega
      · left
        exact ⟨data.drop n, ⟨n, rfl, by omega, rfl⟩, if_neg hlen⟩

/-- A frame holds one packet. -/
theorem LinkPayload.unique {data : Bytes} {dlt : ℤ} {ip ip' : Bytes} (h : LinkPayload data dlt ip)
    (h' : LinkPayload data dlt ip') : ip = ip' := by
  rw [LinkPayload] at h h'
  split at h
  · rename_i hdlt
    rw [if_pos hdlt] at h'
    obtain ⟨_, e, htype, hleads⟩ := h
    obtain ⟨_, e', htype', hleads'⟩ := h'
    -- the loop over the tags stops at one place
    have hhere := Ends.of_whileSteps (vlanLeads_iff.mp hleads) (htype.not_tagged ip)
    have hthere := Ends.of_whileSteps (vlanLeads_iff.mp hleads') (htype'.not_tagged ip')
    exact (Prod.mk.inj (Except.ok.inj (hhere.unique hthere))).2
  · rename_i hdlt
    rw [if_neg hdlt] at h'
    obtain ⟨n, hn, _, hip⟩ := h
    obtain ⟨m, hm, _, hip'⟩ := h'
    obtain rfl := Option.some.inj (hn.symm.trans hm)
    exact hip.trans hip'.symm

theorem stripLink_ok_iff {data : Bytes} {dlt : ℤ} {ip : Bytes} :
    stripLink data dlt = .ok ip ↔ LinkPayload data dlt ip := by
  rcases stripLink_cases data dlt with ⟨ip', hpayload, hstrip⟩ | ⟨hnot, hstrip⟩
  · rw [hstrip]
    exact ⟨fun h => Except.ok.inj h ▸ hpayload, fun h => congrArg Except.ok (hpayload.unique h)⟩
  · rw [hstrip]
    exact ⟨nofun, fun h => absurd ⟨ip, h⟩ hnot⟩

theorem parseFrame_of_payload {data b : Bytes} {dlt : ℤ} (hb : LinkPayload data dlt b) :
    parseFrame data dlt = parseIp b := by
  rw [parseFrame, stripLink_ok_iff.mpr hb]
  rfl

/-- A parsed segment is that of the packet in the frame. -/
theorem parseFrame_ok {data : Bytes} {dlt : ℤ} {seg : TcpSegment} (h : parseFrame data dlt = .ok seg) :
    ∃ ip, LinkPayload data dlt ip ∧ parseIp ip = .ok seg := by
  rcases stripLink_cases data dlt with ⟨ip, hip, _⟩ | ⟨_, hstrip⟩
  · exact ⟨ip, hip, by rw [← parseFrame_of_payload hip, h]⟩
  · rw [parseFrame, hstrip] at h
    cases h

/-! ### Safety -/

/-- The parse ends with a segment, or returns `None`. -/
def Returns {α : Type} (r : Parsed α) : Prop := r = .error .none ∨ ∃ a, r = .ok a

theorem parseTcp_returns (l4 : Bytes) (src dst : IpAddr) : Returns (parseTcp l4 src dst) := by
  rw [parseTcp_eq]
  split
  · exact .inr ⟨_, rfl⟩
  · exact .inl rfl

theorem parseIp_returns (b : Bytes) : Returns (parseIp b) := by
  rw [parseIp_eq]
  split
  · exact .inl rfl
  · split
    · rw [parseIpv4_eq]
      split
      · exact parseTcp_returns _ _ _
      · exact .inl rfl
    · split
      · rcases parseIpv6_cases b with ⟨off, _, hparse⟩ | ⟨_, hparse⟩
        · rw [hparse]
          exact parseTcp_returns _ _ _
        · exact .inl hparse
      · exact .inl rfl

theorem parseFrame_returns (data : Bytes) (dlt : ℤ) : Returns (parseFrame data dlt) := by
  rw [parseFrame]
  rcases stripLink_cases data dlt with ⟨ip, _, hstrip⟩ | ⟨_, hstrip⟩
  · rw [hstrip]
    exact parseIp_returns ip
  · rw [hstrip]
    exact .inl rfl

end Tapgres.Net
