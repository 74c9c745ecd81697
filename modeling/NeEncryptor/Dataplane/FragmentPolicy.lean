import Mathlib.Data.List.GetD
import NeEncryptor.Dataplane.Edge
import NeEncryptor.Db.Selection

/-!
# The policy of an IP fragment

`dp_parse_flow` reads the ports of a TCP or UDP packet behind its IPv4 header, whatever the fragment
offset says: for a later fragment these are bytes of the payload.
-/

namespace NeEncryptor

open Buffer FirstBest

/-- An IPv4 packet in a frame of the LAN: its Ethernet header, its IPv4 header, what it carries, and
the padding of a short frame. -/
structure Ipv4Frame where
  eth : Bytes
  header : Bytes
  payload : Bytes
  pad : Bytes
  tagged : eth.length = 14 ∧ ethReadEt eth 12 = ethPIp ∨
    eth.length = 18 ∧ ethReadEt eth 12 = ethP8021q ∧ ethReadEt eth 16 = ethPIp
  headerMin : 20 ≤ header.length
  headerLen : header.length = (header.getD 0 0).toNat % 16 * 4

namespace Ipv4Frame

variable (f : Ipv4Frame)

/-- What follows the IPv4 header in the frame. -/
def body : Bytes := f.payload ++ f.pad

def bytes : Bytes := f.eth ++ (f.header ++ f.body)

def srcIp : BitVec 32 := readBe32 f.header 12

def dstIp : BitVec 32 := readBe32 f.header 16

def proto : BitVec 8 := (f.header.getD 9 0).toBitVec

/-- The fragment offset, in bytes. -/
def fragmentOffset : ℕ := 8 * ((f.header.getD 6 0).toNat % 32 * 256 + (f.header.getD 7 0).toNat)

def moreFragments : Bool := f.header.getD 6 0 &&& 0x20 != 0

/-- The 5-tuple with the first four bytes behind the IPv4 header as ports. -/
def flow : FiveTuple :=
  ⟨f.srcIp, f.dstIp, .ofNat 16 (ethReadEt f.body 0), .ofNat 16 (ethReadEt f.body 2), f.proto⟩

end Ipv4Frame

/-- A fragment of a datagram: the addresses and the protocol are the same, and the payload is the
part of the datagram's at the fragment offset, in multiples of eight bytes up to the last one. -/
structure FragmentOf (d f : Ipv4Frame) : Prop where
  srcIp : f.srcIp = d.srcIp
  dstIp : f.dstIp = d.dstIp
  proto : f.proto = d.proto
  nonempty : 0 < f.payload.length
  inside : f.fragmentOffset + f.payload.length ≤ d.payload.length
  part : f.payload = slice d.payload f.fragmentOffset f.payload.length
  more : f.moreFragments = true ↔ f.fragmentOffset + f.payload.length < d.payload.length
  eights : f.moreFragments = true → 8 ∣ f.payload.length

instance (d f : Ipv4Frame) : Decidable (FragmentOf d f) :=
  decidable_of_iff (f.srcIp = d.srcIp ∧ f.dstIp = d.dstIp ∧ f.proto = d.proto ∧
      0 < f.payload.length ∧ f.fragmentOffset + f.payload.length ≤ d.payload.length ∧
      f.payload = slice d.payload f.fragmentOffset f.payload.length ∧
      (f.moreFragments = true ↔ f.fragmentOffset + f.payload.length < d.payload.length) ∧
      (f.moreFragments = true → 8 ∣ f.payload.length))
    ⟨fun ⟨src, dst, proto, nonempty, inside, part, more, eights⟩ =>
      ⟨src, dst, proto, nonempty, inside, part, more, eights⟩, fun fragment =>
      ⟨fragment.srcIp, fragment.dstIp, fragment.proto, fragment.nonempty, fragment.inside,
        fragment.part, fragment.more, fragment.eights⟩⟩

/-- What a frame is decided by: `none` where it does not parse, and is dropped. -/
def policyDecision (cfg : AppConfig) (profileIdx : ℕ) (f : Ipv4Frame) :
    Option (Option CryptoPolicy) :=
  (dpParseFlow f.bytes f.bytes.length).map (configSelectCryptoPolicy cfg profileIdx)

variable {d f : Ipv4Frame}

/-! ## Parsing -/

theorem getD_header {i : ℕ} (inside : i < f.header.length) :
    f.bytes.getD (f.eth.length + i) 0 = f.header.getD i 0 := by
  rw [Ipv4Frame.bytes, List.getD_append_right _ _ _ _ (Nat.le_add_right ..),
    Nat.add_sub_cancel_left, List.getD_append _ _ _ _ inside]

theorem getD_body (i : ℕ) :
    f.bytes.getD (f.eth.length + f.header.length + i) 0 = f.body.getD i 0 := by
  rw [Ipv4Frame.bytes, ← List.append_assoc, ← List.length_append,
    List.getD_append_right _ _ _ _ (Nat.le_add_right ..), Nat.add_sub_cancel_left]

theorem readBe32_header {i : ℕ} (inside : i + 3 < f.header.length) :
    readBe32 f.bytes (f.eth.length + i) = readBe32 f.header i := by
  have byte (k : ℕ) (small : k ≤ 3) :
      f.bytes.getD (f.eth.length + i + k) 0 = f.header.getD (i + k) 0 := by
    rw [Nat.add_assoc, getD_header (by omega)]
  have first := byte 0 (by decide)
  rw [Nat.add_zero, Nat.add_zero] at first
  rw [readBe32, first, byte 1 (by decide), byte 2 (by decide), byte 3 (by decide), readBe32]

theorem ethReadEt_body (i : ℕ) :
    ethReadEt f.bytes (f.eth.length + f.header.length + i) = ethReadEt f.body i := by
  rw [ethReadEt, getD_body, Nat.add_assoc _ i, getD_body, ethReadEt]

theorem ethReadEt_eth {i : ℕ} (inside : i + 2 ≤ f.eth.length) :
    ethReadEt f.bytes i = ethReadEt f.eth i :=
  ethReadEt_congr (by rw [Ipv4Frame.bytes, List.take_left, List.take_length]) inside

theorem length_bytes : f.bytes.length = f.eth.length + (f.header.length + f.body.length) := by
  rw [Ipv4Frame.bytes, List.length_append, List.length_append]

theorem ipv4Offset_bytes : cryptoEthIpv4Offset f.bytes f.bytes.length = some f.eth.length := by
  have long := f.headerMin
  have length := length_bytes (f := f)
  rcases f.tagged with ⟨eth, et⟩ | ⟨eth, tag, et⟩
  · have et : ethReadEt f.bytes 12 = ethPIp := (ethReadEt_eth (by omega)).trans et
    have inner : cryptoEthInnerEtOff f.bytes f.bytes.length = some 12 := by
      rw [cryptoEthInnerEtOff, if_neg (by omega), et, if_pos (by decide)]
    rw [cryptoEthIpv4Offset, inner]
    dsimp only
    rw [et, if_neg (by decide), if_neg (by omega), eth]
  · have tag : ethReadEt f.bytes 12 = ethP8021q := (ethReadEt_eth (by omega)).trans tag
    have et : ethReadEt f.bytes 16 = ethPIp := (ethReadEt_eth (by omega)).trans et
    have inner : cryptoEthInnerEtOff f.bytes f.bytes.length = some 16 := by
      rw [cryptoEthInnerEtOff, if_neg (by omega), tag, if_neg (by decide), if_neg (by decide),
        if_neg (by omega), et, if_pos (by decide)]
    rw [cryptoEthIpv4Offset, inner]
    dsimp only
    rw [et, if_neg (by decide), if_neg (by omega), eth]

/-- A TCP or UDP packet parses where four bytes follow its IPv4 header, and these are its ports. -/
theorem parseFlow_bytes (l4 : f.proto = 6 ∨ f.proto = 17) :
    dpParseFlow f.bytes f.bytes.length = if f.body.length < 4 then none else some f.flow := by
  have long := f.headerMin
  have length := length_bytes (f := f)
  have first : f.bytes.getD f.eth.length 0 = f.header.getD 0 0 :=
    getD_header (i := 0) (by omega)
  have ihl : (f.bytes.getD f.eth.length 0).toNat % 16 * 4 = f.header.length := by
    rw [first, f.headerLen]
  have proto : (f.bytes.getD (f.eth.length + 9) 0).toBitVec = f.proto := by
    rw [getD_header (by omega), Ipv4Frame.proto]
  have sport := ethReadEt_body (f := f) 0
  have dport := ethReadEt_body (f := f) 2
  rw [Nat.add_zero] at sport
  rw [dpParseFlow, ipv4Offset_bytes]
  dsimp only
  rw [ihl, proto, if_neg (by omega), if_pos l4, readBe32_header (by omega),
    readBe32_header (by omega), sport, dport]
  by_cases short : f.body.length < 4
  · rw [if_pos short, if_pos (by omega)]
  · rw [if_neg short, if_neg (by omega)]
    rfl

/-! ## The decision -/

/-- A fragment gets the decision of its datagram exactly where four bytes follow its IPv4 header,
and every policy that takes these for ports differently from the datagram's comes after one that
matches both. -/
theorem fragment_decision_iff (cfg : AppConfig) (profileIdx : ℕ) (d f : Ipv4Frame)
    (l4 : d.proto = 6 ∨ d.proto = 17) (whole : 8 ≤ d.payload.length) (fragment : FragmentOf d f) :
    policyDecision cfg profileIdx f = policyDecision cfg profileIdx d ↔
      4 ≤ f.body.length ∧ Indifferent CryptoPolicy.order (cfg.listedAt profileIdx)
        (cryptoPolicyMatchPacket · f.flow) (cryptoPolicyMatchPacket · d.flow) := by
  have long : ¬ d.body.length < 4 := by
    rw [Ipv4Frame.body, List.length_append]
    omega
  rw [policyDecision, policyDecision, parseFlow_bytes l4, parseFlow_bytes (fragment.proto ▸ l4),
    if_neg long, ← configSelect_eq_iff]
  by_cases short : f.body.length < 4
  · rw [if_pos short]
    exact iff_of_false nofun fun parsed => absurd parsed.1 (by omega)
  · rw [if_neg short, and_iff_right (by omega), Option.map_some, Option.map_some,
      Option.some_inj]

/-- The first fragment starts with the datagram's ports. -/
theorem FragmentOf.flow_eq (fragment : FragmentOf d f) (first : f.fragmentOffset = 0)
    (whole : 8 ≤ d.payload.length) : 8 ≤ f.payload.length ∧ f.flow = d.flow := by
  have eight : 8 ≤ f.payload.length := by
    have nonempty := fragment.nonempty
    have inside := fragment.inside
    cases more : f.moreFragments with
    | true =>
      obtain ⟨n, units⟩ := fragment.eights more
      omega
    | false =>
      have last : ¬ f.fragmentOffset + f.payload.length < d.payload.length := fun more' =>
        Bool.false_ne_true (more.symm.trans (fragment.more.mpr more'))
      omega
  have same : f.body.take 4 = d.body.take 4 := by
    have part := fragment.part
    rw [first, slice, List.drop_zero] at part
    rw [Ipv4Frame.body, Ipv4Frame.body, List.take_append_of_le_length (by omega),
      List.take_append_of_le_length (by omega), part, List.take_take, Nat.min_eq_left (by omega)]
  refine ⟨eight, ?_⟩
  rw [Ipv4Frame.flow, Ipv4Frame.flow, fragment.srcIp, fragment.dstIp, fragment.proto,
    ethReadEt_congr same (by decide), ethReadEt_congr same (by decide)]

/-- The first fragment is decided like the datagram. -/
theorem first_fragment_decision (cfg : AppConfig) (profileIdx : ℕ)
    (l4 : d.proto = 6 ∨ d.proto = 17) (whole : 8 ≤ d.payload.length) (fragment : FragmentOf d f)
    (first : f.fragmentOffset = 0) :
    policyDecision cfg profileIdx f = policyDecision cfg profileIdx d := by
  obtain ⟨eight, same⟩ := fragment.flow_eq first whole
  have full : ¬ f.body.length < 4 := by
    rw [Ipv4Frame.body, List.length_append]
    omega
  have long : ¬ d.body.length < 4 := by
    rw [Ipv4Frame.body, List.length_append]
    omega
  rw [policyDecision, policyDecision, parseFlow_bytes l4, parseFlow_bytes (fragment.proto ▸ l4),
    if_neg long, if_neg full, same]

/-! ## A table that tells fragments apart -/

/-- A policy for UDP, from the port range given on. -/
def sampleUdpPolicy (priority : ℤ) (action : PolicyAction) (dstPort : ℤ) : CryptoPolicy where
  id := if action = .bypass then 0 else priority
  dbId := priority
  priority
  action
  protocol := 17
  srcPortFrom := -1
  srcPortTo := -1
  dstPortFrom := dstPort
  dstPortTo := dstPort
  srcAny := true
  dstAny := true
  srcNegate := false
  dstNegate := false
  srcNet := 0
  srcMask := 0
  dstNet := 0
  dstMask := 0

/-- DNS in the clear, and all other UDP encrypted. -/
def sampleDnsTable : AppConfig where
  cryptoEnabled := true
  profiles := [⟨1, [0, 1], false⟩]
  policies := [sampleUdpPolicy 1 .bypass 53, sampleUdpPolicy 2 .encryptL2 (-1)]

/-- A UDP packet in an untagged frame, with the flags and the offset of its header. -/
def sampleUdpFrame (flags offset : UInt8) (payload : Bytes) : Ipv4Frame where
  eth := [2, 0, 0, 0, 0, 1, 2, 0, 0, 0, 0, 2, 8, 0]
  header := [0x45, 0, 0, 0, 0, 7, flags, offset, 64, 17, 0, 0, 10, 0, 0, 1, 10, 0, 0, 2]
  payload
  pad := []
  tagged := .inl (by decide)
  headerMin := Nat.le_refl 20
  headerLen := by
    show 20 = (0x45 : UInt8).toNat % 16 * 4
    decide

/-- A datagram for port 5000 of 18 bytes. -/
def sampleDatagram : Ipv4Frame :=
  sampleUdpFrame 0 0 [0x30, 0x39, 0x13, 0x88, 0, 18, 0, 0, 1, 2, 0, 53, 5, 6, 7, 8, 9, 10]

/-- Its first eight bytes. -/
def sampleFirstPart : Ipv4Frame := sampleUdpFrame 0x20 0 [0x30, 0x39, 0x13, 0x88, 0, 18, 0, 0]

theorem fragment_decision_iff_first :
    policyDecision sampleDnsTable 0 sampleFirstPart =
      policyDecision sampleDnsTable 0 sampleDatagram := by
  have ports : sampleFirstPart.flow = sampleDatagram.flow := by decide +kernel
  refine (fragment_decision_iff sampleDnsTable 0 sampleDatagram sampleFirstPart (by decide +kernel)
    (by decide +kernel) (by decide +kernel)).mpr ⟨by decide +kernel, fun cp _ differ => ?_⟩
  exact absurd (congrArg (cryptoPolicyMatchPacket cp) ports) differ

/-- The datagram is encrypted, its second fragment goes out in the clear, and its third is
dropped. -/
theorem fragments_apart :
    ∃ middle last : Ipv4Frame, FragmentOf sampleDatagram middle ∧ FragmentOf sampleDatagram last ∧
      policyDecision sampleDnsTable 0 sampleDatagram =
        some (some (sampleUdpPolicy 2 .encryptL2 (-1))) ∧
      policyDecision sampleDnsTable 0 middle = some (some (sampleUdpPolicy 1 .bypass 53)) ∧
      policyDecision sampleDnsTable 0 last = none :=
  ⟨sampleUdpFrame 0x20 1 [1, 2, 0, 53, 5, 6, 7, 8], sampleUdpFrame 0 2 [9, 10],
    by decide +kernel, by decide +kernel, by decide +kernel, by decide +kernel,
    by decide +kernel⟩

end NeEncryptor
