import NeEncryptor.Dataplane.MssBound
import NeEncryptor.Dataplane.PolicyRuns

/-!
# From appliance to appliance

What one appliance seals for a LAN frame, another one that has the key opens to the packet that was
sealed, and hands it to a LAN or to the reordering.
-/

namespace NeEncryptor

open Buffer Custody

/-! ## What a call pushes -/

/-- The frames that a trace pushes on the rings towards the LANs. -/
def portPushes (es : List FrameEvent) : List (ℕ × Bytes) :=
  es.filterMap fun
    | .release _ (.ring (.lan li) frame) => some (li, frame)
    | _ => none

@[simp] theorem portPushes_nil : portPushes [] = [] := rfl

@[simp] theorem portPushes_use (addr : FrameAddr) (es : List FrameEvent) :
    portPushes (.use addr :: es) = portPushes es := rfl

@[simp] theorem portPushes_pool (addr : FrameAddr) (es : List FrameEvent) :
    portPushes (.release addr .pool :: es) = portPushes es := rfl

@[simp] theorem portPushes_ring (addr : FrameAddr) (li : ℕ) (frame : Bytes) (es : List FrameEvent) :
    portPushes (.release addr (.ring (.lan li) frame) :: es) = (li, frame) :: portPushes es := rfl

@[simp] theorem portPushes_append (es es' : List FrameEvent) :
    portPushes (es ++ es') = portPushes es ++ portPushes es' :=
  List.filterMap_append

namespace Edge

variable {n : ℕ} (e : Edge n)

/-- What `forward_wan_to_local` puts on a ring. -/
def landing (item : WanItem) : List (ℕ × Bytes) :=
  if item.frame.getD 0 0 &&& 0x01 ≠ 0 then []
  else
    match e.lanFor item.frame item.ingressWan with
    | none => []
    | some li =>
      if e.pushCount (.lan li) item.addr < midRingCap then [(li, item.frame)] else []

variable {e}

theorem portPushes_forward {item : WanItem} (long : 14 ≤ item.frame.length)
    (fits : item.frame.length ≤ neFrame) :
    portPushes ((e.forwardWanToLocal item).getD []) = e.landing item := by
  unfold forwardWanToLocal landing lanFor
  by_cases multicast : item.frame.getD 0 0 &&& 0x01 ≠ 0
  · rw [if_pos (.inr multicast), if_pos multicast]
    rfl
  · rw [if_neg (not_or.mpr ⟨by omega, multicast⟩), if_neg multicast]
    dsimp only
    cases (e.mac.lookup (dmacOf item.frame)).filter e.profileOwnsLocal <|>
        (item.ingressWan.bind e.macFwdLocalForWanDp).filter e.profileOwnsLocal with
    | none => rfl
    | some li =>
      rw [Option.map_some, Option.getD_some, portPushes_use]
      dsimp only
      by_cases room : e.pushCount (.lan li) item.addr < midRingCap
      · rw [if_pos room, dpRingPush, if_neg (by omega)]
        rfl
      · rw [if_neg room, dpRingPush, if_pos (by omega)]
        rfl

/-- A packet without a number is forwarded or dropped. -/
theorem deliver_whole (e : Edge n) (y : WanDraws) (st : WanState) (item : WanItem)
    (long : 14 ≤ item.frame.length) (fits : item.frame.length ≤ neFrame) :
    (e.deliver y st item none).1 = st ∧ (e.deliver y st item none).2.2 = true ∧
      portPushes (e.deliver y st item none).2.1 = e.landing item := by
  rw [← portPushes_forward long fits]
  unfold deliver
  cases e.forwardWanToLocal item with
  | none => exact ⟨rfl, rfl, rfl⟩
  | some events => exact ⟨rfl, rfl, rfl⟩

end Edge

/-! ## What a sealed frame is taken for -/

section Headed

variable {hdr nonce body frame : Bytes} {lo wireId : UInt8}

/-- A sealed frame is no ARP frame. -/
theorem Headed.data (headed : Headed frame hdr nonce body lo wireId) :
    (cryptoEthL2HasArpMarker frame || dpPktIsArp frame) = false := by
  have et := headed.et
  have small := lo.toNat_lt
  have arp : ethPArp = 0x0806 := rfl
  have vlan : ethP8021q = 0x8100 := rfl
  have sealed : 0x1000 + lo.toNat = 0x104A ∨ 0x1000 + lo.toNat = 0x104B := by
    rcases headed.sealed with rfl | rfl
    · exact .inl rfl
    · exact .inr rfl
  have noMarker : cryptoEthL2HasArpMarker frame = false := by
    rw [cryptoEthL2HasArpMarker, headed.found, Option.any_some, et]
    rcases sealed with same | same
    · rw [same]
      decide
    · rw [same]
      decide
  have noArp : dpPktIsArp frame = false := by
    unfold dpPktIsArp
    obtain ⟨-, -, place⟩ := innerEtOff_cases headed.found
    split
    · rfl
    rcases place with first | ⟨second, tagged⟩
    · rw [first] at et
      rw [if_neg (by omega), et]
      exact beq_false_of_ne (by omega)
    · rw [second] at et
      rw [if_pos tagged, et]
      exact Bool.and_eq_false_iff.mpr (.inr (beq_false_of_ne (by omega)))
  rw [noMarker, noArp]
  rfl

theorem Headed.long (headed : Headed frame hdr nonce body lo wireId) : 28 ≤ frame.length := by
  have length := headed.length
  have place := (innerEtOff_cases headed.found).2.2
  omega

/-- The kept header of a tagged frame has its policy id. -/
theorem Headed.wireBuf (headed : Headed frame hdr nonce body lo wireId) :
    cryptoEthL2ReadPolicyId (Edge.wireBuf frame) (Edge.wireBuf frame).length = some wireId ∧
      cryptoEthL2HasMarker (Edge.wireBuf frame) (Edge.wireBuf frame).length = true := by
  unfold Edge.wireBuf
  split
  · have long := headed.long
    have place := (innerEtOff_cases headed.found).2.2
    have known := (innerEtOff_cases headed.found).1
    have short : (frame.take 64).length = min 64 frame.length := List.length_take
    have same {off : ℕ} (early : off + 2 ≤ 64) : ethReadEt (frame.take 64) off = ethReadEt frame off :=
      ethReadEt_congr (by rw [List.take_take, Nat.min_self]) early
    have prefixed : (frame.take 64).take hdr.length = frame.take hdr.length := by
      rw [List.take_take, Nat.min_eq_left (by omega)]
    have found : cryptoEthInnerEtOff (frame.take 64) (frame.take 64).length = some hdr.length :=
      innerEtOff_congr headed.found prefixed (by rw [same (by omega)]; exact known) (by omega)
    have et : ethReadEt (frame.take 64) hdr.length = 0x1000 + lo.toNat := by
      rw [same (by omega)]
      exact headed.et
    have policyId : (frame.take 64).getD (hdr.length + 2) 0 = wireId := by
      rw [List.getD_eq_getElem?_getD, List.getElem?_take_of_lt (by omega),
        ← List.getD_eq_getElem?_getD]
      exact headed.policyId
    constructor
    · rw [cryptoEthL2ReadPolicyId, cryptoEthL2PolicyOff, found]
      dsimp only
      rw [if_neg (by omega), Option.map_some, policyId]
    · rw [cryptoEthL2HasMarker, found]
      dsimp only
      rw [et]
      rcases headed.sealed with rfl | rfl
      · decide
      · decide
  · exact ⟨headed.readPolicyId, headed.hasMarker⟩

end Headed

/-! ## The receiver -/

namespace Edge

variable {n m : ℕ} {r : Edge m} {w : Fin m} {y : WanDraws} {st : WanState} {job : Job}
  {wireId : UInt8} {rctx : PacketCryptoCtx} {key : TrafficKey}

/-- What the worker finds when it takes a frame from a WAN. -/
def rxOf (r : Edge m) (w : Fin m) : WanRx m := ⟨r.cfg, r.rt, w, r.nowMs⟩

/-- The worker has the key of a wire id, and the wire id leads to the profile. -/
structure Peered (r : Edge m) (w : Fin m) (wireId : UInt8) (rctx : PacketCryptoCtx)
    (key : TrafficKey) : Prop where
  worker : r.worker = some w
  enabled : r.cfg.cryptoEnabled = true
  has : (r.rxOf w).HasKey wireId rctx key
  profile : r.profilePiForWirePolicy wireId = true

section Peered

variable {hdr nonce body : Bytes} {lo : UInt8} {ft : OptTable} {result : WanResult}

theorem Peered.processWan_eq (peered : r.Peered w wireId rctx key)
    (headed : Headed job.frame hdr nonce body lo wireId) :
    r.dataplaneProcessWan y st job = r.processEncrypted y st job := by
  have long := headed.long
  have encrypted : r.wireIsEncrypted job.frame = true := by
    rw [wireIsEncrypted, headed.hasMarker, Bool.or_true, Bool.true_or]
  unfold dataplaneProcessWan
  dsimp only
  rw [if_neg (by omega), headed.data, if_neg Bool.false_ne_true, if_pos encrypted, peered.enabled,
    if_neg (by decide)]

theorem Peered.wanProfilePi (peered : r.Peered w wireId rctx key)
    (headed : Headed job.frame hdr nonce body lo wireId) :
    r.wanProfilePi (wireBuf job.frame) = true := by
  rw [Edge.wanProfilePi, headed.wireBuf.1, headed.wireBuf.2, Bool.or_true, if_pos rfl,
    Option.any_some]
  exact peered.profile

/-- A packet that is opened and let in is handed on. -/
theorem Peered.opened (peered : r.Peered w wireId rctx key)
    (headed : Headed job.frame hdr nonce body lo wireId) {packet : Bytes}
    {ids : Option (BitVec 32 × BitVec 32)}
    (made : (r.rxOf w).decryptWan r.aead st.ft y.optNowNs job.frame = (ft, .plain packet ids))
    (policy : r.wanPolicyIn packet = true) :
    r.dataplaneProcessWan y st job =
      let delivered := r.deliver y { st with ft := ft }
        ⟨job.addr, r.wanClampTcpMss packet, r.ingressWan job⟩ ids
      (delivered.1, .use job.addr :: delivered.2.1, delivered.2.2) := by
  have rx : r.rx = some (r.rxOf w) := by
    rw [Edge.rx, peered.worker]
    rfl
  rw [peered.processWan_eq headed, processEncrypted, rx]
  dsimp only
  rw [made]
  dsimp only
  rw [peered.wanProfilePi headed, policy]
  rfl

/-- A fragment that waits is kept in the table, and its frame is freed. -/
theorem Peered.held (peered : r.Peered w wireId rctx key)
    (headed : Headed job.frame hdr nonce body lo wireId)
    (made : (r.rxOf w).decryptWan r.aead st.ft y.optNowNs job.frame = (ft, .held)) :
    r.dataplaneProcessWan y st job =
      ({ st with ft := ft }, [.use job.addr, .release job.addr .pool], true) := by
  have rx : r.rx = some (r.rxOf w) := by
    rw [Edge.rx, peered.worker]
    rfl
  rw [peered.processWan_eq headed, processEncrypted, rx]
  dsimp only
  rw [made]

end Peered

/-! ## Whole packets -/

theorem length_wanClampTcpMss (packet : Bytes) : (r.wanClampTcpMss packet).length = packet.length := by
  unfold wanClampTcpMss
  dsimp only
  split
  · exact length_clamp cryptoOptFragMtuDefault 30 le_rfl
  · rfl

theorem wanClampTcpMss_of_ne {packet : Bytes} {t : FiveTuple}
    (flow : dpParseFlow packet packet.length = some t) (other : t.protocol ≠ 6) :
    r.wanClampTcpMss packet = packet := by
  rw [wanClampTcpMss, flow, Option.any_some, decide_eq_false other, Bool.false_and, Bool.and_false]
  rfl

/-- A plain frame that is restored leaves the table as it is. -/
theorem decryptWan_of_restored {rx : WanRx m} {aead : Aead} {ft : OptTable} {now : BitVec 64}
    {pkt packet : Bytes} (encrypted : rx.wanWireIsEncrypted pkt = true)
    (restored : (rx.decryptWan aead ft now pkt).2 = .plain packet none) :
    rx.decryptWan aead ft now pkt = (ft, .plain packet none) := by
  have decrypts : Decrypts rx aead ft now pkt (rx.decryptWan aead ft now pkt) :=
    decrypts_decryptWan encrypted
  generalize rx.decryptWan aead ft now pkt = r at decrypts restored
  cases decrypts with
  | dropped => cases restored
  | whole _ opened =>
    obtain ⟨rfl, -⟩ := WanResult.plain.inj restored
    rfl
  | datagram => cases (WanResult.plain.inj restored).2
  | fragment _ _ joins =>
    dsimp only at restored
    exact absurd rfl (joins packet none restored).2
  | raw =>
    obtain ⟨rfl, -⟩ := WanResult.plain.inj restored
    rfl

/-! ## The sender -/

section Sender

variable {s : Edge n} {x : LocalDraws} {lan : Job} {t : FiveTuple} {ctx : PacketCryptoCtx} {d : ℕ}
  {frame : Bytes}

/-- A policy that encrypts is picked for the packet, and the sender has its context. -/
structure Governs (s : Edge n) (lan : Job) (t : FiveTuple) (ctx : PacketCryptoCtx) : Prop where
  flow : dpParseFlow lan.frame lan.len = some t
  policy : ∃ pi cp, s.pickProfilePolicy (s.ingressLocal lan) (some t) = some (pi, cp) ∧
    cp.action ≠ .bypass ∧ s.fwdCryptoPolicyCtx pi = some ctx

/-- The packet that the encoder seals. -/
def sealedPacket (lan : Job) (proto : BitVec 8) : Bytes := (egressBuffer lan proto).take lan.len

theorem Governs.encoded (governs : s.Governs lan t ctx)
    (pushed : (d, frame) ∈ wanPushes (s.dataplaneProcessLocal x lan)) :
    EncodedBy s x lan t.protocol ctx frame := by
  obtain ⟨pi, cp, picked, encrypts, loaded⟩ := governs.policy
  cases pushedFromLocal_of_mem pushed with
  | arp isArp =>
    rw [dpPktIsArp_of_flow governs.flow] at isArp
    cases isArp
  | bypass flow picked' bypasses =>
    obtain rfl := Option.some.inj (governs.flow.symm.trans flow)
    obtain ⟨-, rfl⟩ := Prod.mk.inj (Option.some.inj (picked.symm.trans picked'))
    exact absurd bypasses encrypts
  | encrypted flow picked' _ loaded' encoded =>
    obtain rfl := Option.some.inj (governs.flow.symm.trans flow)
    obtain ⟨rfl, -⟩ := Prod.mk.inj (Option.some.inj (picked.symm.trans picked'))
    obtain rfl := Option.some.inj (loaded.symm.trans loaded')
    exact encoded

theorem fits_egressBuffer (lan : Job) (proto : BitVec 8) :
    lan.len ≤ (egressBuffer lan proto).length :=
  (length_egressBuffer lan proto).symm ▸ lan.fits

theorem length_sealedPacket (lan : Job) (proto : BitVec 8) :
    (sealedPacket lan proto).length = lan.len := by
  rw [sealedPacket, List.length_take, Nat.min_eq_left (fits_egressBuffer lan proto)]

theorem sealedPacket_of_ne {proto : BitVec 8} (other : proto ≠ 6) :
    sealedPacket lan proto = lan.frame := by
  rw [sealedPacket, egressBuffer, if_neg other, Job.frame]

theorem Governs.ip (governs : s.Governs lan t ctx) :
    ∃ etOff, cryptoEthIpv4Offset lan.frame lan.len = some (etOff + 2) ∧
      etOff ≤ 16 ∧ etOff + 22 ≤ lan.len := by
  obtain ⟨etOff, ip⟩ := ipv4Offset_of_flow governs.flow
  obtain ⟨etOff', same, inner, -, long⟩ := ipv4Offset_some ip
  have place := (innerEtOff_cases inner).2.2
  exact ⟨etOff, ip, by omega, by omega⟩

/-- What the encoder seals starts with the headers of the packet. -/
theorem Governs.ipv4Offset_egress (governs : s.Governs lan t ctx) (proto : BitVec 8) :
    cryptoEthIpv4Offset (egressBuffer lan proto) lan.len =
      cryptoEthIpv4Offset lan.frame lan.len := by
  obtain ⟨etOff, ip, place, long⟩ := governs.ip
  rw [ip]
  exact ipv4Offset_congr ip (take_egressBuffer lan proto (by decide) (by omega))

theorem Governs.version (governs : s.Governs lan t ctx) (proto : BitVec 8)
    (version : IsVersion4 lan.frame lan.len) : IsVersion4 (egressBuffer lan proto) lan.len := by
  obtain ⟨etOff, ip, place, long⟩ := governs.ip
  intro l3Off found
  rw [governs.ipv4Offset_egress, ip] at found
  obtain rfl := Option.some.inj (Option.mem_def.mp found)
  have four := version (etOff + 2) ip
  have same : (egressBuffer lan proto).take (etOff + 3) = lan.frame.take (etOff + 3) :=
    take_egressBuffer lan proto (by omega) (by omega)
  have byte := congrArg (List.getD · (etOff + 2) 0) same
  simp only [List.getD_eq_getElem?_getD] at byte four ⊢
  rw [List.getElem?_take_of_lt (by omega), List.getElem?_take_of_lt (by omega)] at byte
  rw [byte]
  exact four

theorem classify_ne_udp {proto : BitVec 8} (other : proto ≠ 17) :
    cryptoProtoClassify proto ≠ .udp := by
  unfold cryptoProtoClassify
  rw [if_neg other]
  split
  · decide
  split
  · decide
  split
  · decide
  · decide

/-- A packet that is not UDP is sealed whole. -/
theorem Governs.encoded_whole (governs : s.Governs lan t ctx) (other : t.protocol ≠ 17)
    (pushed : (d, frame) ∈ wanPushes (s.dataplaneProcessLocal x lan)) :
    l2DoEncrypt s.aead ctx s.coreIdx x.nonce (egressBuffer lan t.protocol) lan.len =
      some frame := by
  have plain (made : l2PlainEncrypt s.aead ctx s.coreIdx x.nonce (egressBuffer lan t.protocol)
      lan.len = some frame) :
      l2DoEncrypt s.aead ctx s.coreIdx x.nonce (egressBuffer lan t.protocol) lan.len =
        some frame := by
    obtain ⟨etOff, ip, -⟩ := governs.ip
    unfold l2PlainEncrypt at made
    split at made
    · cases made
    · rw [cryptoPktIsIpv4, governs.ipv4Offset_egress, ip] at made
      exact made
  cases governs.encoded pushed with
  | part udp => exact absurd udp (classify_ne_udp other)
  | whole _ made =>
    unfold cryptoOptionEncrypt at made
    split at made
    · exact plain made
    · rename_i udp
      exact absurd udp (classify_ne_udp other)
    · exact plain made
    · exact plain made
    · exact plain made

end Sender

/-! ## Both ends -/

section Both

variable {s : Edge n} {x : LocalDraws} {lan : Job} {t : FiveTuple} {ctx : PacketCryptoCtx} {d : ℕ}
  {frame : Bytes}

/-- A packet that is not UDP reaches the LANs behind the peer as the encoder got it, unless its
ciphertext begins with the marker of UDP. -/
theorem delivered_whole (governs : s.Governs lan t ctx) (other : t.protocol ≠ 17)
    (version : IsVersion4 lan.frame lan.len)
    (pushed : (d, frame) ∈ wanPushes (s.dataplaneProcessLocal x lan)) (cipher : r.aead = s.aead)
    (peered : r.Peered w ctx.wireId rctx ctx.keys.current)
    (authentic : Authentic s.aead rctx ctx.keys.current frame)
    (unmarked : (l2CipherOf frame).take l2UdpMarkerSize ≠ l2UdpMarker) (arrives : job.frame = frame)
    (policy : r.wanPolicyIn (sealedPacket lan t.protocol) = true) :
    (r.dataplaneProcessWan y st job).1 = st ∧ (r.dataplaneProcessWan y st job).2.2 = true ∧
      portPushes (r.dataplaneProcessWan y st job).2.1 =
        r.landing ⟨job.addr, r.wanClampTcpMss (sealedPacket lan t.protocol), r.ingressWan job⟩ ∧
      (t.protocol ≠ 6 → r.wanClampTcpMss (sealedPacket lan t.protocol) = lan.frame) := by
  have made := governs.encoded_whole other pushed
  have fits := fits_egressBuffer lan t.protocol
  obtain ⟨etOff, n, body, found, ip, long, encrypted, same⟩ := l2DoEncrypt_some fits made
  have inside := (innerEtOff_cases found).2.1
  have headed : Headed job.frame ((egressBuffer lan t.protocol).take etOff) n.toList body 0x4A
      ctx.wireId := by
    rw [arrives, same]
    exact headed_headedFrame found (by omega) (.inl rfl) n.length_toList
  have small : job.frame.length ≤ neFrame := (length_frame job).trans_le job.fits
  have restored : ((r.rxOf w).decryptWan s.aead st.ft y.optNowNs frame).2 =
      .plain (sealedPacket lan t.protocol) none :=
    (plain_restored_iff peered.has fits (governs.version t.protocol version) made authentic).mpr
      ⟨arrives ▸ small, unmarked⟩
  have opened : (r.rxOf w).decryptWan r.aead st.ft y.optNowNs job.frame =
      (st.ft, .plain (sealedPacket lan t.protocol) none) := by
    rw [cipher, arrives]
    refine decryptWan_of_restored ((r.rxOf w).wireIsEncrypted ?_) restored
    rw [← arrives]
    exact headed.hasMarker
  have size : (r.wanClampTcpMss (sealedPacket lan t.protocol)).length = lan.len := by
    rw [length_wanClampTcpMss, length_sealedPacket]
  obtain ⟨keeps, returns, lands⟩ := r.deliver_whole y st
    ⟨job.addr, r.wanClampTcpMss (sealedPacket lan t.protocol), r.ingressWan job⟩
    (by dsimp only; omega) (by dsimp only; rw [size]; exact lan.fits)
  rw [peered.opened headed opened policy]
  refine ⟨keeps, returns, lands, fun noTcp => ?_⟩
  rw [sealedPacket_of_ne noTcp]
  exact wanClampTcpMss_of_ne (by rw [length_frame]; exact governs.flow) noTcp

end Both

end Edge

/-! ## A SYN between two appliances -/

/-- An appliance with one LAN, one WAN with an MTU, and the key of a policy for all packets. -/
def tunnelEdge (mtu : ℤ) : Edge 1 :=
  { mssEdge mtu with
    aead := streamAead
    cfg := ⟨true, [⟨1, [0], true⟩], [anyPolicy 5]⟩
    rt :=
      { (mssEdge mtu).rt with
        active := { (mssEdge mtu).rt.active with entries := [⟨anyPolicy 5, some lanPolicyCtx⟩] }
        workers := fun _ => ⟨[⟨anyPolicy 5, some lanPolicyCtx⟩], [], some 1⟩ } }

theorem tunnelEdge_governs_syn :
    (tunnelEdge 1500).Governs lanSynJob lanSynFlow lanPolicyCtx where
  flow := by decide +kernel
  policy := ⟨0, anyPolicy 5, by decide +kernel, by decide, by decide +kernel⟩

theorem tunnelEdge_hasKey : ((tunnelEdge 1500).rxOf 0).HasKey 5 lanPolicyCtx 1 where
  policy := by decide +kernel
  ctx := rfl
  initialized := by decide
  loads := by decide
  held := by decide
  profile := by decide +kernel

theorem tunnelEdge_profile : (tunnelEdge 1500).profilePiForWirePolicy 5 = true := by decide +kernel

/-- The MTU says nothing about the keys. -/
theorem tunnelEdge_peered (mtu : ℤ) : (tunnelEdge mtu).Peered 0 5 lanPolicyCtx 1 :=
  ⟨rfl, rfl, tunnelEdge_hasKey, tunnelEdge_profile⟩

theorem candidates_lanPolicyCtx : candidates lanPolicyCtx = [1] := by decide

/-- The frame of the SYN on the wire. -/
def synFrame : Bytes :=
  (l2DoEncrypt streamAead lanPolicyCtx 0 (some (Vector.replicate 12 8))
    (Edge.egressBuffer lanSynJob 6) 58).getD []

theorem synFrame_authentic : Authentic streamAead lanPolicyCtx 1 synFrame where
  others := by
    intro k mem other
    rw [candidates_lanPolicyCtx, List.mem_singleton] at mem
    exact absurd mem other
  cut := by
    intro k mem
    rw [candidates_lanPolicyCtx, List.mem_singleton] at mem
    rw [mem]
    decide +kernel

theorem lanSynJob_version : IsVersion4 lanSynJob.frame lanSynJob.len := by
  have off : cryptoEthIpv4Offset lanSynJob.frame lanSynJob.len = some 14 := by decide +kernel
  intro l3Off found
  obtain rfl := Option.some.inj (off.symm.trans found)
  decide +kernel

theorem delivered_whole_syn :
    portPushes ((tunnelEdge 1500).dataplaneProcessWan mssWanDraws freshWanState
      (paddedJob synFrame 88 wanSynJob.fits)).2.1 =
        (tunnelEdge 1500).landing ⟨4096, (tunnelEdge 1500).wanClampTcpMss
          (Edge.sealedPacket lanSynJob 6), some 0⟩ :=
  (Edge.delivered_whole (d := 0) (x := mssDraws) tunnelEdge_governs_syn (by decide)
    lanSynJob_version (by decide +kernel) rfl (tunnelEdge_peered 1500) synFrame_authentic
    (by decide +kernel) (by decide +kernel) (by decide +kernel)).2.2.1

end NeEncryptor
