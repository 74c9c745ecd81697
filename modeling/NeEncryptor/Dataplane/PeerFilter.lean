import NeEncryptor.Dataplane.LocalEgress
import NeEncryptor.Failover.CfmDiag

/-!
# The filters of the two appliances

The XDP programs of `bpf/lan.c` and `bpf/wan.c`: what the filter at the WAN of the peer makes of the
frames that an appliance sends for what its own filter at the LAN lets in.
-/

namespace NeEncryptor

open Buffer Custody

/-- What an XDP program does with a frame; a redirected one goes to AF_XDP. -/
inductive XdpAction
  | pass
  | drop
  | redirect
  deriving DecidableEq, Repr

/-- `ETH_FRAME_MAX`. -/
def ethFrameMax : ℕ := 1514

/-- `ETH_VLAN_FRAME_MAX`. -/
def ethVlanFrameMax : ℕ := 1518

/-- `xdp_redirect_prog`. -/
def xdpRedirectProg (pkt : Bytes) : XdpAction :=
  let proto := ethReadEt pkt 12
  if pkt.length < 14 then .pass
  else if (if proto = ethP8021q then ethVlanFrameMax else ethFrameMax) < pkt.length then .drop
  else if proto = ethPArp then .redirect
  else if proto = ethPIp then if pkt.length < 34 then .pass else .redirect
  else .pass

/-- `update_wan_fake_ethertype`, for the two entries of `wan_config_map`. -/
def updateWanFakeEthertype (wanConfigMap : Fin 2 → ℕ) : Fin 2 → ℕ :=
  Function.update (Function.update wanConfigMap 0 l2FakeEthertype) 1 l2FakeEthertypeUdp

/-- The protocols that `xdp_wan_redirect_prog` takes out of plain IPv4: ICMP, TCP, UDP and OSPF. -/
def wanPlainProtocols : List (BitVec 8) := [1, 6, 17, 89]

/-- `xdp_wan_redirect_prog`. -/
def xdpWanRedirectProg (wanConfigMap : Fin 2 → ℕ) (pkt : Bytes) : XdpAction :=
  let proto := ethReadEt pkt 12
  if pkt.length < 14 then .pass
  else if proto = ethPCfm then .pass
  else if proto = ethPArp ∨ proto = l2FakeEthertypeArp ∨ proto = l2FakeEthertypeUdp then .redirect
  else if proto = ethPIp then
    if pkt.length < 34 then .pass
    else if (pkt.getD 23 0).toBitVec ∈ wanPlainProtocols then .redirect
    else .pass
  else if wanConfigMap 0 ≠ 0 ∧ proto = wanConfigMap 0 then .redirect
  else if wanConfigMap 1 ≠ 0 ∧ proto = wanConfigMap 1 then .redirect
  else .pass

theorem redirected_cases {pkt : Bytes} (admitted : xdpRedirectProg pkt = .redirect) :
    14 ≤ pkt.length ∧
      (ethReadEt pkt 12 = ethPArp ∨ ethReadEt pkt 12 = ethPIp ∧ 34 ≤ pkt.length) := by
  unfold xdpRedirectProg at admitted
  dsimp only at admitted
  split at admitted
  · cases admitted
  rename_i long
  refine ⟨by omega, ?_⟩
  generalize (if ethReadEt pkt 12 = ethP8021q then ethVlanFrameMax else ethFrameMax) = most
    at admitted
  split at admitted
  · cases admitted
  split at admitted
  · exact .inl ‹_›
  split at admitted
  · split at admitted
    · cases admitted
    · exact .inr ⟨‹_›, by omega⟩
  · cases admitted

/-- What is no plain IPv4 is told by its EtherType. -/
theorem wanRedirected_of_et {pkt : Bytes} {map : Fin 2 → ℕ} (long : 14 ≤ pkt.length)
    (et : ethReadEt pkt 12 ∈ [ethPArp, l2FakeEthertypeArp, l2FakeEthertypeUdp, l2FakeEthertype]) :
    xdpWanRedirectProg (updateWanFakeEthertype map) pkt = .redirect := by
  unfold xdpWanRedirectProg
  generalize ethReadEt pkt 12 = proto at et
  simp only [List.mem_cons, List.not_mem_nil, or_false] at et
  rcases et with rfl | rfl | rfl | rfl
  · rw [if_neg (by omega)]
    rfl
  · rw [if_neg (by omega)]
    rfl
  · rw [if_neg (by omega)]
    rfl
  · rw [if_neg (by omega)]
    rfl

theorem wanRedirected_ipv4_iff {pkt : Bytes} {map : Fin 2 → ℕ} (long : 34 ≤ pkt.length)
    (ip : ethReadEt pkt 12 = ethPIp) :
    xdpWanRedirectProg map pkt = .redirect ↔ (pkt.getD 23 0).toBitVec ∈ wanPlainProtocols := by
  unfold xdpWanRedirectProg
  dsimp only
  rw [ip, if_neg (by omega), if_neg (by decide), if_neg (by decide), if_pos rfl, if_neg (by omega)]
  split
  · rename_i listed
    exact iff_of_true rfl listed
  · rename_i unlisted
    exact iff_of_false (by decide) unlisted

theorem wanRedirected_of_sealed {aead : Aead} {key : TrafficKey} {hdr frame : Bytes}
    {map : Fin 2 → ℕ} (sealed : SealedUnder aead key hdr frame) (untagged : hdr.length = 12) :
    xdpWanRedirectProg (updateWanFakeEthertype map) frame = .redirect := by
  obtain ⟨-, wireId, worker, nonce, plain, cipher, -, sealed⟩ := sealed
  have size : nonce.toList.length = l2NonceSize := Vector.length_toList
  rcases sealed with rfl | rfl
  · have et := ethReadEt_headedFrame hdr nonce.toList cipher 0x4A wireId worker
    rw [untagged] at et
    refine wanRedirected_of_et ?_ (by rw [et]; decide)
    rw [length_headedFrame size, untagged]
    omega
  · have et := ethReadEt_wireFrame hdr nonce.toList cipher wireId worker
    rw [untagged] at et
    refine wanRedirected_of_et ?_ (by rw [et]; decide)
    rw [length_wireFrame size, untagged]
    omega

theorem wanRedirected_l2ArpEncrypt {aead : Aead} {ctx : PacketCryptoCtx} {worker : UInt8}
    {nonce : Option Nonce} {pkt frame : Bytes} {pktLen : ℕ} {map : Fin 2 → ℕ}
    (fits : pktLen ≤ pkt.length) (long : 14 ≤ pktLen) (arp : ethReadEt pkt 12 = ethPArp)
    (made : l2ArpEncrypt aead ctx worker nonce pkt pktLen = some frame) :
    xdpWanRedirectProg (updateWanFakeEthertype map) frame = .redirect := by
  unfold l2ArpEncrypt at made
  split at made
  · cases made
  split at made
  · cases made
    have et : ethReadEt (pkt.take pktLen) 12 = ethPArp := by
      rw [← arp]
      exact ethReadEt_congr (n := pktLen) (by rw [List.take_take, Nat.min_self]) (by omega)
    exact wanRedirected_of_et (by rw [List.length_take]; omega) (by rw [et]; decide)
  · obtain ⟨etOff, n, cipher, -, place, et, inside, -, rfl⟩ := l2DoEncryptArp_some fits made
    have untagged : etOff = 12 := by
      rcases place with here | ⟨-, tagged⟩
      · exact here
      · rw [arp] at tagged
        cases tagged
    have hdr : (pkt.take etOff).length = 12 := by
      rw [List.length_take]
      omega
    have size : n.toList.length = l2NonceSize := Vector.length_toList
    have marked := ethReadEt_headedFrame (pkt.take etOff) n.toList cipher 0x48 ctx.wireId worker
    rw [hdr] at marked
    refine wanRedirected_of_et ?_ (by rw [marked]; decide)
    rw [length_headedFrame size, hdr]
    omega

namespace Edge

variable {n : ℕ} {e : Edge n} {x : LocalDraws} {job : Job}

/-- An ARP frame goes out as it is, or under the EtherType of encrypted ARP. -/
theorem wanRedirected_arp {map : Fin 2 → ℕ} (long : 14 ≤ job.len)
    (arp : ethReadEt job.frame 12 = ethPArp) :
    xdpWanRedirectProg (updateWanFakeEthertype map)
      (e.arpTryEncryptL2Pqc x job.buffer job.len) = .redirect := by
  have fits : job.len ≤ job.buffer.length := job.fits.trans job.size.ge
  have length : 14 ≤ job.frame.length := (length_frame job).symm ▸ long
  have et : ethReadEt job.buffer 12 = ethPArp := by
    rw [← arp, Job.frame]
    exact (ethReadEt_congr (n := job.len) (by rw [List.take_take, Nat.min_self]) (by omega)).symm
  unfold arpTryEncryptL2Pqc
  cases made : e.arpCtx.bind fun ctx =>
      l2ArpEncrypt e.aead { ctx with profileId := 0, policyId := 0, wireId := 250 } e.coreIdx
        x.nonce job.buffer job.len with
  | none => exact wanRedirected_of_et length (by rw [Option.getD_none, ← Job.frame, arp]; decide)
  | some frame =>
    obtain ⟨ctx, -, made⟩ := Option.bind_eq_some_iff.mp made
    exact wanRedirected_l2ArpEncrypt fits long et made

/-- A BYPASS policy lets a plain IPv4 packet through that is neither ICMP, TCP, UDP nor OSPF. -/
def SendsOther (e : Edge n) (x : LocalDraws) (job : Job) : Prop :=
  ∃ (t : FiveTuple) (pi : ℕ) (cp : CryptoPolicy) (d : ℕ), dpParseFlow job.frame job.len = some t ∧
    e.pickProfilePolicy (e.ingressLocal job) (some t) = some (pi, cp) ∧ cp.action = .bypass ∧
    x.wanPick t = some d ∧ e.fwdWanHasTxRoom d = true ∧ e.pushCount (.wan d) job.addr < midRingCap ∧
    t.protocol ∉ wanPlainProtocols

/-- The filter at the WAN of the peer takes every frame that the call pushes towards a WAN. -/
def HandedOver (e : Edge n) (x : LocalDraws) (job : Job) : Prop :=
  ∀ map d frame, (d, frame) ∈ wanPushes (e.dataplaneProcessLocal x job) →
    xdpWanRedirectProg (updateWanFakeEthertype map) frame = .redirect

/-- A packet with a flow is no ARP frame. -/
theorem not_arp_of_flow {pkt : Bytes} {len : ℕ} {t : FiveTuple}
    (flow : dpParseFlow pkt len = some t) : ethReadEt pkt 12 ≠ ethPArp := by
  intro arp
  obtain ⟨etOff, found⟩ := ipv4Offset_of_flow flow
  obtain ⟨_, same, inner, -, -⟩ := ipv4Offset_some found
  obtain ⟨known, -, here | ⟨-, tagged⟩⟩ := innerEtOff_cases inner
  · rw [here, arp] at known
    cases known
  · rw [arp] at tagged
    cases tagged

/-- The flow of an untagged packet is read from its IPv4 header. -/
theorem flow_untagged {pkt : Bytes} {len : ℕ} {t : FiveTuple} (flow : dpParseFlow pkt len = some t)
    (ip : ethReadEt pkt 12 = ethPIp) :
    cryptoEthIpv4Offset pkt len = some (12 + 2) ∧ t.protocol = (pkt.getD 23 0).toBitVec := by
  obtain ⟨etOff, found⟩ := ipv4Offset_of_flow flow
  obtain ⟨_, same, inner, -, -⟩ := ipv4Offset_some found
  obtain rfl : etOff = 12 := by
    rcases (innerEtOff_cases inner).2.2 with here | ⟨-, tagged⟩
    · omega
    · rw [ip] at tagged
      cases tagged
  refine ⟨found, ?_⟩
  unfold dpParseFlow at flow
  rw [found] at flow
  dsimp only at flow
  split at flow
  · cases flow
  split at flow
  · split at flow
    · cases flow
    · cases flow
      rfl
  · cases flow
    rfl

/-- Of what the filter at the LAN lets in, the peer takes all that is pushed, but for the plain
packets of other protocols. -/
theorem handed_over_iff (e : Edge n) (x : LocalDraws) (job : Job)
    (admitted : xdpRedirectProg job.frame = .redirect) :
    HandedOver e x job ↔ ¬SendsOther e x job := by
  obtain ⟨long, kind⟩ := redirected_cases admitted
  rw [length_frame] at long
  constructor
  · rintro handed ⟨t, pi, cp, d, flow, picked, bypasses, wan, room, space, other⟩
    have ip := kind.resolve_left (not_arp_of_flow flow)
    have noArp : dpPktIsArp job.frame = false := by
      rw [dpPktIsArp, if_neg (by omega), ip.1]
      rfl
    have pushed := pushes_of_bypass noArp flow picked bypasses wan room space
    have taken := (wanRedirected_ipv4_iff ip.2 ip.1).mp (handed (fun _ => 0) d job.frame pushed)
    rw [(flow_untagged flow ip.1).2] at other
    exact other taken
  · intro kept map d frame pushed
    cases pushedFromLocal_of_mem pushed with
    | arp isArp made =>
      have arp : ethReadEt job.frame 12 = ethPArp := by
        rcases kind with arp | ⟨ip, -⟩
        · exact arp
        · rw [dpPktIsArp, length_frame, if_neg (by omega), ip] at isArp
          cases isArp
      rw [made]
      exact wanRedirected_arp long arp
    | bypass flow picked bypasses wan room space whole =>
      rw [whole]
      rcases kind with arp | ⟨ip, tall⟩
      · exact wanRedirected_of_et ((length_frame job).symm ▸ long) (by rw [arp]; decide)
      · refine (wanRedirected_ipv4_iff tall ip).mpr ?_
        rw [← (flow_untagged flow ip).2]
        exact not_not.mp fun other =>
          kept ⟨_, _, _, _, flow, picked, bypasses, wan, room, space, other⟩
    | encrypted flow picked encrypts loaded encoded =>
      obtain ⟨ip, tall⟩ := kind.resolve_left (not_arp_of_flow flow)
      have hdr : (job.frame.take 12).length = 12 := by
        rw [List.length_take]
        omega
      exact wanRedirected_of_sealed (encoded.sealed (flow_untagged flow ip).1) hdr

end Edge

/-! ## GRE under a BYPASS policy -/

/-- A GRE packet from 10.0.0.5 to 192.0.2.1. -/
def grePacket : Bytes :=
  [2, 0, 0, 0, 0, 1, 2, 0, 0, 0, 0, 2, 0x08, 0x00, 0x45, 0, 0, 20, 0, 0, 0, 0, 64, 47, 0, 0,
    10, 0, 0, 5, 192, 0, 2, 1]

def greJob : Job where
  addr := 4096
  buffer := grePacket ++ List.replicate 2014 0
  len := 34
  localIdx := 0
  wanIdx := 0
  size := by rw [List.length_append, List.length_replicate]; rfl
  fits := by decide

/-- One LAN and one WAN under a BYPASS policy for every packet. -/
def bypassEdge : Edge 1 where
  cfg :=
    { cryptoEnabled := true
      profiles := [⟨1, [0], true⟩]
      policies := [⟨0, 1, 10, .bypass, 0, -1, -1, -1, -1, true, true, false, false, 0, 0, 0, 0⟩] }
  profile := ⟨true, [0], [0], [(0, 0)]⟩
  rt := .initial
  nowMs := 0
  worker := none
  coreIdx := 0
  aead := sampleAead
  fragMtu := cryptoOptFragMtuDefault
  locals := ["lan0"]
  cfgLocals := ["lan0"]
  localLive := fun _ => true
  wanCount := 1
  wanCfgIdx := fun _ => 0
  wanDpToCfg := fun _ => some 0
  wanLive := fun _ => true
  wanStopped := fun _ => false
  wanExcluded := fun _ => false
  ringCount := fun _ => 0
  pushCount := fun _ _ => 0
  wanDepth := fun _ => 0
  mac := ⟨fun _ _ => false, fun _ => false, fun _ => none⟩
  arpCtx := none
  reorder := ⟨true, 0⟩

def bypassDraws : LocalDraws := ⟨fun _ => some 0, none, none, none, none⟩

theorem handed_over_iff_gre :
    Edge.HandedOver bypassEdge bypassDraws greJob ↔
      ¬Edge.SendsOther bypassEdge bypassDraws greJob :=
  Edge.handed_over_iff bypassEdge bypassDraws greJob (by decide)

/-- The filter at the LAN takes the GRE packet, and that of the peer leaves it to the kernel. -/
theorem gre_passed_at_peer :
    xdpRedirectProg greJob.frame = .redirect ∧
      (0, greJob.frame) ∈ wanPushes (bypassEdge.dataplaneProcessLocal bypassDraws greJob) ∧
      xdpWanRedirectProg (updateWanFakeEthertype fun _ => 0) greJob.frame = .pass ∧
      ¬Edge.HandedOver bypassEdge bypassDraws greJob := by
  have pushed : (0, greJob.frame) ∈
      wanPushes (bypassEdge.dataplaneProcessLocal bypassDraws greJob) := by decide +kernel
  have passed : xdpWanRedirectProg (updateWanFakeEthertype fun _ => 0) greJob.frame = .pass := by
    decide +kernel
  refine ⟨by decide +kernel, pushed, passed, fun handed => ?_⟩
  have taken := handed (fun _ => 0) 0 greJob.frame pushed
  rw [passed] at taken
  cases taken

end NeEncryptor
