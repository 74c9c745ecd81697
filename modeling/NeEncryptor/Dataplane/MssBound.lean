import NeEncryptor.Dataplane.PeerFilter
import NeEncryptor.Dataplane.WanDelivery
import NeEncryptor.Forwarder.WanConfig

/-!
# The segment size of TCP and the MTU

`resolve_runtime_frag_mtu` of `forwarder.c`, and the SYNs of both directions: they are clamped for
an MTU of 1500, whatever MTU the WANs have.
-/

namespace NeEncryptor

open Buffer Custody

/-- One WAN in the loop of `resolve_runtime_frag_mtu`; `mtuOf` is what `SIOCGIFMTU` answers. -/
def fragMtuStep (mtuOf : String → Option ℤ) (minMtu : ℤ) (wan : Wan.WanConfig) : ℤ :=
  if !wan.dataplane then minMtu
  else
    match mtuOf wan.ifname with
    | none => minMtu
    | some mtu => if 0 < mtu ∧ mtu < minMtu then mtu else minMtu

/-- `resolve_runtime_frag_mtu`; `opened` says whether there is a socket to ask with. -/
def resolveRuntimeFragMtu (opened : Bool) (mtuOf : String → Option ℤ) (cfg : Wan.AppConfig) :
    UInt32 :=
  if !opened then cryptoOptFragMtuDefault
  else UInt32.ofNat (cfg.wans.foldl (fragMtuStep mtuOf) 1500).toNat

/-- `forwarder_init` stored the MTU. -/
def InitMtu (opened : Bool) (mtuOf : String → Option ℤ) (cfg : Wan.AppConfig) (fragMtu : UInt32) :
    Prop :=
  fragMtu = cryptoOptionSetMtu (resolveRuntimeFragMtu opened mtuOf cfg)

theorem fragMtuStep_bounds (mtuOf : String → Option ℤ) {minMtu : ℤ} (wan : Wan.WanConfig)
    (positive : 0 < minMtu) (most : minMtu ≤ 1500) :
    0 < fragMtuStep mtuOf minMtu wan ∧ fragMtuStep mtuOf minMtu wan ≤ 1500 := by
  unfold fragMtuStep
  split
  · exact ⟨positive, most⟩
  split
  · exact ⟨positive, most⟩
  split
  · omega
  · exact ⟨positive, most⟩

theorem foldl_fragMtuStep_bounds (mtuOf : String → Option ℤ) (wans : List Wan.WanConfig)
    {minMtu : ℤ} (positive : 0 < minMtu) (most : minMtu ≤ 1500) :
    0 < wans.foldl (fragMtuStep mtuOf) minMtu ∧
      wans.foldl (fragMtuStep mtuOf) minMtu ≤ 1500 := by
  induction wans generalizing minMtu with
  | nil => exact ⟨positive, most⟩
  | cons wan wans ih =>
    obtain ⟨positive, most⟩ := fragMtuStep_bounds mtuOf wan positive most
    exact ih positive most

/-- No WAN raises the MTU above the default. -/
theorem getMtu_init {opened : Bool} {mtuOf : String → Option ℤ} {cfg : Wan.AppConfig}
    {fragMtu : UInt32} (init : InitMtu opened mtuOf cfg fragMtu) :
    (cryptoOptionGetMtu fragMtu).toNat ≤ 1500 := by
  have resolved : (resolveRuntimeFragMtu opened mtuOf cfg).toNat ≤ 1500 := by
    unfold resolveRuntimeFragMtu
    split
    · decide
    · obtain ⟨-, most⟩ :=
        foldl_fragMtuStep_bounds mtuOf cfg.wans (by decide : (0 : ℤ) < 1500) (by decide)
      rw [UInt32.toNat_ofNat']
      omega
  rw [init, getMtu_setMtu]
  omega

/-! ## The bound -/

namespace SynHeader

variable {h : SynHeader} {pkt : Bytes} {pktLen : ℕ}

/-- Segments of the size that a SYN offers fit the MTU when they are encrypted: 30 is
`crypto_option_wire_overhead`. -/
def Fits (h : SynHeader) (mtu : ℕ) (pkt : Bytes) : Prop :=
  ∀ optOff, h.mss pkt = some optOff → h.mssValue pkt optOff ≤ max 536 (mtu - h.ihl - 20 - 30)

theorem ihl_le (syn : synHeader pkt pktLen = .ok h) : h.ihl ≤ 60 := by
  unfold synHeader at syn
  split at syn
  · cases syn
  · rename_i l3Off _
    have low : (pkt.getD l3Off 0 &&& 0x0F).toNat ≤ 15 := by
      rw [UInt8.toNat_and]
      exact Nat.and_le_right
    split at syn
    · cases syn
    split at syn
    · cases syn
    split at syn
    · cases syn
    dsimp only at syn
    split at syn
    · cases syn
    split at syn
    · cases syn
    split at syn
    · cases syn
    · cases syn
      dsimp only
      omega

/-- The walk over the options reads nothing behind the kind and the length of the one it finds. -/
theorem mssOption_congr {pkt' : Bytes} {tcp optEnd fuel off optOff : ℕ}
    (found : mssOption pkt tcp optEnd fuel off = some optOff)
    (same : ∀ i, off ≤ i → i ≤ optOff + 1 → pkt'.getD (tcp + i) 0 = pkt.getD (tcp + i) 0) :
    mssOption pkt' tcp optEnd fuel off = some optOff := by
  induction fuel generalizing off with
  | zero => cases found
  | succ fuel ih =>
    have later := (mssOption_some found).1
    have kind := same off le_rfl (by omega)
    have olen := same (off + 1) (by omega) (by omega)
    rw [← Nat.add_assoc] at olen
    rw [mssOption] at found ⊢
    rw [kind, olen]
    split at found
    · rename_i inside
      rw [if_pos inside]
      dsimp only at found ⊢
      split at found
      · cases found
      rename_i notEnd
      rw [if_neg notEnd]
      split at found
      · rename_i nop
        rw [if_pos nop]
        exact ih found fun i low high => same i (by omega) high
      rename_i notNop
      rw [if_neg notNop]
      split at found
      · cases found
      rename_i proper
      rw [if_neg proper]
      split at found
      · rename_i isMss
        rw [if_pos isMss]
        exact found
      · rename_i other
        rw [if_neg other]
        exact ih found fun i low high => same i (by omega) high
    · cases found

/-- The clamp leaves the option where it is. -/
theorem mss_clampWrites {optOff oldMss newMss : ℕ} (found : h.mss pkt = some optOff)
    (room : Room pkt h.tcp optOff) :
    h.mss (clampWrites pkt h.tcp optOff oldMss newMss) = some optOff :=
  mssOption_congr found fun i low high => getD_clampWrites_of_ne room (by omega)

/-- What the clamp for the default MTU is worth for a smaller one: nothing, unless the SYN offered
little anyway. -/
theorem fits_clamp_iff {mtu : ℕ} (most : mtu ≤ 1500) (fits : pktLen ≤ pkt.length)
    (syn : synHeader pkt pktLen = .ok h) :
    h.Fits mtu (cryptoTcpClampMss pkt pktLen cryptoOptFragMtuDefault 30).1 ↔
      h.Fits mtu pkt ∨ mtu = 1500 := by
  obtain ⟨ihlLow, -, -, inside⟩ := synHeader_ok syn
  have ihlHigh := ihl_le syn
  have default : cryptoOptFragMtuDefault.toNat = 1500 := rfl
  have wire : (h.wire 30).toNat = h.ihl + 50 := by
    have thirty : (30 : UInt32).toNat = 30 := rfl
    rw [wire_toNat, thirty]
    omega
  have room : h.wire 30 < cryptoOptFragMtuDefault := by
    rw [UInt32.lt_iff_toNat_lt]
    omega
  have cap : h.mssCap cryptoOptFragMtuDefault 30 = 1450 - h.ihl := by
    rw [mssCap_eq room]
    omega
  by_cases lowered : ∃ optOff, h.Lowers pkt cryptoOptFragMtuDefault 30 optOff
  · obtain ⟨optOff, lowers⟩ := lowered
    obtain ⟨low, high⟩ := mssOption_some lowers.found
    have above := lowers.above
    have writes : Room pkt h.tcp optOff := ⟨low, by omega⟩
    have value : ethReadEt (clampWrites pkt h.tcp optOff (h.mssValue pkt optOff) (1450 - h.ihl))
        (h.tcp + optOff + 2) = 1450 - h.ihl := ethReadEt_clampWrites_mss _ writes (by omega)
    rw [cap] at above
    rw [clamp_of_lowers fits syn lowers, cap]
    constructor
    · intro small
      have bound := small optOff (mss_clampWrites lowers.found writes)
      rw [mssValue, value] at bound
      exact .inr (by omega)
    · rintro (small | rfl)
      · have bound := small optOff lowers.found
        omega
      · intro o found
        obtain rfl := Option.some.inj ((mss_clampWrites lowers.found writes).symm.trans found)
        rw [mssValue, value]
        omega
  · rw [clamp_of_not_lowers syn fun optOff lowers => lowered ⟨optOff, lowers⟩]
    refine ⟨.inl, fun either => either.elim id ?_⟩
    rintro rfl optOff found
    by_contra above
    exact lowered ⟨optOff, by decide, room, found, by rw [cap]; omega⟩

end SynHeader

/-! ## The two directions -/

theorem protocol_of_flow {pkt : Bytes} {len l3Off : ℕ} {t : FiveTuple}
    (flow : dpParseFlow pkt len = some t) (ip : cryptoEthIpv4Offset pkt len = some l3Off) :
    t.protocol = (pkt.getD (l3Off + 9) 0).toBitVec := by
  unfold dpParseFlow at flow
  rw [ip] at flow
  dsimp only at flow
  split at flow
  · cases flow
  split at flow
  · split at flow
    · cases flow
    · cases flow
      rfl
  · cases flow
    rfl

/-- The clamp leaves the protocol of a packet as it is. -/
theorem protocol_clamp {pkt : Bytes} {t t' : FiveTuple} (pathMtu wireOverhead : UInt32)
    (flow : dpParseFlow pkt pkt.length = some t)
    (flow' : dpParseFlow (cryptoTcpClampMss pkt pkt.length pathMtu wireOverhead).1
      (cryptoTcpClampMss pkt pkt.length pathMtu wireOverhead).1.length = some t') :
    t'.protocol = t.protocol := by
  obtain ⟨etOff, ip⟩ := Edge.ipv4Offset_of_flow flow
  obtain ⟨_, same, inner, -, -⟩ := ipv4Offset_some ip
  have place := (innerEtOff_cases inner).2.2
  have kept : (cryptoTcpClampMss pkt pkt.length pathMtu wireOverhead).1.take 34 = pkt.take 34 :=
    take_clamp pathMtu wireOverhead le_rfl
  have start := congrArg (List.take 18) kept
  rw [List.take_take, List.take_take] at start
  have ip' := ipv4Offset_congr ip start
  rw [length_clamp pathMtu wireOverhead le_rfl] at flow'
  rw [protocol_of_flow flow ip, protocol_of_flow flow' ip']
  have byte := congrArg (List.getD · (etOff + 2 + 9) 0) kept
  simp only [List.getD_eq_getElem?_getD] at byte ⊢
  rw [List.getElem?_take_of_lt (by omega), List.getElem?_take_of_lt (by omega)] at byte
  rw [byte]

/-- A packet that parses is no ARP packet. -/
theorem dpPktIsArp_of_flow {pkt : Bytes} {len : ℕ} {t : FiveTuple}
    (flow : dpParseFlow pkt len = some t) : dpPktIsArp pkt = false := by
  obtain ⟨etOff, ip⟩ := Edge.ipv4Offset_of_flow flow
  obtain ⟨_, same, inner, et, -⟩ := ipv4Offset_some ip
  obtain rfl := Nat.add_right_cancel same
  obtain ⟨known, -, rfl | ⟨rfl, tagged⟩⟩ := innerEtOff_cases inner
  · rw [dpPktIsArp, et]
    split
    · rfl
    · rfl
  · rw [dpPktIsArp, tagged, et]
    split
    · rfl
    · rw [if_pos rfl]
      exact Bool.and_false _

namespace Edge

variable {n : ℕ} (e : Edge n)

/-- A SYN from a LAN, of a flow under an encrypt policy. -/
structure LanSyn (job : Job) (t : FiveTuple) (h : SynHeader) : Prop where
  flow : dpParseFlow job.frame job.len = some t
  tcp : t.protocol = 6
  governed : ∃ pi cp, e.pickProfilePolicy (e.ingressLocal job) (some t) = some (pi, cp) ∧
    cp.action ≠ .bypass
  syn : synHeader job.buffer job.len = .ok h

/-- A SYN that a frame from a WAN is decrypted to, of a flow under an encrypt policy: that is
selected for the direction from the LAN to the WAN. -/
structure WanSyn (y : WanDraws) (st : WanState) (job : Job) (packet : Bytes) (t : FiveTuple)
    (h : SynHeader) : Prop where
  data : (cryptoEthL2HasArpMarker job.frame || dpPktIsArp job.frame) = false
  encrypted : e.wireIsEncrypted job.frame = true
  decrypted : ∃ rx ft ids, e.rx = some rx ∧
    rx.decryptWan e.aead st.ft y.optNowNs job.frame = (ft, .plain packet ids)
  flow : dpParseFlow packet packet.length = some t
  tcp : t.protocol = 6
  governed :
    (configSelectCryptoPolicy e.cfg 0 t.reversed).any (fun cp => cp.action != .bypass) = true
  syn : synHeader packet packet.length = .ok h

/-- The policy that `wan_clamp_tcp_mss` looks at encrypts: it is selected for the direction of the
packet. -/
def GovernedAsWan (t : FiveTuple) : Prop :=
  e.cfg.profiles.isEmpty = false ∧ e.profile.enabled = true ∧
    (configSelectCryptoPolicy e.cfg 0 t).any (fun cp => cp.action != .bypass) = true

/-- The bytes that the encoder seals for a LAN are those that `egressBuffer` left, and TCP is never
split. -/
theorem encoded_of_lanSyn {x : LocalDraws} {job : Job} {t : FiveTuple} {h : SynHeader} {d : ℕ}
    {frame : Bytes} (lan : e.LanSyn job t h)
    (pushed : (d, frame) ∈ wanPushes (e.dataplaneProcessLocal x job)) :
    ∃ ctx, l2TcpEncrypt e.aead ctx e.coreIdx x.nonce (egressBuffer job 6) job.len = some frame := by
  obtain ⟨pi, cp, picked, encrypts⟩ := lan.governed
  cases pushedFromLocal_of_mem pushed with
  | arp isArp =>
    rw [dpPktIsArp_of_flow lan.flow] at isArp
    cases isArp
  | bypass flow picked' bypasses =>
    obtain rfl := Option.some.inj (lan.flow.symm.trans flow)
    obtain ⟨-, rfl⟩ := Prod.mk.inj (Option.some.inj (picked.symm.trans picked'))
    exact absurd bypasses encrypts
  | encrypted flow picked' _ loaded encoded =>
    obtain rfl := Option.some.inj (lan.flow.symm.trans flow)
    rw [lan.tcp] at encoded
    cases encoded with
    | whole _ made => exact ⟨_, made⟩
    | part udp => cases udp

section

variable {e} {y : WanDraws} {st : WanState} {job : Job} {packet frame : Bytes} {t : FiveTuple}
  {h : SynHeader}

theorem wanClampTcpMss_eq (flow : dpParseFlow packet packet.length = some t)
    (tcp : t.protocol = 6) (governed : e.GovernedAsWan t) :
    e.wanClampTcpMss packet =
      (cryptoTcpClampMss packet packet.length cryptoOptFragMtuDefault 30).1 := by
  obtain ⟨present, enabled, encrypts⟩ := governed
  rw [wanClampTcpMss, flow, Option.any_some, present, enabled, encrypts, tcp]
  rfl

theorem wanClampTcpMss_eq_self (flow : dpParseFlow packet packet.length = some t)
    (other : ¬e.GovernedAsWan t) : e.wanClampTcpMss packet = packet := by
  rw [wanClampTcpMss, flow, Option.any_some]
  refine if_neg ?_
  intro clamps
  simp only [Bool.and_eq_true, Bool.not_eq_true'] at clamps
  exact other ⟨clamps.1.1, clamps.1.2, clamps.2.2⟩

/-- What a LAN gets of a SYN is what `wan_clamp_tcp_mss` left. -/
theorem delivered_of_wanSyn {a : FrameAddr} {ring : MidRing} (wan : e.WanSyn y st job packet t h)
    (pushed : .release a (.ring ring frame) ∈ (e.dataplaneProcessWan y st job).2.1) :
    frame = e.wanClampTcpMss packet := by
  obtain ⟨rx, ft, ids, worker, made⟩ := wan.decrypted
  cases pushedFromWan_of_mem pushed with
  | arp isArp =>
    rw [wan.data] at isArp
    cases isArp
  | plain _ clear =>
    rw [wan.encrypted] at clear
    cases clear
  | decrypted _ _ worker' made' _ _ delivered =>
    obtain rfl := Option.some.inj (worker.symm.trans worker')
    obtain ⟨rfl, same⟩ := Prod.mk.inj (made.symm.trans made')
    obtain ⟨rfl, rfl⟩ := WanResult.plain.inj same
    cases delivered with
    | itself _ same => exact same
    | @released _ _ _ t' _ _ flow udp =>
      dsimp only at flow
      have tcp : t'.protocol = t.protocol := by
        by_cases governed : e.GovernedAsWan t
        · rw [wanClampTcpMss_eq wan.flow wan.tcp governed] at flow
          exact protocol_clamp _ _ wan.flow flow
        · rw [wanClampTcpMss_eq_self wan.flow governed] at flow
          exact congrArg FiveTuple.protocol (Option.some.inj (flow.symm.trans wan.flow))
      rw [udp, wan.tcp] at tcp
      cases tcp

end

/-- A SYN from a LAN leaves with a segment size that fits the MTU just when it came with one, or the
MTU is 1500; towards a LAN the policy has to be selected for the packet as it is, too. -/
theorem mss_fits_iff {opened : Bool} {mtuOf : String → Option ℤ} {cfg : Wan.AppConfig}
    (init : InitMtu opened mtuOf cfg e.fragMtu) :
    let mtu := (cryptoOptionGetMtu e.fragMtu).toNat
    (∀ (job : Job) (t : FiveTuple) (h : SynHeader), e.LanSyn job t h →
      (h.Fits mtu (egressBuffer job 6) ↔ h.Fits mtu job.buffer ∨ mtu = 1500) ∧
        ∀ (x : LocalDraws) (d : ℕ) (frame : Bytes),
          (d, frame) ∈ wanPushes (e.dataplaneProcessLocal x job) →
          ∃ ctx, l2TcpEncrypt e.aead ctx e.coreIdx x.nonce (egressBuffer job 6) job.len =
            some frame) ∧
      ∀ (y : WanDraws) (st : WanState) (job : Job) (packet : Bytes) (t : FiveTuple) (h : SynHeader),
        e.WanSyn y st job packet t h →
        ∀ (a : FrameAddr) (ring : MidRing) (frame : Bytes),
          .release a (.ring ring frame) ∈ (e.dataplaneProcessWan y st job).2.1 →
          (h.Fits mtu frame ↔ h.Fits mtu packet ∨ mtu = 1500 ∧ e.GovernedAsWan t) := by
  intro mtu
  have most : mtu ≤ 1500 := getMtu_init init
  refine ⟨fun job t h lan => ⟨?_, fun x d frame pushed => e.encoded_of_lanSyn lan pushed⟩, ?_⟩
  · exact SynHeader.fits_clamp_iff most (job.size.symm ▸ job.fits) lan.syn
  · intro y st job packet t h wan a ring frame pushed
    rw [delivered_of_wanSyn wan pushed]
    by_cases governed : e.GovernedAsWan t
    · rw [wanClampTcpMss_eq wan.flow wan.tcp governed,
        SynHeader.fits_clamp_iff most le_rfl wan.syn, and_iff_left governed]
    · rw [wanClampTcpMss_eq_self wan.flow governed]
      exact ⟨.inl, fun either => either.resolve_right fun both => governed both.2⟩

end Edge

/-! ## A SYN in each direction -/

/-- Port 40000 to port 80, with an MSS of 1460. -/
def synBytes (src dst : Bytes) : Bytes :=
  [2, 0, 0, 0, 0, 1, 2, 0, 0, 0, 0, 2, 8, 0, 69, 0, 0, 44, 0, 0, 64, 0, 64, 6, 0, 0] ++ src ++
    dst ++ [156, 64, 0, 80, 0, 0, 0, 1, 0, 0, 0, 0, 96, 2, 250, 240, 53, 249, 0, 0, 2, 4, 5, 180]

def lanHost : Bytes := [10, 0, 0, 1]

def wanHost : Bytes := [192, 168, 0, 2]

def paddedJob (frame : Bytes) (len : ℕ) (fits : len ≤ neFrame) : Job where
  addr := 4096
  buffer := (frame ++ List.replicate neFrame 0).take neFrame
  len := len
  localIdx := 0
  wanIdx := 0
  size := by
    rw [List.length_take, List.length_append, List.length_replicate]
    exact Nat.min_eq_left (Nat.le_add_left ..)
  fits := fits

def lanSynJob : Job := paddedJob (synBytes lanHost wanHost) 58 (by decide)

/-- The policy of the LAN, for packets from 10.0.0.0/8. -/
def lanPolicy : CryptoPolicy :=
  ⟨5, 10, 0, .encryptL2, 0, -1, -1, -1, -1, false, true, false, false, 0x0A000000, 0xFF000000, 0, 0⟩

/-- The policy for all packets. -/
def anyPolicy (wireId : ℤ) : CryptoPolicy := { lanPolicy with id := wireId, srcAny := true }

def lanPolicyCtx : PacketCryptoCtx :=
  { sampleReady with policyId := 10, wireId := 5, profileId := 1 }

def sampleWan : Wan.AppConfig := ⟨["lan0"], [⟨"wan0", true⟩], [], by decide⟩

/-- One LAN and one WAN with an MTU. -/
def mssEdge (mtu : ℤ) : Edge 1 :=
  { bypassEdge with
    cfg := ⟨true, [⟨1, [0], false⟩], [lanPolicy]⟩
    rt :=
      { (CryptoRuntime.initial : CryptoRuntime 1) with
        active := ⟨[⟨lanPolicy, some lanPolicyCtx⟩], fun w => if w = 5 then some 0 else none,
          fun _ => 1⟩
        workers := fun _ => ⟨[⟨lanPolicy, some lanPolicyCtx⟩], [], some 1⟩ }
    worker := some 0
    fragMtu := cryptoOptionSetMtu (resolveRuntimeFragMtu true (fun _ => some mtu) sampleWan)
    mac := ⟨fun _ _ => false, fun _ => false, fun _ => some 0⟩ }

def mssDraws : LocalDraws := ⟨fun _ => some 0, none, none, some (Vector.replicate 12 8), none⟩

def wanSynJob : Job :=
  paddedJob ((l2TcpEncrypt sampleAead lanPolicyCtx 0 (some (Vector.replicate 12 8))
    (synBytes wanHost lanHost) 58).getD []) 88 (by decide)

def mssWanDraws : WanDraws := ⟨fun _ => none, 0, 0⟩

def freshWanState : WanState := ⟨fun _ => .zero, .initial⟩

/-- The flow of the SYN from the LAN, and of the one from the WAN. -/
def lanSynFlow : FiveTuple := ⟨0x0A000001, 0xC0A80002, 40000, 80, 6⟩

def wanSynFlow : FiveTuple := ⟨0xC0A80002, 0x0A000001, 40000, 80, 6⟩

theorem initMtu_mss (mtu : ℤ) :
    InitMtu true (fun _ => some mtu) sampleWan (mssEdge mtu).fragMtu := rfl

theorem mss_fits_iff_default :
    SynHeader.Fits ⟨14, 20, 24⟩ (cryptoOptionGetMtu (mssEdge 1500).fragMtu).toNat
      (Edge.egressBuffer lanSynJob 6) := by
  have lan : (mssEdge 1500).LanSyn lanSynJob lanSynFlow ⟨14, 20, 24⟩ :=
    ⟨by decide +kernel, rfl, ⟨0, lanPolicy, by decide +kernel, by decide⟩, by decide +kernel⟩
  have fits := ((mssEdge 1500).mss_fits_iff (initMtu_mss 1500)).1 lanSynJob lanSynFlow
    ⟨14, 20, 24⟩ lan
  exact fits.1.mpr (.inr (by decide +kernel))

/-- A SYN from the LAN leaves with an MSS of 1430 where the MTU of the WAN is 1400; and a SYN to the
LAN comes with 1460, because no policy is selected for packets from the WAN. -/
theorem syn_exceeds_mtu :
    (InitMtu true (fun _ => some 1400) sampleWan (mssEdge 1400).fragMtu ∧
      (cryptoOptionGetMtu (mssEdge 1400).fragMtu).toNat = 1400 ∧
      (mssEdge 1400).LanSyn lanSynJob lanSynFlow ⟨14, 20, 24⟩ ∧
      wanPushes ((mssEdge 1400).dataplaneProcessLocal mssDraws lanSynJob) ≠ [] ∧
      ¬SynHeader.Fits ⟨14, 20, 24⟩ 1400 (Edge.egressBuffer lanSynJob 6)) ∧
    InitMtu true (fun _ => some 1500) sampleWan (mssEdge 1500).fragMtu ∧
      (cryptoOptionGetMtu (mssEdge 1500).fragMtu).toNat = 1500 ∧
      (mssEdge 1500).WanSyn mssWanDraws freshWanState wanSynJob (synBytes wanHost lanHost)
        wanSynFlow ⟨14, 20, 24⟩ ∧
      .release 4096 (.ring (.lan 0) (synBytes wanHost lanHost)) ∈
        ((mssEdge 1500).dataplaneProcessWan mssWanDraws freshWanState wanSynJob).2.1 ∧
      ¬SynHeader.Fits ⟨14, 20, 24⟩ 1500 (synBytes wanHost lanHost) := by
  have lan : (mssEdge 1400).LanSyn lanSynJob lanSynFlow ⟨14, 20, 24⟩ :=
    ⟨by decide +kernel, rfl, ⟨0, lanPolicy, by decide +kernel, by decide⟩, by decide +kernel⟩
  have wan : (mssEdge 1500).WanSyn mssWanDraws freshWanState wanSynJob
      (synBytes wanHost lanHost) wanSynFlow ⟨14, 20, 24⟩ :=
    ⟨by decide +kernel, by decide +kernel, ⟨_, _, none, rfl, Prod.ext rfl (by decide +kernel)⟩,
      by decide +kernel, rfl, by decide +kernel, by decide +kernel⟩
  refine ⟨⟨initMtu_mss 1400, by decide +kernel, lan, by decide +kernel, fun fits => ?_⟩,
    initMtu_mss 1500, by decide +kernel, wan, by decide +kernel, fun fits => ?_⟩
  · exact absurd (fits 20 (by decide +kernel)) (by decide +kernel)
  · exact absurd (fits 20 (by decide +kernel)) (by decide +kernel)

end NeEncryptor
