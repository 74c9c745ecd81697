import NeEncryptor.Crypto.SplitMtu
import NeEncryptor.Crypto.TcpClamp
import NeEncryptor.Dataplane.ReloadGrace
import NeEncryptor.Dataplane.ReorderRuns
import NeEncryptor.Lib.Custody

/-!
# What the edges of the dataplane find

The forwarder as one call of `dataplane_process_local` or of `dataplane_process_wan` sees it, the
frames it handles, and the parsers of `packet_util.c` and the lookups of `arp_bridge.c` and
`mac_learn.c` that it uses.
-/

namespace NeEncryptor

open Buffer Custody

/-- The address of a frame of the UMEM. -/
abbrev FrameAddr := ℕ

/-- A ring of `mid_to_wan` or of `mid_to_local`, at the index that the thread is bound to. -/
inductive MidRing
  | wan (d : ℕ)
  | lan (li : ℕ)
  deriving DecidableEq, Repr

/-- Where a frame goes that a call gives up. -/
inductive Exit
  | pool
  | ring (ring : MidRing) (frame : Bytes)
  /-- Held by a slot of the reordering. -/
  | reorder
  deriving DecidableEq, Repr

/-- What a call does to a frame. -/
abbrev FrameEvent := Event FrameAddr Exit

/-- A `struct ne_packet` with the bytes of its place in the UMEM. -/
structure Job where
  addr : FrameAddr
  buffer : Bytes
  len : ℕ
  localIdx : ℕ
  wanIdx : ℕ
  size : buffer.length = neFrame
  fits : len ≤ neFrame

/-- The bytes of the packet. -/
def Job.frame (job : Job) : Bytes := job.buffer.take job.len

/-- `struct profile_config`, as far as the edges read it; a bridge is a LAN with its WAN. -/
structure EdgeProfile where
  enabled : Bool
  localIndices : List ℤ
  wanIndices : List ℤ
  bridges : List (ℤ × ℤ)

/-- The MAC table of `mac_learn.c`, by its answers. -/
structure MacView where
  relayRecent : Bytes → BitVec 32 → Bool
  isAppliance : Bytes → Bool
  lookup : Bytes → Option ℕ

/-- What a thread finds when it processes a frame. -/
structure Edge (n : ℕ) where
  cfg : AppConfig
  /-- The profile at place 0 of the configuration. -/
  profile : EdgeProfile
  rt : CryptoRuntime n
  nowMs : ℕ
  /-- `dp_crypto_current_worker_idx`. -/
  worker : Option (Fin n)
  /-- `crypto_option_worker_idx`. -/
  coreIdx : UInt8
  aead : Aead
  fragMtu : UInt32
  /-- `fwd->locals` up to `local_count`, by name. -/
  locals : List String
  cfgLocals : List String
  localLive : ℕ → Bool
  wanCount : ℕ
  wanCfgIdx : ℕ → ℤ
  /-- `config_wan_dp_to_cfg`. -/
  wanDpToCfg : ℕ → Option ℤ
  wanLive : ℕ → Bool
  wanStopped : ℕ → Bool
  /-- `wan_failover_dp_excluded`. -/
  wanExcluded : ℕ → Bool
  /-- `ne_ring_count`, as the thread reads it. -/
  ringCount : MidRing → ℕ
  /-- What the push of a frame finds in the ring: other threads push on it too. -/
  pushCount : MidRing → FrameAddr → ℕ
  /-- `fwd_mid_to_wan_depth`. -/
  wanDepth : ℕ → ℕ
  mac : MacView
  /-- `g_arp_crypto_ctx`, once it is ready. -/
  arpCtx : Option PacketCryptoCtx
  reorder : Reorder.Settings

/-- `NE_RING`, the capacity of the rings. -/
def midRingCap : ℕ := 16384

/-! ## Packets -/

/-- `dp_parse_flow`. -/
def dpParseFlow (pkt : Bytes) (pktLen : ℕ) : Option FiveTuple :=
  match cryptoEthIpv4Offset pkt pktLen with
  | none => none
  | some l3Off =>
    let ihl := (pkt.getD l3Off 0).toNat % 16 * 4
    let proto := (pkt.getD (l3Off + 9) 0).toBitVec
    let l4 := l3Off + ihl
    if ihl < 20 ∨ pktLen < l4 then none
    else if proto = 6 ∨ proto = 17 then
      if pktLen < l4 + 4 then none
      else some ⟨readBe32 pkt (l3Off + 12), readBe32 pkt (l3Off + 16),
        .ofNat 16 (ethReadEt pkt l4), .ofNat 16 (ethReadEt pkt (l4 + 2)), proto⟩
    else some ⟨readBe32 pkt (l3Off + 12), readBe32 pkt (l3Off + 16), 0, 0, proto⟩

/-- `arp_payload_offset`. -/
def arpPayloadOffset (pkt : Bytes) : Option ℕ :=
  if pkt.length < 42 then none
  else if ethReadEt pkt 12 = ethP8021q then
    if pkt.length < 46 then none else some 18
  else some 14

/-- `dp_parse_arp_ips`. -/
def dpParseArpIps (pkt : Bytes) : Option (BitVec 32 × BitVec 32) :=
  match arpPayloadOffset pkt with
  | none => none
  | some off =>
    if slice pkt off 6 ≠ [0x00, 0x01, 0x08, 0x00, 6, 4] then none
    else some (readBe32 pkt (off + 14), readBe32 pkt (off + 24))

/-- `dp_parse_arp_op`. -/
def dpParseArpOp (pkt : Bytes) : Option ℕ :=
  (arpPayloadOffset pkt).map fun off => ethReadEt pkt (off + 6)

/-- The destination and the source MAC. -/
def dmacOf (pkt : Bytes) : Bytes := pkt.take 6

def smacOf (pkt : Bytes) : Bytes := slice pkt 6 6

/-- `arp_eth_dmac_is_broadcast`. -/
def arpEthDmacIsBroadcast (pkt : Bytes) : Bool :=
  decide (14 ≤ pkt.length) && dmacOf pkt == List.replicate 6 0xFF

namespace Edge

variable {n : ℕ} (e : Edge n)

/-- `dp_ring_push`, with what it returns: the frame goes back to the pool where there is no room. -/
def dpRingPush (ring : MidRing) (addr : FrameAddr) (frame : Bytes) : List FrameEvent × Bool :=
  if frame.length > neFrame ∨ midRingCap ≤ e.pushCount ring addr then ([.release addr .pool], false)
  else ([.release addr (.ring ring frame)], true)

/-- `fwd_wan_has_tx_room`. -/
def fwdWanHasTxRoom (d : ℕ) : Bool :=
  decide (d < e.wanCount) && decide (e.ringCount (.wan d) + 64 < midRingCap)

/-- The LAN port has the name of a configured one. -/
def namedAs (fwdLi : ℕ) (ci : ℤ) : Bool :=
  0 ≤ ci && (e.locals[fwdLi]?).any fun ifname =>
    ifname != "" && e.cfgLocals[ci.toNat]? == some ifname

/-- `profile_pi_for_fwd_local` finds the profile. -/
def profilePiForFwdLocal (fwdLi : ℕ) : Bool :=
  !e.cfg.profiles.isEmpty && e.profile.enabled && e.profile.localIndices.any (e.namedAs fwdLi)

/-- `profile_owns_local` and `arp_profile_owns_local`. -/
def profileOwnsLocal (fwdLi : ℕ) : Bool :=
  !e.cfg.profiles.isEmpty && decide (fwdLi < e.locals.length) && e.localLive fwdLi &&
    e.profile.enabled && e.profile.localIndices.any (e.namedAs fwdLi)

/-- `ingress_idx_by_ifname`. -/
def ingressIdxByIfname (ifname : String) : Option ℕ :=
  (List.range e.locals.length).find? fun li => e.localLive li && e.locals[li]? == some ifname

/-- `mac_fwd_local_for_cfg_idx`. -/
def macFwdLocalForCfgIdx (cfgLi : ℤ) : Option ℕ :=
  if cfgLi < 0 then none
  else (e.cfgLocals[cfgLi.toNat]?.filter (· != "")).bind e.ingressIdxByIfname

/-- `mac_fwd_local_for_wan_dp`. -/
def macFwdLocalForWanDp (d : ℕ) : Option ℕ :=
  if e.cfg.profiles.isEmpty || !e.profile.enabled then none
  else
    (e.profile.bridges.findSome? fun b =>
      if b.2 = (d : ℤ) ∧ 0 ≤ b.1 then e.cfgLocals[b.1.toNat]?.filter (· != "") else none).bind
        e.ingressIdxByIfname

/-- `profile_pi_for_wan_dp` finds the profile. -/
def profilePiForWanDp (d : ℕ) : Bool :=
  !e.cfg.profiles.isEmpty && e.profile.enabled &&
    (e.wanDpToCfg d).any fun cfgIdx => e.profile.wanIndices.contains cfgIdx

/-- `resolve_wan_dp_for_fwd_local`. -/
def resolveWanDpForFwdLocal (fwdLi : ℕ) : Option ℤ :=
  (e.profile.bridges.find? fun b => e.namedAs fwdLi b.1).map Prod.snd

/-- `arp_wan_dp_usable`. -/
def arpWanDpUsable (d : ℕ) : Bool :=
  decide (d < e.wanCount) && e.wanLive d && !e.wanStopped d && !e.wanExcluded d

/-- `arp_dp_for_cfg_wan`. -/
def arpDpForCfgWan (cfgWan : ℤ) : Option ℕ :=
  if cfgWan < 0 then none
  else (List.range (min e.wanCount 16)).find? fun d =>
    decide (e.wanCfgIdx d = cfgWan) && e.arpWanDpUsable d

/-- One round of `arp_pick_backup_wan_dp`. -/
def backupStep (primary : ℕ) (best : ℕ × Option ℕ) (cfgWan : ℤ) : ℕ × Option ℕ :=
  match e.arpDpForCfgWan cfgWan with
  | none => best
  | some d =>
    if d = primary ∨ !e.fwdWanHasTxRoom d then best
    else if e.wanDepth d < best.1 then (e.wanDepth d, some d) else best

/-- `arp_pick_backup_wan_dp`. -/
def arpPickBackupWanDp (primary : ℕ) : Option ℕ :=
  (e.profile.wanIndices.foldl (e.backupStep primary) (2 ^ 32 - 1, none)).2

/-- `arp_select_egress_wan`. -/
def arpSelectEgressWan (primary : ℕ) : Option ℕ :=
  if e.arpWanDpUsable primary then some primary else e.arpPickBackupWanDp primary

end Edge

end NeEncryptor
