import NeEncryptor.Crypto.CryptoRuntime
import NeEncryptor.Crypto.L2Plain
import NeEncryptor.Crypto.Reassembly

/-!
# The receive path of the WAN

`wan_ingress.c` up to the packet that a frame from the WAN stands for, with the lookups by wire id of
`crypto_runtime.c`.  A frame is the list of its bytes: what the path writes is never longer than what
it has read.
-/

namespace NeEncryptor

open Buffer

variable {n : ℕ}

/-- `policy_crypto_ready`. -/
def PolicyTables.ready (tables : PolicyTables) (i : ℕ) : Bool :=
  (tables.entries[i]?.bind CryptoEntry.ctx).isSome

namespace CryptoRuntime

variable (rt : CryptoRuntime n)

/-- `fwd_crypto_maybe_expire_prev_grace`. -/
def fwdCryptoMaybeExpirePrevGrace (now : ℕ) : CryptoRuntime n :=
  if rt.prevGraceActive && decide (rt.prevGraceUntilMs ≤ now) then { rt with prevGraceActive := false }
  else rt

/-- `policy_crypto_ctx_for_worker`, for a crypto worker. -/
def policyCryptoCtxForWorker (w : Fin n) (i : ℕ) (previous : Bool) : Option PacketCryptoCtx :=
  let copy := (rt.policyCryptoSyncWorker w).workers w
  (if previous then copy.prevEntries else copy.entries)[i]?.bind CryptoEntry.ctx

/-- `fwd_crypto_ctx_for_wire_id`. -/
def fwdCryptoCtxForWireId (now : ℕ) (w : Fin n) (wireId : UInt8) : Option PacketCryptoCtx :=
  let rt := rt.fwdCryptoMaybeExpirePrevGrace now
  match (rt.active.policyIndexByWireId wireId.toBitVec).filter rt.active.ready with
  | some i => rt.policyCryptoCtxForWorker w i false
  | none =>
    if rt.prevGraceActive then
      ((rt.prev.policyIndexByWireId wireId.toBitVec).filter rt.prev.ready).bind fun i =>
        rt.policyCryptoCtxForWorker w i true
    else none

/-- `fwd_crypto_profile_id_for_wire_id`. -/
def fwdCryptoProfileIdForWireId (now : ℕ) (wireId : UInt8) : ℤ :=
  let rt := rt.fwdCryptoMaybeExpirePrevGrace now
  let profileId := rt.active.policyProfileIdByWireId wireId.toBitVec
  let oldProfileId := rt.prev.policyProfileIdByWireId wireId.toBitVec
  if 0 < profileId then profileId
  else if rt.prevGraceActive ∧ 0 < oldProfileId then oldProfileId
  else -1

/-- `fwd_crypto_has_l2_marker`. -/
def fwdCryptoHasL2Marker (pkt : Bytes) : Bool :=
  cryptoEthL2HasMarker pkt pkt.length &&
    (cryptoEthL2ReadPolicyId pkt pkt.length).any fun wireId =>
      (rt.active.policyIndexByWireId wireId.toBitVec).isSome

end CryptoRuntime

/-- `fwd_crypto_profile_slot_for_id`. -/
def fwdCryptoProfileSlotForId (profileId : ℤ) : Option ℕ := if 0 < profileId then some 0 else none

/-- What a crypto worker finds when it takes a frame from the WAN. -/
structure WanRx (n : ℕ) where
  cfg : AppConfig
  rt : CryptoRuntime n
  worker : Fin n
  nowMs : ℕ

/-- `crypto_eth_l2_frag_magic_off`. -/
def cryptoEthL2FragMagicOff (pkt : Bytes) (pktLen nonceSize : ℕ) : Option ℕ :=
  match cryptoEthL2PolicyOff pkt pktLen with
  | none => none
  | some off => if pktLen < off + 2 + nonceSize then none else some (off + 2 + nonceSize)

/-- `wan_l2_is_udp_tagged`. -/
def wanL2IsUdpTagged (pkt : Bytes) : Bool :=
  cryptoEthL2HasMarker pkt pkt.length &&
    (cryptoEthL2FragMagicOff pkt pkt.length l2NonceSize).any fun markOff =>
      decide (markOff + l2UdpMarkerSize + l2UdpShimSize + aesGcmTagSize ≤ pkt.length) &&
        slice pkt markOff l2UdpMarkerSize == l2UdpMarker

/-- `fwd_policy_by_wire_id`. -/
def fwdPolicyByWireId (cfg : AppConfig) (wireId : UInt8) : Option CryptoPolicy :=
  (cfg.policies.take maxCryptoPolicies).find? fun cp =>
    cp.action != .bypass && UInt8.ofInt cp.id == wireId

/-- `wan_l2_plain_ok`. -/
def wanL2PlainOk (pkt : Bytes) : Bool :=
  cryptoPktIsIpv4 pkt pkt.length || (cryptoEthArpOffset pkt pkt.length).isSome

/-- `opt_policy_match`, for the action of L2. -/
def optPolicyMatch (cfg : AppConfig) (wireId : UInt8) : Bool :=
  (cfg.policies.take maxCryptoPolicies).any fun cp =>
    cp.action == .encryptL2 && UInt8.ofInt cp.id == wireId

/-- `l2_udp_is_fragment`. -/
def l2UdpIsFragment (cfg : AppConfig) (pkt : Bytes) : Bool :=
  cryptoEthL2HasMarker pkt pkt.length &&
    (l2EncStartOff pkt pkt.length).any (fun tagOff =>
      decide (tagOff + l2UdpMarkerSize + l2UdpShimSize + aesGcmTagSize ≤ pkt.length) &&
        l2UdpMarkerMatch pkt pkt.length tagOff) &&
    (cryptoEthL2ReadPolicyId pkt pkt.length).any (optPolicyMatch cfg)

/-- What a frame from the WAN comes to; `ids` are what `crypto_option_udp_set_rx_meta` stores. -/
inductive WanResult
  | drop
  | held
  | plain (packet : Bytes) (ids : Option (BitVec 32 × BitVec 32))
  deriving DecidableEq, Repr

/-- `l2_udp_reasm`. -/
def l2UdpReasm (aead : Aead) (ctx : PacketCryptoCtx) (ft : OptTable) (pkt : Bytes)
    (now : BitVec 64) : OptTable × WanResult :=
  match l2DoDecryptUdp aead ctx pkt pkt.length with
  | none => (ft, .drop)
  | some p =>
    if p.kind = .full then
      if cryptoPktIsIpv4 p.packet p.packet.length then
        (ft, .plain p.packet (some (p.ids.epoch, p.ids.seq)))
      else (ft, .drop)
    else
      match ft.l2Reassemble p now with
      | (ft, .failed) => (ft, .drop)
      | (ft, .held) => (ft, .held)
      | (ft, .joined frame) => (ft, .plain frame (some (p.ids.epoch, p.ids.seq)))

namespace WanRx

variable (rx : WanRx n)

def ctxFor (wireId : UInt8) : Option PacketCryptoCtx :=
  rx.rt.fwdCryptoCtxForWireId rx.nowMs rx.worker wireId

/-- `wan_wire_is_encrypted`. -/
def wanWireIsEncrypted (pkt : Bytes) : Bool :=
  rx.rt.fwdCryptoHasL2Marker pkt || cryptoEthL2HasMarker pkt pkt.length || wanL2IsUdpTagged pkt

/-- `decrypt_l2`; a frame without a marker or a policy id is left as it is. -/
def decryptL2 (aead : Aead) (pkt : Bytes) : Option Bytes :=
  if !cryptoEthL2HasMarker pkt pkt.length then some pkt
  else
    match cryptoEthL2ReadPolicyId pkt pkt.length with
    | none => some pkt
    | some wireId =>
      match rx.ctxFor wireId with
      | none => none
      | some ctx =>
        if pkt.length > neFrame then none
        else (l2TcpDecrypt aead ctx pkt pkt.length).filter fun plain =>
          cryptoPktIsIpv4 plain plain.length

/-- `reassemble_l2`. -/
def reassembleL2 (aead : Aead) (ft : OptTable) (now : BitVec 64) (pkt : Bytes) (policyId : UInt8) :
    OptTable × WanResult :=
  match rx.ctxFor policyId with
  | none => (ft, .drop)
  | some ctx =>
    match fwdCryptoProfileSlotForId (rx.rt.fwdCryptoProfileIdForWireId rx.nowMs policyId) with
    | none => (ft, .drop)
    | some _ => l2UdpReasm aead ctx ft pkt now

/-- `wan_try_l2_pqc_udp`; `none` is its 0. -/
def wanTryL2PqcUdp (aead : Aead) (ft : OptTable) (now : BitVec 64) (pkt : Bytes) :
    Option (OptTable × WanResult) :=
  if !wanL2IsUdpTagged pkt then none
  else
    match cryptoEthL2ReadPolicyId pkt pkt.length with
    | none => none
    | some wireId =>
      if (fwdPolicyByWireId rx.cfg wireId).isNone then none
      else if (rx.ctxFor wireId).isNone then none
      else some (rx.reassembleL2 aead ft now pkt wireId)

/-- `decrypt_wan`. -/
def decryptWan (aead : Aead) (ft : OptTable) (now : BitVec 64) (pkt : Bytes) :
    OptTable × WanResult :=
  let isL2 := rx.rt.fwdCryptoHasL2Marker pkt || wanL2IsUdpTagged pkt
  if !rx.wanWireIsEncrypted pkt then (ft, .plain pkt none)
  else
    match rx.wanTryL2PqcUdp aead ft now pkt with
    | some result => result
    | none =>
      match (rx.decryptL2 aead pkt).filter wanL2PlainOk with
      | some packet => (ft, .plain packet none)
      | none =>
        if l2UdpIsFragment rx.cfg pkt then
          match cryptoEthL2ReadPolicyId pkt pkt.length with
          | none => (ft, .drop)
          | some wireId => rx.reassembleL2 aead ft now pkt wireId
        else if isL2 then (ft, .drop)
        else (ft, .plain pkt none)

end WanRx

end NeEncryptor
