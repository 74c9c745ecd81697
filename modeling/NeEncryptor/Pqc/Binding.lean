import Mathlib.Data.Fintype.Pi
import NeEncryptor.Pqc.Message

/-!
# The policy binding

`policy_key_binding_t` of `pqc_handshake.h` and the operations on its key slots: promotion to
CURRENT, staging of NEXT, and the wipes.  Fields that only log lines read are left out.
-/

namespace NeEncryptor.Pqc

/-- One entry of `keys`, `key_ids` and `key_slots_valid`. -/
structure KeySlot where
  key : TrafficKey
  keyId : BitVec 8
  valid : Bool
  deriving DecidableEq, Repr

/-- The state `pqc_hs_wipe_slot_locked` leaves. -/
def KeySlot.wiped : KeySlot := ⟨0, 0, false⟩

/-- The key a slot offers, if it is valid. -/
def KeySlot.key? (s : KeySlot) : Option TrafficKey := if s.valid then some s.key else none

/-- A valid `pqc_hs_cache_entry_t`: the HELLO it answers (its `session_id` and `hello_hash`), the
ciphertext of the stored RESP and the key this RESP agreed on. -/
structure HsCacheEntry where
  hello : Hello
  response : Ciphertext
  masterKey : TrafficKey
  keyPromoted : Bool
  requiresCommit : Bool
  deriving DecidableEq, Repr

/-- `pqc_role_mode_t`. -/
inductive RoleMode
  | responder
  | initiator
  | dynamic
  deriving DecidableEq, Repr

/-- What `sig_pqc_bind_policy` compares to decide whether a binding changed. -/
structure BindIdentity where
  localPriv : Option String
  localPub : Option String
  peerPub : Option String
  peerIp : String
  wanIfname : String
  keyId : String
  isTunnel : Bool
  roleMode : RoleMode
  deriving DecidableEq, Repr

/-- An authentication key that is set and not the empty string. -/
def keyPresent (key : Option String) : Bool := key.any (· != "")

/-- `policy_key_binding_t`. -/
structure Binding where
  policyId : ℤ
  profileId : ℤ
  identity : BindIdentity
  isInitiator : Bool
  slots : KeySlots KeySlot
  keyReady : Bool
  rekeyRequested : Bool
  handshakeStartTime : ℕ
  handshakeGiveUp : Bool
  rotationStartTime : ℕ
  rotationGiveUp : Bool
  nextAutoRetryTime : ℕ
  localRequestId : BitVec 64
  peerRequestId : BitVec 64
  localKeepaliveSeq : BitVec 64
  peerKeepaliveEpoch : BitVec 64
  peerKeepaliveSeq : BitVec 64
  keepaliveEnabled : Bool
  keepaliveSendNow : Bool
  keepaliveMonitorStartTime : ℕ
  lastKeepaliveRxTime : ℕ
  prevDiscardAfterMs : ℕ
  sendPoke : Bool
  hsCache : Fin 4 → Option HsCacheEntry
  hsCacheNext : Fin 4
  rxQueue : List Msg
  threadStarted : Bool
  threadExitSig : Bool
  deriving DecidableEq

/-- A cell of `g_policy_bindings` before its first use. -/
def Binding.unbound : Binding where
  policyId := 0
  profileId := 0
  identity := ⟨none, none, none, "", "", "", false, .responder⟩
  isInitiator := false
  slots := ⟨⟨0, 0, false⟩, ⟨0, 0, false⟩, ⟨0, 0, false⟩⟩
  keyReady := false
  rekeyRequested := false
  handshakeStartTime := 0
  handshakeGiveUp := false
  rotationStartTime := 0
  rotationGiveUp := false
  nextAutoRetryTime := 0
  localRequestId := 0
  peerRequestId := 0
  localKeepaliveSeq := 0
  peerKeepaliveEpoch := 0
  peerKeepaliveSeq := 0
  keepaliveEnabled := false
  keepaliveSendNow := false
  keepaliveMonitorStartTime := 0
  lastKeepaliveRxTime := 0
  prevDiscardAfterMs := 0
  sendPoke := false
  hsCache := fun _ => none
  hsCacheNext := 0
  rxQueue := []
  threadStarted := false
  threadExitSig := false

/-- The part of `sig_pqc_bind_policy` that fills a binding; `fresh` tells that the binding is new or
was reset because its identity changed. -/
def Binding.bindFields (now : ℕ) (requestId : BitVec 64) (fresh : Bool) (policyId profileId : ℤ)
    (identity : BindIdentity) (b : Binding) : Binding :=
  let b := { b with
    policyId := policyId
    profileId := profileId
    isInitiator := match identity.roleMode with
      | .initiator => true
      | .responder => false
      | .dynamic => if fresh then false else b.isInitiator
    identity := identity }
  let b := if identity.isTunnel && fresh then
      { b with
        localRequestId := requestId
        peerRequestId := 0
        localKeepaliveSeq := 0
        peerKeepaliveEpoch := 0
        peerKeepaliveSeq := 0
        keepaliveMonitorStartTime := now
        lastKeepaliveRxTime := 0
        nextAutoRetryTime := 0
        prevDiscardAfterMs := 0
        sendPoke := identity.roleMode != .initiator }
    else b
  if identity.isTunnel then
    { b with
      keepaliveEnabled := true
      keepaliveMonitorStartTime :=
        if b.keepaliveMonitorStartTime = 0 then now else b.keepaliveMonitorStartTime }
  else b

/-- `sig_pqc_bind_policy` of a policy that has no binding yet. -/
def Binding.bindNew (now : ℕ) (requestId : BitVec 64) (policyId profileId : ℤ)
    (identity : BindIdentity) : Binding :=
  Binding.unbound.bindFields now requestId true policyId profileId identity

/-- A tunnel endpoint with its authentication keys. -/
def sampleIdentity (roleMode : RoleMode) : BindIdentity :=
  ⟨some "priv", some "pub", some "peer", "10.0.0.2", "wan0", "k1", true, roleMode⟩

/-- A freshly bound endpoint of policy 7. -/
def sampleBinding (now : ℕ) (requestId : BitVec 64) (roleMode : RoleMode) : Binding :=
  .bindNew now requestId 7 1 (sampleIdentity roleMode)

/-- `KEY_ID + 1` in a byte, where 0 is skipped. -/
def succKeyId (id : BitVec 8) : BitVec 8 := if id + 1 = 0 then 1 else id + 1

/-- The slots after `key` has become CURRENT: CURRENT moves to PREV and NEXT is wiped. -/
def promoteSlots (key : TrafficKey) (s : KeySlots KeySlot) : KeySlots KeySlot where
  prev := s.current
  current := ⟨key, succKeyId s.current.keyId, true⟩
  next := .wiped

/-- The slots after `key` has been staged as NEXT. -/
def stageSlots (key : TrafficKey) (s : KeySlots KeySlot) : KeySlots KeySlot :=
  { s with next := ⟨key, succKeyId s.current.keyId, true⟩ }

namespace Binding

/-- `pqc_hs_clear_cache_locked`. -/
def pqcHsClearCache (b : Binding) : Binding :=
  { b with hsCache := fun _ => none, hsCacheNext := 0 }

/-- `pqc_flush_l3_rx_queue`. -/
def pqcFlushL3RxQueue (b : Binding) : Binding := { b with rxQueue := [] }

/-- `pqc_feed_packet_to_policy`: a ring of `PQC_RX_QUEUE_SIZE` cells holds one message less. -/
def pqcFeedPacket (m : Msg) (b : Binding) : Binding :=
  if b.rxQueue.length < 15 then { b with rxQueue := b.rxQueue ++ [m] } else b

/-- `handle_handshake_success`. -/
def handleHandshakeSuccess (now : ℕ) (derivedMaster : TrafficKey) (b : Binding) : Binding :=
  let b := { b with
    slots := promoteSlots derivedMaster b.slots
    keyReady := true
    rekeyRequested := false
    handshakeStartTime := 0
    handshakeGiveUp := false
    rotationStartTime := 0
    rotationGiveUp := false
    prevDiscardAfterMs := 0 }
  if b.identity.isTunnel then
    { b with
      keepaliveEnabled := true
      keepaliveMonitorStartTime := now
      lastKeepaliveRxTime := now
      keepaliveSendNow := true
      nextAutoRetryTime := 0 }
  else b

/-- `pqc_hs_stage_next_key`, refused while no CURRENT key is in use. -/
def pqcHsStageNextKey (derivedMaster : TrafficKey) (b : Binding) : Option Binding :=
  if b.keyReady && b.slots.current.valid then
    some { b with slots := stageSlots derivedMaster b.slots, prevDiscardAfterMs := 0 }
  else none

/-- `pqc_hs_promote_staged_key`, refused while no NEXT key is staged. -/
def pqcHsPromoteStagedKey (now : ℕ) (b : Binding) : Option Binding :=
  if b.slots.next.valid then some (b.handleHandshakeSuccess now b.slots.next.key) else none

/-- `sig_pqc_discard_prev_key`. -/
def sigPqcDiscardPrevKey (b : Binding) : Binding :=
  if b.slots.prev.valid then { b with slots := { b.slots with prev := .wiped } } else b

/-- `pqc_hs_l3_state_locked`. -/
def pqcHsL3State (b : Binding) : HsState :=
  if (!b.handshakeGiveUp && b.handshakeStartTime != 0 && !b.keyReady) ||
      (!b.rotationGiveUp && b.rotationStartTime != 0) then .handshaking
  else if b.keyReady && b.slots.current.valid then .online
  else .failed

/-- `sig_pqc_request_new_session` on the binding it finds. -/
def sigPqcRequestNewSession (b : Binding) : Binding :=
  if !b.keyReady || b.rekeyRequested then b
  else { b with
    rekeyRequested := true
    handshakeGiveUp := false
    rotationGiveUp := false
    rotationStartTime := 0 }

/-- `sig_pqc_trigger_retry` on the binding it finds; `requestId` is 0 when none could be drawn. -/
def sigPqcTriggerRetry (now : ℕ) (requestId : BitVec 64) (b : Binding) : Binding :=
  let b := { b with
    handshakeGiveUp := false
    handshakeStartTime := now
    rotationGiveUp := false
    rotationStartTime := 0
    keyReady := false
    prevDiscardAfterMs := 0
    slots := { b.slots with next := .wiped } }
  if b.identity.isTunnel then
    pqcFlushL3RxQueue (pqcHsClearCache { b with
      keepaliveEnabled := true
      localRequestId := requestId
      localKeepaliveSeq := 0
      lastKeepaliveRxTime := 0
      keepaliveMonitorStartTime := now
      nextAutoRetryTime := 0
      sendPoke := !b.isInitiator })
  else { b with sendPoke := true }

end Binding

end NeEncryptor.Pqc
