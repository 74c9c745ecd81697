import NeEncryptor.Pqc.Responder

/-!
# Receive dispatch

`sig_pqc_feed_rx_packet` on the binding it finds: KEEPALIVE and POKE act at once, every other message
is queued for the worker.
-/

namespace NeEncryptor.Pqc

namespace Binding

/-- `pqc_hs_verify_l3_keepalive` on a message the configured peer signed. -/
def pqcHsVerifyL3Keepalive (st : KeepaliveStatus) (b : Binding) : Bool :=
  b.identity.isTunnel && keyPresent b.identity.peerPub && st.fromInitiator != b.isInitiator &&
    st.epoch != 0 && st.sequence != 0 &&
    (st.state != .online || (st.keyId != 0 && st.keyFingerprint != 0))

/-- `pqc_hs_verify_l3_request` on a message the configured peer signed. -/
def pqcHsVerifyL3Request (requestId : BitVec 64) (b : Binding) : Bool :=
  b.identity.isTunnel && keyPresent b.identity.peerPub && b.isInitiator && requestId != 0

/-- `pqc_hs_digest_key_locked`. -/
def digestKey (P : Primitives) (s : KeySlot) : Option Digest := s.key?.map P.sha256

/-- An in-use key is kept; PQC only starts another handshake. -/
def requestRekey (b : Binding) : Binding :=
  { b with
    rekeyRequested := true
    handshakeGiveUp := false
    rotationGiveUp := false
    rotationStartTime := 0 }

/-- The recovery of a binding without a key, common to KEEPALIVE and POKE. -/
def restartHandshake (now : ℕ) (b : Binding) : Binding :=
  pqcFlushL3RxQueue (pqcHsClearCache { b with
    handshakeGiveUp := false
    handshakeStartTime := now
    rotationGiveUp := false
    rotationStartTime := 0
    keyReady := false
    nextAutoRetryTime := 0
    keepaliveMonitorStartTime := now })

/-- The recovery a KEEPALIVE asks for when the two sides do not share a usable key. -/
def keepaliveRecovery (now : ℕ) (b : Binding) : Binding :=
  if b.keyReady then b.requestRekey
  else
    let b := { b.restartHandshake now with prevDiscardAfterMs := 0 }
    if b.isInitiator then { b with sendPoke := false }
    else { b with localRequestId := 0, localKeepaliveSeq := 0, sendPoke := true }

/-- The replay memory and the liveness clock after an accepted KEEPALIVE. -/
def recordKeepalive (now : ℕ) (st : KeepaliveStatus) (b : Binding) : Binding :=
  { b with
    peerKeepaliveEpoch := st.epoch
    peerKeepaliveSeq := st.sequence
    lastKeepaliveRxTime := now
    keepaliveMonitorStartTime := now }

/-- Both sides have a key: PREV is scheduled for discarding once the peer uses CURRENT, and a
fingerprint of NEXT or PREV is a cutover in progress. -/
def compareFingerprint (P : Primitives) (now : ℕ) (fingerprint : Digest) (b : Binding) : Binding :=
  if digestKey P b.slots.current = some fingerprint then
    if b.slots.prev.valid && b.prevDiscardAfterMs == 0 then
      -- PQC_HS_PREV_KEY_GRACE_MS
      { b with prevDiscardAfterMs := now + 90000 }
    else b
  else if digestKey P b.slots.next = some fingerprint then b
  else if digestKey P b.slots.prev = some fingerprint then b
  else b.keepaliveRecovery now

/-- The KEEPALIVE branch once replay detection has accepted the message. -/
def acceptKeepalive (P : Primitives) (now : ℕ) (st : KeepaliveStatus) (b : Binding) : Binding :=
  let b := b.recordKeepalive now st
  if b.pqcHsL3State = .handshaking ∨ st.state = .handshaking then b
  else if b.pqcHsL3State = .online ∧ st.state = .online then
    b.compareFingerprint P now st.keyFingerprint
  else b.keepaliveRecovery now

/-- The POKE branch once replay detection has accepted the message. -/
def acceptRequest (now : ℕ) (requestId : BitVec 64) (b : Binding) : Binding :=
  let b := { b with peerRequestId := requestId }
  if b.keyReady then b.requestRekey
  else { b.restartHandshake now with lastKeepaliveRxTime := 0 }

/-- A HELLO wakes a responder that has given up. -/
def wakeForHello (now : ℕ) (b : Binding) : Binding :=
  if b.handshakeGiveUp then
    let b := { b with
      handshakeGiveUp := false
      handshakeStartTime := 0
      rotationGiveUp := false
      rotationStartTime := 0
      keyReady := false }
    if b.identity.isTunnel then
      pqcFlushL3RxQueue { b with
        nextAutoRetryTime := 0
        lastKeepaliveRxTime := 0
        keepaliveMonitorStartTime := now }
    else b
  else b

/-- `sig_pqc_feed_rx_packet` for a message that the peer signed. -/
def sigPqcFeedRxPacket (P : Primitives) (now : ℕ) (m : Msg) (b : Binding) : Binding :=
  match m with
  | .keepalive st =>
    if b.identity.isTunnel then
      if !b.pqcHsVerifyL3Keepalive st then b
      else if st.epoch = b.peerKeepaliveEpoch ∧ st.sequence ≤ b.peerKeepaliveSeq then b
      else b.acceptKeepalive P now st
    else b.pqcFeedPacket m
  | .poke requestId =>
    if !b.pqcHsVerifyL3Request requestId then b
    else if requestId = b.peerRequestId then b
    else b.acceptRequest now requestId
  | .hello _ => (b.wakeForHello now).pqcFeedPacket m
  | .resp _ _ | .ready _ | .commit _ => b.pqcFeedPacket m

end Binding

end NeEncryptor.Pqc
