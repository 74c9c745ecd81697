import NeEncryptor.Pqc.Feed

/-!
# Worker loops

`pqc_policy_handshake_worker_run`, one step at a time.  A step runs from one loop head or receive to
the next; `IniPc` and `ResPc` are the places in between, for the initiator and the responder branch.
-/

namespace NeEncryptor.Pqc

/-- The worker's local variables that outlive a loop iteration; `none` is the state value 0. -/
structure WorkerLocals where
  nextL3RequestTime : ℕ
  nextL3KeepaliveTime : ℕ
  lastL3KeepaliveState : Option HsState
  deriving DecidableEq, Repr

def WorkerLocals.initial : WorkerLocals := ⟨0, 0, none⟩

/-- Where the worker of an initiator is.  `kem` is the key pair of the HELLO of `session`. -/
inductive IniPc
  | top
  | helloSend (session : SessionId) (kem : KemId)
  | helloRecv (session : SessionId) (kem : KemId) (startRx : ℕ)
  | rotationSend (session : SessionId) (kem : KemId) (started : ℕ)
  | rotationRecv (session : SessionId) (kem : KemId) (started startRx : ℕ)
  | commitWait (session : SessionId) (kem : KemId) (started startRx nextReadySend : ℕ)
  | stopped
  deriving DecidableEq, Repr

/-- Where the worker of a responder is. -/
inductive ResPc
  | top
  | listening
  | listeningRecv
  | online
  | onlineRecv
  | stopped
  deriving DecidableEq, Repr

/-- One party: its binding, its clock and its worker. -/
structure Node (π : Type) where
  b : Binding
  now : ℕ
  l : WorkerLocals
  pc : π
  deriving DecidableEq

/-- What the outside decides in one worker step: the ids and keys drawn, whether a RESP was sent, and
whether the encryptor still held the PREV key that is to be discarded. -/
structure Draws where
  requestId : Option (BitVec 64)
  session : Option (SessionId × KemId)
  fresh : TrafficKey
  respSent : Bool
  prevDiscarded : Bool
  deriving DecidableEq, Repr

namespace Binding

/-- `pqc_hs_send_l3_handshake_request`: the POKE carries the binding's request id. -/
def pqcHsSendL3HandshakeRequest (requestId : Option (BitVec 64)) (b : Binding) :
    Binding × List Msg :=
  if b.localRequestId != 0 then (b, [.poke b.localRequestId])
  else
    match requestId with
    | none => (b, [])
    | some id => ({ b with localRequestId := id }, [.poke id])

/-- The sequence number after `++b->local_keepalive_seq`, where 0 is skipped. -/
def succKeepaliveSeq (seq : BitVec 64) : BitVec 64 := if seq + 1 = 0 then 1 else seq + 1

/-- The status a KEEPALIVE advertises. -/
def keepaliveStatus (P : Primitives) (epoch sequence : BitVec 64) (b : Binding) :
    KeepaliveStatus :=
  if b.pqcHsL3State = .online then
    ⟨.online, b.isInitiator, b.slots.current.keyId, P.sha256 b.slots.current.key, epoch, sequence⟩
  else ⟨b.pqcHsL3State, b.isInitiator, 0, 0, epoch, sequence⟩

/-- The keepalive epoch is the request id, drawn when there is none. -/
def ensureEpoch (requestId : Option (BitVec 64)) (b : Binding) : Binding :=
  if b.localRequestId != 0 then b
  else
    match requestId with
    | none => b
    | some id => { b with localRequestId := id, localKeepaliveSeq := 0 }

/-- `pqc_hs_send_l3_keepalive`. -/
def pqcHsSendL3Keepalive (P : Primitives) (requestId : Option (BitVec 64)) (b : Binding) :
    Binding × List Msg :=
  let b' := b.ensureEpoch requestId
  if !b.keepaliveEnabled then (b, [])
  else if b'.localRequestId = 0 then (b', [])
  else
    let sequence := succKeepaliveSeq b'.localKeepaliveSeq
    ({ b' with localKeepaliveSeq := sequence },
      [.keepalive (b'.keepaliveStatus P b'.localRequestId sequence)])

/-- PREV is due for discarding. -/
def prevDiscardDue (now : ℕ) (b : Binding) : Bool :=
  b.prevDiscardAfterMs != 0 && b.prevDiscardAfterMs ≤ now

/-- The liveness clock of the loop head: a silent peer costs no key. -/
def livenessTick (now : ℕ) (b : Binding) : Binding :=
  let monitorFrom :=
    if b.lastKeepaliveRxTime != 0 then b.lastKeepaliveRxTime else b.keepaliveMonitorStartTime
  -- PQC_HS_KEEPALIVE_TIMEOUT_MS
  if b.keepaliveEnabled && b.keyReady && monitorFrom != 0 && monitorFrom + 45000 ≤ now then
    { b with lastKeepaliveRxTime := now }
  else b

/-- The automatic retry of the loop head, `PQC_HS_AUTO_RETRY_INTERVAL_MS` after a give-up. -/
def autoRetry (now : ℕ) (b : Binding) : Binding :=
  if !b.handshakeGiveUp then b
  else if b.nextAutoRetryTime = 0 then { b with nextAutoRetryTime := now + 15000 }
  else if b.nextAutoRetryTime ≤ now then
    pqcFlushL3RxQueue (pqcHsClearCache { b with
      handshakeGiveUp := false
      handshakeStartTime := 0
      rotationGiveUp := false
      rotationStartTime := 0
      localRequestId := 0
      localKeepaliveSeq := 0
      sendPoke := !b.isInitiator
      lastKeepaliveRxTime := 0
      keepaliveMonitorStartTime := now
      nextAutoRetryTime := 0 })
  else b

/-- The loop head up to the keepalive, without the discarding itself. -/
def workerHousekeeping (now : ℕ) (b : Binding) : Binding :=
  let b := if b.prevDiscardDue now then { b with prevDiscardAfterMs := 0 } else b
  { (b.livenessTick now).autoRetry now with keepaliveSendNow := false }

/-- The keepalive of the loop head.  `sendNow` is the flag a handshake leaves behind and `state` the
state the head read. -/
def workerKeepalive (P : Primitives) (now : ℕ) (requestId : Option (BitVec 64)) (sendNow : Bool)
    (state : HsState) (b : Binding) (l : WorkerLocals) : Binding × WorkerLocals × List Msg :=
  let l := if sendNow then { l with nextL3KeepaliveTime := now } else l
  let l :=
    if b.keepaliveEnabled && l.nextL3KeepaliveTime == 0 then
      -- PQC_HS_KEEPALIVE_INTERVAL_MS
      { l with
        nextL3KeepaliveTime := if b.keyReady then now else now + 15000
        lastL3KeepaliveState := some state }
    else l
  if b.keepaliveEnabled && l.nextL3KeepaliveTime != 0 &&
      (l.lastL3KeepaliveState != some state || l.nextL3KeepaliveTime ≤ now) then
    let (b, msgs) := b.pqcHsSendL3Keepalive P requestId
    (b, { l with lastL3KeepaliveState := some state, nextL3KeepaliveTime := now + 15000 }, msgs)
  else (b, l, [])

/-- The loop head of `pqc_policy_handshake_worker_run` up to the give-up test. -/
def workerHead (P : Primitives) (now : ℕ) (d : Draws) (b : Binding) (l : WorkerLocals) :
    Binding × WorkerLocals × List Msg :=
  let kept := b.workerHousekeeping now
  let kept' :=
    if b.prevDiscardDue now && d.prevDiscarded then kept.sigPqcDiscardPrevKey else kept
  kept'.workerKeepalive P now d.requestId b.keepaliveSendNow kept.pqcHsL3State l

/-- What the loop does after `initiate_l3_key_rotation` has returned. -/
def rotationReturned (b : Binding) : Binding :=
  if b.rekeyRequested then { b with rotationStartTime := 0 } else b

/-- The end of the worker thread of an active binding. -/
def workerExit (b : Binding) : Binding :=
  { b with threadStarted := false, threadExitSig := false }

end Binding

/-- `pqc_policy_rx_recv`: the oldest queued message, or a timeout. -/
def rxRecv (b : Binding) : Option Msg × Binding :=
  match b.rxQueue with
  | [] => (none, b)
  | m :: rest => (some m, { b with rxQueue := rest })

/-- The initiator branch of the worker, where the loop head has left the give-up test behind. -/
def initiatorDispatch (d : Draws) (n : Node IniPc) : Node IniPc :=
  if n.b.handshakeGiveUp then { n with pc := .top }
  else if !n.b.keyReady then
    let b := if n.b.handshakeStartTime = 0 then { n.b with handshakeStartTime := n.now } else n.b
    match d.session with
    | none => { n with b := b, pc := .top }
    | some (session, kem) => { n with b := b, pc := .helloSend session kem }
  else if n.b.rekeyRequested then
    let b := if n.b.rotationStartTime = 0 then { n.b with rotationStartTime := n.now } else n.b
    match d.session with
    | none => { n with b := b.rotationReturned, pc := .top }
    | some (session, kem) => { n with b := b, pc := .rotationSend session kem n.now }
  else { n with pc := .top }

/-- One step of an initiator's worker, and the messages it sends. -/
def initiatorWork (P : Primitives) (d : Draws) (n : Node IniPc) : Node IniPc × List Msg :=
  match n.pc with
  | .top =>
    if n.b.threadExitSig then ({ n with b := n.b.workerExit, pc := .stopped }, [])
    else
      let (b, l, msgs) := n.b.workerHead P n.now d n.l
      (initiatorDispatch d { n with b := b, l := l }, msgs)
  | .helloSend session kem =>
    if n.b.keyReady || n.b.threadExitSig then ({ n with pc := .top }, [])
    -- PQC_HS_GIVEUP_TIMEOUT_MS
    else if 15000 < n.now - n.b.handshakeStartTime then
      ({ n with b := { n.b with handshakeGiveUp := true }, pc := .top }, [])
    else ({ n with pc := .helloRecv session kem n.now }, [.hello ⟨session, kem⟩])
  | .helloRecv session kem startRx =>
    if n.b.keyReady || n.b.threadExitSig || 3000 ≤ n.now - startRx then
      ({ n with pc := .helloSend session kem }, [])
    else
      match rxRecv n.b with
      | (some (.resp answered ct), b) =>
        if answered = session then
          ({ n with
            b := b.handleHandshakeSuccess n.now (P.decapsulate kem ct)
            pc := .helloSend session kem }, [])
        else ({ n with b := b }, [])
      | (_, b) => ({ n with b := b }, [])
  | .rotationSend session kem started =>
    if n.b.threadExitSig || 15000 ≤ n.now - started then
      ({ n with b := n.b.rotationReturned, pc := .top }, [])
    else ({ n with pc := .rotationRecv session kem started n.now }, [.hello ⟨session, kem⟩])
  | .rotationRecv session kem started startRx =>
    if n.b.threadExitSig || 3000 ≤ n.now - startRx then
      ({ n with pc := .rotationSend session kem started }, [])
    else
      match rxRecv n.b with
      | (some (.resp answered ct), b) =>
        if answered = session then
          match b.pqcHsStageNextKey (P.decapsulate kem ct) with
          | some b' => ({ n with b := b', pc := .commitWait session kem started startRx 0 }, [])
          | none => ({ n with b := b }, [])
        else ({ n with b := b }, [])
      | (_, b) => ({ n with b := b }, [])
  | .commitWait session kem started startRx nextReadySend =>
    -- `pqc_hs_initiator_commit_staged`: only a COMMIT of this session or a stop request ends the wait.
    if n.b.threadExitSig then ({ n with pc := .rotationRecv session kem started startRx }, [])
    else
      let sendNow := nextReadySend = 0 ∨ nextReadySend ≤ n.now
      let msgs := if sendNow then [.ready session] else []
      let wait := IniPc.commitWait session kem started startRx
        (if sendNow then n.now + 1000 else nextReadySend)
      match rxRecv n.b with
      | (some (.commit answered), b) =>
        if answered = session then
          match b.pqcHsPromoteStagedKey n.now with
          | some b' => ({ n with b := b'.rotationReturned, pc := .top }, msgs)
          | none => ({ n with b := b, pc := .rotationRecv session kem started startRx }, msgs)
        else ({ n with b := b, pc := wait }, msgs)
      | (_, b) => ({ n with b := b, pc := wait }, msgs)
  | .stopped => (n, [])

/-- One step of a responder's worker, and the messages it sends. -/
def responderWork (P : Primitives) (d : Draws) (n : Node ResPc) : Node ResPc × List Msg :=
  match n.pc with
  | .top =>
    if n.b.threadExitSig then ({ n with b := n.b.workerExit, pc := .stopped }, [])
    else
      let (b, l, msgs) := n.b.workerHead P n.now d n.l
      if b.handshakeGiveUp then ({ n with b := b, l := l, pc := .top }, msgs)
      else if !b.keyReady then
        let b := if b.handshakeStartTime = 0 then { b with handshakeStartTime := n.now } else b
        ({ n with b := b, l := l, pc := .listening }, msgs)
      else ({ n with b := b, l := l, pc := .online }, msgs)
  | .listening =>
    if n.b.keyReady || n.b.threadExitSig then ({ n with pc := .top }, [])
    else if 15000 < n.now - n.b.handshakeStartTime then
      ({ n with b := { n.b with handshakeGiveUp := true }, pc := .top }, [])
    else
      let due := n.l.nextL3RequestTime = 0 ∨ n.l.nextL3RequestTime ≤ n.now
      let b := { n.b with sendPoke := false }
      if n.b.sendPoke = true ∨ due then
        let (b, msgs) := b.pqcHsSendL3HandshakeRequest d.requestId
        -- PQC_HS_REQUEST_RETRY_MS
        ({ n with
          b := b
          l := { n.l with nextL3RequestTime := n.now + 1000 }
          pc := .listeningRecv }, msgs)
      else ({ n with b := b, pc := .listeningRecv }, [])
  | .listeningRecv =>
    match rxRecv n.b with
    | (some (.hello h), b) =>
      let (b, msgs) := b.pqcHsHandleL3ResponderHello n.now d.respSent d.fresh h
      ({ n with b := b, pc := .listening }, msgs)
    | (_, b) => ({ n with b := b, pc := .listening }, [])
  | .online =>
    if n.b.rekeyRequested then
      let b := { n.b with sendPoke := true }
      if n.l.nextL3RequestTime = 0 ∨ n.l.nextL3RequestTime ≤ n.now then
        let (b, msgs) := b.pqcHsSendL3HandshakeRequest d.requestId
        ({ n with
          b := b
          l := { n.l with nextL3RequestTime := n.now + 1000 }
          pc := .onlineRecv }, msgs)
      else ({ n with b := b, pc := .onlineRecv }, [])
    else ({ n with pc := .onlineRecv }, [])
  | .onlineRecv =>
    match rxRecv n.b with
    | (some (.hello h), b) =>
      let (b, msgs) := b.pqcHsHandleL3ResponderHello n.now d.respSent d.fresh h
      ({ n with b := b, pc := .top }, msgs)
    | (some (.ready session), b) =>
      let (b, msgs) := b.pqcHsHandleReady n.now session
      ({ n with b := b, pc := .top }, msgs)
    | (_, b) => ({ n with b := b, pc := .top }, [])
  | .stopped => (n, [])

end NeEncryptor.Pqc
