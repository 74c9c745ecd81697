import NeEncryptor.Pqc.Worker

/-!
# Effects of a step on the keys

What each function of a binding can do to the fields the cutover depends on: the key slots,
`key_ready`, the RESP cache, the scheduled discarding of PREV and the receive queue.
-/

namespace NeEncryptor.Pqc

theorem succKeyId_ne (id : BitVec 8) : succKeyId id ≠ id := by
  revert id
  decide +kernel

/-- A promotion always changes the CURRENT slot, if only its key id. -/
theorem promoteSlots_current_ne (key : TrafficKey) (s : KeySlots KeySlot) :
    (promoteSlots key s).current ≠ s.current := by
  intro same
  exact succKeyId_ne s.current.keyId (congrArg KeySlot.keyId same)

namespace Binding

@[simp] theorem handshakeSuccess_slots (now : ℕ) (key : TrafficKey) (b : Binding) :
    (b.handleHandshakeSuccess now key).slots = promoteSlots key b.slots := by
  unfold handleHandshakeSuccess
  dsimp only
  split <;> rfl

@[simp] theorem handshakeSuccess_keyReady (now : ℕ) (key : TrafficKey) (b : Binding) :
    (b.handleHandshakeSuccess now key).keyReady = true := by
  unfold handleHandshakeSuccess
  dsimp only
  split <;> rfl

@[simp] theorem handshakeSuccess_handshakeGiveUp (now : ℕ) (key : TrafficKey) (b : Binding) :
    (b.handleHandshakeSuccess now key).handshakeGiveUp = false := by
  unfold handleHandshakeSuccess
  dsimp only
  split <;> rfl

@[simp] theorem handshakeSuccess_prevDiscardAfterMs (now : ℕ) (key : TrafficKey) (b : Binding) :
    (b.handleHandshakeSuccess now key).prevDiscardAfterMs = 0 := by
  unfold handleHandshakeSuccess
  dsimp only
  split <;> rfl

@[simp] theorem handshakeSuccess_hsCache (now : ℕ) (key : TrafficKey) (b : Binding) :
    (b.handleHandshakeSuccess now key).hsCache = b.hsCache := by
  unfold handleHandshakeSuccess
  dsimp only
  split <;> rfl

@[simp] theorem handshakeSuccess_hsCacheNext (now : ℕ) (key : TrafficKey) (b : Binding) :
    (b.handleHandshakeSuccess now key).hsCacheNext = b.hsCacheNext := by
  unfold handleHandshakeSuccess
  dsimp only
  split <;> rfl

@[simp] theorem handshakeSuccess_rxQueue (now : ℕ) (key : TrafficKey) (b : Binding) :
    (b.handleHandshakeSuccess now key).rxQueue = b.rxQueue := by
  unfold handleHandshakeSuccess
  dsimp only
  split <;> rfl

@[simp] theorem rotationReturned_slots (b : Binding) : b.rotationReturned.slots = b.slots := by
  unfold rotationReturned
  split <;> rfl

@[simp] theorem rotationReturned_keyReady (b : Binding) :
    b.rotationReturned.keyReady = b.keyReady := by
  unfold rotationReturned
  split <;> rfl

@[simp] theorem rotationReturned_handshakeGiveUp (b : Binding) :
    b.rotationReturned.handshakeGiveUp = b.handshakeGiveUp := by
  unfold rotationReturned
  split <;> rfl

@[simp] theorem rotationReturned_rxQueue (b : Binding) :
    b.rotationReturned.rxQueue = b.rxQueue := by
  unfold rotationReturned
  split <;> rfl

@[simp] theorem triggerRetry_slots (now : ℕ) (requestId : BitVec 64) (b : Binding) :
    (b.sigPqcTriggerRetry now requestId).slots = { b.slots with next := .wiped } := by
  unfold sigPqcTriggerRetry
  dsimp only
  split <;> rfl

@[simp] theorem triggerRetry_keyReady (now : ℕ) (requestId : BitVec 64) (b : Binding) :
    (b.sigPqcTriggerRetry now requestId).keyReady = false := by
  unfold sigPqcTriggerRetry
  dsimp only
  split <;> rfl

@[simp] theorem triggerRetry_handshakeGiveUp (now : ℕ) (requestId : BitVec 64) (b : Binding) :
    (b.sigPqcTriggerRetry now requestId).handshakeGiveUp = false := by
  unfold sigPqcTriggerRetry
  dsimp only
  split <;> rfl

/-- A binding that has given up has no key in use. -/
def Asleep (b : Binding) : Prop := b.handshakeGiveUp = true → b.keyReady = false

/-- A step that moves no key, while message `m` is being delivered (if any).  It clears the RESP cache
only without a key in use, and schedules the discarding of PREV only for a peer that uses CURRENT. -/
structure Calm (P : Primitives) (m : Option Msg) (b b' : Binding) : Prop where
  slots : b'.slots = b.slots
  keyReady : b'.keyReady = b.keyReady
  asleep : b'.handshakeGiveUp = true → b.handshakeGiveUp = true
  cache : (b'.hsCache = b.hsCache ∧ b'.hsCacheNext = b.hsCacheNext) ∨
    (b.keyReady = false ∧ b'.hsCache = (fun _ => none) ∧ b'.hsCacheNext = 0)
  discard : b'.prevDiscardAfterMs = b.prevDiscardAfterMs ∨ b'.prevDiscardAfterMs = 0 ∨
    ∃ st, m = some (.keepalive st) ∧ st.state = .online ∧
      b.slots.current.key?.map P.sha256 = some st.keyFingerprint
  queue : ∀ x ∈ b'.rxQueue, some x = m ∨ x ∈ b.rxQueue

variable {P : Primitives} {m : Option Msg} {b b' b'' : Binding}

theorem Calm.refl (b : Binding) : Calm P m b b :=
  ⟨rfl, rfl, id, .inl ⟨rfl, rfl⟩, .inl rfl, fun _ => .inr⟩

theorem Calm.trans (first : Calm P m b b') (second : Calm P m b' b'') : Calm P m b b'' where
  slots := second.slots.trans first.slots
  keyReady := second.keyReady.trans first.keyReady
  asleep := fun h => first.asleep (second.asleep h)
  cache := by
    rcases second.cache with ⟨cache, next⟩ | ⟨ready, cleared⟩
    · rw [cache, next]
      exact first.cache
    · exact .inr ⟨first.keyReady ▸ ready, cleared⟩
  discard := by
    rcases second.discard with same | zero | ⟨st, hm, online, fp⟩
    · rw [same]
      exact first.discard
    · exact .inr (.inl zero)
    · exact .inr (.inr ⟨st, hm, online, first.slots ▸ fp⟩)
  queue := fun x hx => (second.queue x hx).elim .inl (first.queue x)

theorem Calm.keepsAsleep (calm : Calm P m b b') (asleep : b.Asleep) : b'.Asleep :=
  fun h => calm.keyReady ▸ asleep (calm.asleep h)

theorem calm_feedPacket (x : Msg) (b : Binding) : Calm P (some x) b (b.pqcFeedPacket x) := by
  unfold pqcFeedPacket
  split
  · refine { Calm.refl b with queue := fun y hy => ?_ }
    rcases List.mem_append.mp hy with old | new
    · exact .inr old
    · exact .inl (congrArg some (List.mem_singleton.mp new))
  · exact .refl b

theorem calm_requestRekey (b : Binding) : Calm P m b b.requestRekey :=
  { Calm.refl b with asleep := by simp [requestRekey] }

theorem calm_restartHandshake (now : ℕ) (notReady : b.keyReady = false) :
    Calm P m b (b.restartHandshake now) where
  slots := rfl
  keyReady := notReady.symm
  asleep := by simp [restartHandshake, pqcFlushL3RxQueue, pqcHsClearCache]
  cache := .inr ⟨notReady, rfl, rfl⟩
  discard := .inl rfl
  queue := by simp [restartHandshake, pqcFlushL3RxQueue]

theorem calm_wakeForHello (now : ℕ) (asleep : b.Asleep) : Calm P m b (b.wakeForHello now) := by
  unfold wakeForHello
  split
  · have notReady := asleep ‹_›
    dsimp only
    split
    · exact { Calm.refl b with
        keyReady := notReady.symm
        asleep := by simp [pqcFlushL3RxQueue]
        queue := by simp [pqcFlushL3RxQueue] }
    · exact { Calm.refl b with keyReady := notReady.symm, asleep := by simp }
  · exact .refl b

theorem calm_acceptRequest (now : ℕ) (requestId : BitVec 64) (b : Binding) :
    Calm P m b (b.acceptRequest now requestId) := by
  unfold acceptRequest
  dsimp only
  split
  · exact { Calm.refl b with asleep := by simp [requestRekey] }
  · have notReady : b.keyReady = false := by simpa using ‹¬ b.keyReady = true›
    exact { calm_restartHandshake (P := P) (m := m) now notReady with }

theorem calm_keepaliveRecovery (now : ℕ) (b : Binding) : Calm P m b (b.keepaliveRecovery now) := by
  unfold keepaliveRecovery
  split
  · exact calm_requestRekey b
  · have notReady : b.keyReady = false := by simpa using ‹¬ b.keyReady = true›
    have restarted := calm_restartHandshake (P := P) (m := m) now notReady
    dsimp only
    split <;> exact { restarted with discard := .inr (.inl rfl) }

theorem calm_compareFingerprint (now : ℕ) (st : KeepaliveStatus) (online : st.state = .online)
    (b : Binding) :
    Calm P (some (.keepalive st)) b (b.compareFingerprint P now st.keyFingerprint) := by
  unfold compareFingerprint
  split
  · split
    · exact { Calm.refl (P := P) b with discard := .inr (.inr ⟨st, rfl, online, ‹_›⟩) }
    · exact .refl b
  · split_ifs
    · exact .refl b
    · exact .refl b
    · exact calm_keepaliveRecovery now b

theorem calm_acceptKeepalive (now : ℕ) (st : KeepaliveStatus) (b : Binding) :
    Calm P (some (.keepalive st)) b (b.acceptKeepalive P now st) := by
  have recorded : Calm P (some (.keepalive st)) b (b.recordKeepalive now st) :=
    { Calm.refl b with }
  unfold acceptKeepalive
  dsimp only
  split_ifs with handshaking online
  · exact recorded
  · exact recorded.trans (calm_compareFingerprint now st online.2 _)
  · exact recorded.trans (calm_keepaliveRecovery now _)

/-- The dispatcher moves no key. -/
theorem calm_feed (now : ℕ) (x : Msg) (asleep : b.Asleep) :
    Calm P (some x) b (b.sigPqcFeedRxPacket P now x) := by
  unfold sigPqcFeedRxPacket
  cases x with
  | keepalive st =>
    dsimp only
    split_ifs
    · exact .refl b
    · exact .refl b
    · exact calm_acceptKeepalive now st b
    · exact calm_feedPacket _ b
  | poke requestId =>
    dsimp only
    split_ifs
    · exact .refl b
    · exact .refl b
    · exact calm_acceptRequest now requestId b
  | hello h => exact (calm_wakeForHello now asleep).trans (calm_feedPacket _ _)
  | resp _ _ | ready _ | commit _ => exact calm_feedPacket _ b

theorem calm_requestNewSession (b : Binding) : Calm P m b b.sigPqcRequestNewSession := by
  unfold sigPqcRequestNewSession
  split
  · exact .refl b
  · exact { Calm.refl b with asleep := by simp }

theorem calm_livenessTick (now : ℕ) (b : Binding) : Calm P m b (b.livenessTick now) := by
  unfold livenessTick
  dsimp only
  generalize (if b.lastKeepaliveRxTime != 0 then b.lastKeepaliveRxTime
    else b.keepaliveMonitorStartTime) = monitorFrom
  split
  · exact { Calm.refl (P := P) b with }
  · exact .refl b

theorem calm_autoRetry (now : ℕ) (asleep : b.Asleep) : Calm P m b (b.autoRetry now) := by
  unfold autoRetry
  split_ifs with awake waiting due
  · exact .refl b
  · exact { Calm.refl b with }
  · have notReady : b.keyReady = false := asleep (by simpa using awake)
    exact { Calm.refl (P := P) b with
      asleep := by simp [pqcFlushL3RxQueue, pqcHsClearCache]
      cache := .inr ⟨notReady, rfl, rfl⟩
      queue := by simp [pqcFlushL3RxQueue] }
  · exact .refl b

/-- The loop head moves no key before it discards PREV. -/
theorem calm_workerHousekeeping (now : ℕ) (asleep : b.Asleep) :
    Calm P m b (b.workerHousekeeping now) := by
  have disarmed :
      Calm P m b (if b.prevDiscardDue now then { b with prevDiscardAfterMs := 0 } else b) := by
    split
    · exact { Calm.refl (P := P) b with discard := .inr (.inl rfl) }
    · exact .refl b
  have ticked := disarmed.trans (calm_livenessTick now _)
  have retried := ticked.trans (calm_autoRetry now (ticked.keepsAsleep asleep))
  exact { retried with }

theorem workerHousekeeping_disarms (now : ℕ) (due : b.prevDiscardDue now = true) :
    (b.workerHousekeeping now).prevDiscardAfterMs = 0 := by
  have tick (b : Binding) : (b.livenessTick now).prevDiscardAfterMs = b.prevDiscardAfterMs := by
    unfold livenessTick
    dsimp only
    split_ifs <;> rfl
  have retry (b : Binding) : (b.autoRetry now).prevDiscardAfterMs = b.prevDiscardAfterMs := by
    unfold autoRetry
    split_ifs <;> rfl
  unfold workerHousekeeping
  dsimp only
  rw [retry, tick, if_pos due]

/-- What a KEEPALIVE of a binding may say about its key. -/
def Honest (P : Primitives) (b : Binding) (st : KeepaliveStatus) : Prop :=
  st.state = .online →
    b.keyReady = true ∧ b.slots.current.key?.map P.sha256 = some st.keyFingerprint

theorem keepaliveStatus_honest (epoch sequence : BitVec 64) (b : Binding) :
    b.Honest P (b.keepaliveStatus P epoch sequence) := by
  unfold keepaliveStatus
  split
  · rename_i online
    intro _
    have ready : b.keyReady = true ∧ b.slots.current.valid = true := by
      unfold pqcHsL3State at online
      split_ifs at online with _ ready
      simpa using ready
    exact ⟨ready.1, by simp [KeySlot.key?, ready.2]⟩
  · rename_i other
    intro online
    exact absurd online other

theorem calm_ensureEpoch (requestId : Option (BitVec 64)) (b : Binding) :
    Calm P m b (b.ensureEpoch requestId) := by
  unfold ensureEpoch
  split
  · exact .refl b
  · cases requestId with
    | none => exact .refl b
    | some id => exact { Calm.refl (P := P) b with }

/-- The messages `msgs` are KEEPALIVEs a binding may send. -/
def HonestKeepalives (P : Primitives) (b : Binding) (msgs : List Msg) : Prop :=
  ∀ x ∈ msgs, ∃ st, x = .keepalive st ∧ b.Honest P st

theorem calm_sendL3Keepalive (requestId : Option (BitVec 64)) (b : Binding) :
    Calm P m b (b.pqcHsSendL3Keepalive P requestId).1 ∧
      HonestKeepalives P b (b.pqcHsSendL3Keepalive P requestId).2 := by
  have calm := calm_ensureEpoch (P := P) (m := m) requestId b
  unfold pqcHsSendL3Keepalive
  dsimp only
  split_ifs
  · exact ⟨.refl b, by simp [HonestKeepalives]⟩
  · exact ⟨calm, by simp [HonestKeepalives]⟩
  · refine ⟨{ calm with }, fun x hx => ⟨_, List.mem_singleton.mp hx, ?_⟩⟩
    have honest := keepaliveStatus_honest (P := P) (b.ensureEpoch requestId).localRequestId
      (succKeepaliveSeq (b.ensureEpoch requestId).localKeepaliveSeq) (b.ensureEpoch requestId)
    intro online
    obtain ⟨ready, fp⟩ := honest online
    exact ⟨calm.keyReady ▸ ready, calm.slots ▸ fp⟩

theorem calm_workerKeepalive (now : ℕ) (requestId : Option (BitVec 64)) (sendNow : Bool)
    (state : HsState) (b : Binding) (l : WorkerLocals) :
    Calm P m b (b.workerKeepalive P now requestId sendNow state l).1 ∧
      HonestKeepalives P b (b.workerKeepalive P now requestId sendNow state l).2.2 := by
  have sent := calm_sendL3Keepalive (P := P) (m := m) requestId b
  unfold workerKeepalive
  dsimp only
  generalize (if sendNow = true then { l with nextL3KeepaliveTime := now } else l) = l'
  generalize (if (b.keepaliveEnabled && l'.nextL3KeepaliveTime == 0) = true then _ else l') = l''
  split
  · exact sent
  · exact ⟨.refl b, by simp [HonestKeepalives]⟩

/-- Discarding PREV, when it happens. -/
theorem sigPqcDiscardPrevKey_slots (b : Binding) :
    b.sigPqcDiscardPrevKey.slots.prev.valid = false ∧
      b.sigPqcDiscardPrevKey.slots.current = b.slots.current ∧
      b.sigPqcDiscardPrevKey.slots.next = b.slots.next := by
  unfold sigPqcDiscardPrevKey
  split
  · exact ⟨rfl, rfl, rfl⟩
  · exact ⟨by simpa using ‹¬ b.slots.prev.valid = true›, rfl, rfl⟩

/-- The loop head: it moves no key but PREV, which it discards only when that was scheduled. -/
structure HeadEffect (P : Primitives) (b b' : Binding) (msgs : List Msg) : Prop where
  keyReady : b'.keyReady = b.keyReady
  asleep : b'.handshakeGiveUp = true → b.handshakeGiveUp = true
  cache : (b'.hsCache = b.hsCache ∧ b'.hsCacheNext = b.hsCacheNext) ∨
    (b.keyReady = false ∧ b'.hsCache = (fun _ => none) ∧ b'.hsCacheNext = 0)
  queue : ∀ x ∈ b'.rxQueue, x ∈ b.rxQueue
  current : b'.slots.current = b.slots.current
  next : b'.slots.next = b.slots.next
  prev : (b'.slots.prev = b.slots.prev ∧
      (b'.prevDiscardAfterMs = b.prevDiscardAfterMs ∨ b'.prevDiscardAfterMs = 0)) ∨
    (b.prevDiscardAfterMs ≠ 0 ∧ b'.slots.prev.valid = false ∧ b'.prevDiscardAfterMs = 0)
  honest : HonestKeepalives P b' msgs

theorem HeadEffect.of_calm (calm : Calm P none b b') : HeadEffect P b b' [] where
  keyReady := calm.keyReady
  asleep := calm.asleep
  cache := calm.cache
  queue := fun x hx => (calm.queue x hx).resolve_left (by simp)
  current := by rw [calm.slots]
  next := by rw [calm.slots]
  prev := .inl ⟨by rw [calm.slots],
    calm.discard.imp_right fun h => h.resolve_right fun ⟨_, absent, _⟩ => nomatch absent⟩
  honest := by simp [HonestKeepalives]

/-- Sending KEEPALIVEs after the rest of the loop head changes nothing but the replay numbers. -/
theorem HeadEffect.then_calm {msgs : List Msg} (first : HeadEffect P b b' [])
    (second : Calm P none b' b'') (honest : HonestKeepalives P b' msgs) :
    HeadEffect P b b'' msgs where
  keyReady := second.keyReady.trans first.keyReady
  asleep := fun h => first.asleep (second.asleep h)
  cache := by
    rcases second.cache with ⟨cache, next⟩ | ⟨ready, cleared⟩
    · rw [cache, next]
      exact first.cache
    · exact .inr ⟨first.keyReady ▸ ready, cleared⟩
  queue := fun x hx => first.queue x ((second.queue x hx).resolve_left (by simp))
  current := by rw [second.slots, first.current]
  next := by rw [second.slots, first.next]
  prev := by
    have discard : b''.prevDiscardAfterMs = b'.prevDiscardAfterMs ∨ b''.prevDiscardAfterMs = 0 :=
      second.discard.imp_right fun h => h.resolve_right fun ⟨_, absent, _⟩ => nomatch absent
    rcases first.prev with ⟨same, kept⟩ | ⟨armed, gone, disarmed⟩
    · refine .inl ⟨by rw [second.slots, same], ?_⟩
      rcases discard with same' | zero
      · rw [same']
        exact kept
      · exact .inr zero
    · refine .inr ⟨armed, by rw [second.slots]; exact gone, ?_⟩
      rcases discard with same' | zero
      · rw [same', disarmed]
      · exact zero
  honest := by
    intro x hx
    obtain ⟨st, rfl, said⟩ := honest x hx
    refine ⟨st, rfl, fun online => ?_⟩
    obtain ⟨ready, fp⟩ := said online
    exact ⟨second.keyReady ▸ ready, second.slots ▸ fp⟩

theorem workerHead_effect (now : ℕ) (d : Draws) (l : WorkerLocals) (asleep : b.Asleep) :
    HeadEffect P b (b.workerHead P now d l).1 (b.workerHead P now d l).2.2 := by
  have kept := HeadEffect.of_calm (calm_workerHousekeeping (P := P) now asleep)
  have sent (b' : Binding) := calm_workerKeepalive (P := P) (m := none) now d.requestId
    b.keepaliveSendNow (b.workerHousekeeping now).pqcHsL3State b' l
  unfold workerHead
  dsimp only
  by_cases discarding : (b.prevDiscardDue now && d.prevDiscarded) = true
  · rw [if_pos discarding]
    obtain ⟨due, -⟩ := Bool.and_eq_true_iff.mp discarding
    have armed : b.prevDiscardAfterMs ≠ 0 := by
      unfold prevDiscardDue at due
      simpa using (Bool.and_eq_true_iff.mp due).1
    obtain ⟨gone, current, next⟩ := sigPqcDiscardPrevKey_slots (b.workerHousekeeping now)
    have unchanged : (b.workerHousekeeping now).sigPqcDiscardPrevKey =
        { b.workerHousekeeping now with
          slots := (b.workerHousekeeping now).sigPqcDiscardPrevKey.slots } := by
      unfold sigPqcDiscardPrevKey
      split <;> rfl
    have discarded : HeadEffect P b (b.workerHousekeeping now).sigPqcDiscardPrevKey [] := by
      rw [unchanged]
      exact { kept with
        current := current.trans kept.current
        next := next.trans kept.next
        prev := .inr ⟨armed, gone, workerHousekeeping_disarms now due⟩
        honest := by simp [HonestKeepalives] }
    exact discarded.then_calm (sent _).1 (sent _).2
  · rw [if_neg discarding]
    exact kept.then_calm (sent _).1 (sent _).2

end Binding

end NeEncryptor.Pqc
