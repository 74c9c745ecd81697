import NeEncryptor.Lib.Transition
import NeEncryptor.Pqc.Feed

/-!
# Replay detection of control messages

The replay memory of a binding is the last accepted KEEPALIVE epoch and sequence number and the last
accepted request id.  It recognises every replay as long as epochs and request ids arrive one after
the other; a message of an earlier epoch, or of an earlier request id, acts again.
-/

namespace NeEncryptor.Pqc

namespace Binding

/-- The fields replay detection compares. -/
def replayMemory (b : Binding) : BitVec 64 × BitVec 64 × BitVec 64 :=
  (b.peerKeepaliveEpoch, b.peerKeepaliveSeq, b.peerRequestId)

def withQueue (queue : List Msg) (b : Binding) : Binding := { b with rxQueue := queue }

/-- A delivery changes the binding beyond queueing a message. -/
def ActsOn (P : Primitives) (now : ℕ) (m : Msg) (b : Binding) : Prop :=
  (b.sigPqcFeedRxPacket P now m).withQueue b.rxQueue ≠ b

instance (P : Primitives) (now : ℕ) (m : Msg) (b : Binding) : Decidable (b.ActsOn P now m) :=
  inferInstanceAs (Decidable (_ ≠ _))

@[simp] theorem replayMemory_withQueue (queue : List Msg) (b : Binding) :
    (b.withQueue queue).replayMemory = b.replayMemory := rfl

@[simp] theorem replayMemory_feedPacket (m : Msg) (b : Binding) :
    (b.pqcFeedPacket m).replayMemory = b.replayMemory := by
  unfold pqcFeedPacket
  split <;> rfl

@[simp] theorem replayMemory_wakeForHello (now : ℕ) (b : Binding) :
    (b.wakeForHello now).replayMemory = b.replayMemory := by
  unfold wakeForHello
  split
  · dsimp only
    split <;> rfl
  · rfl

theorem replayMemory_acceptKeepalive (P : Primitives) (now : ℕ) (st : KeepaliveStatus)
    (b : Binding) :
    (b.acceptKeepalive P now st).replayMemory = (st.epoch, st.sequence, b.peerRequestId) := by
  have recovery (b : Binding) : (b.keepaliveRecovery now).replayMemory = b.replayMemory := by
    unfold keepaliveRecovery
    dsimp only
    split_ifs <;> rfl
  have compare (b : Binding) :
      (b.compareFingerprint P now st.keyFingerprint).replayMemory = b.replayMemory := by
    unfold compareFingerprint
    split_ifs <;> first | rfl | exact recovery b
  unfold acceptKeepalive
  dsimp only
  split_ifs
  · rfl
  · exact compare _
  · exact recovery _

theorem replayMemory_acceptRequest (now : ℕ) (requestId : BitVec 64) (b : Binding) :
    (b.acceptRequest now requestId).replayMemory =
      (b.peerKeepaliveEpoch, b.peerKeepaliveSeq, requestId) := by
  unfold acceptRequest
  dsimp only
  split <;> rfl

/-- A KEEPALIVE that acts was verified and is no replay for the replay memory. -/
theorem keepalive_of_actsOn {P : Primitives} {now : ℕ} {st : KeepaliveStatus} {b : Binding}
    (acts : b.ActsOn P now (.keepalive st)) :
    b.pqcHsVerifyL3Keepalive st = true ∧
      ¬ (st.epoch = b.peerKeepaliveEpoch ∧ st.sequence ≤ b.peerKeepaliveSeq) ∧
      b.sigPqcFeedRxPacket P now (.keepalive st) = b.acceptKeepalive P now st := by
  unfold ActsOn sigPqcFeedRxPacket at acts
  unfold sigPqcFeedRxPacket
  dsimp only at acts ⊢
  by_cases tunnel : b.identity.isTunnel = true
  · rw [if_pos tunnel] at acts ⊢
    by_cases verified : b.pqcHsVerifyL3Keepalive st = true
    · simp only [verified, Bool.not_true, Bool.false_eq_true, if_false] at acts ⊢
      by_cases replay : st.epoch = b.peerKeepaliveEpoch ∧ st.sequence ≤ b.peerKeepaliveSeq
      · rw [if_pos replay] at acts
        exact absurd rfl acts
      · exact ⟨trivial, replay, if_neg replay⟩
    · rw [if_pos (by simpa using verified)] at acts
      exact absurd rfl acts
  · rw [if_neg tunnel] at acts
    unfold pqcFeedPacket at acts
    split at acts <;> exact absurd rfl acts

/-- A POKE that acts was verified and is not the remembered request. -/
theorem request_of_actsOn {P : Primitives} {now : ℕ} {requestId : BitVec 64} {b : Binding}
    (acts : b.ActsOn P now (.poke requestId)) :
    b.pqcHsVerifyL3Request requestId = true ∧ requestId ≠ b.peerRequestId ∧
      b.sigPqcFeedRxPacket P now (.poke requestId) = b.acceptRequest now requestId := by
  unfold ActsOn sigPqcFeedRxPacket at acts
  unfold sigPqcFeedRxPacket
  dsimp only at acts ⊢
  by_cases verified : b.pqcHsVerifyL3Request requestId = true
  · simp only [verified, Bool.not_true, Bool.false_eq_true, if_false] at acts ⊢
    by_cases replay : requestId = b.peerRequestId
    · rw [if_pos replay] at acts
      exact absurd rfl acts
    · exact ⟨trivial, replay, if_neg replay⟩
  · rw [if_pos (by simpa using verified)] at acts
    exact absurd rfl acts

theorem replayMemory_quiet {P : Primitives} {now : ℕ} {m : Msg} {b : Binding}
    (quiet : ¬ b.ActsOn P now m) :
    (b.sigPqcFeedRxPacket P now m).replayMemory = b.replayMemory := by
  have same : (b.sigPqcFeedRxPacket P now m).withQueue b.rxQueue = b := not_not.mp quiet
  rw [← replayMemory_withQueue b.rxQueue, same]

/-- Only KEEPALIVE and POKE move the replay memory. -/
theorem replayMemory_feed {P : Primitives} {now : ℕ} {m : Msg} {b : Binding}
    (keepalive : ∀ st, m ≠ .keepalive st) (poke : ∀ id, m ≠ .poke id) :
    (b.sigPqcFeedRxPacket P now m).replayMemory = b.replayMemory := by
  cases m with
  | keepalive st => exact absurd rfl (keepalive st)
  | poke id => exact absurd rfl (poke id)
  | hello h => simp only [sigPqcFeedRxPacket, replayMemory_feedPacket, replayMemory_wakeForHello]
  | resp _ _ | ready _ | commit _ => simp only [sigPqcFeedRxPacket, replayMemory_feedPacket]

end Binding

/-- A run of deliveries, with the epochs and request ids that were delivered so far and the messages
that have acted. -/
structure Deliveries where
  b : Binding
  epochs : List (BitVec 64)
  requests : List (BitVec 64)
  actedKeepalives : List (BitVec 64 × BitVec 64)
  actedRequests : List (BitVec 64)

inductive DeliveryStep
  /-- The dispatcher hands over an authentic message. -/
  | feed (now : ℕ) (m : Msg)
  /-- The worker, a retry or the encryptor moves the binding; none of them touches the replay
  memory. -/
  | elsewhere (b : Binding)

namespace Deliveries

def start (b : Binding) : Deliveries := ⟨b, [], [], [], []⟩

def step (P : Primitives) (s : Deliveries) : DeliveryStep → Option Deliveries
  | .elsewhere b => if b.replayMemory = s.b.replayMemory then some { s with b := b } else none
  | .feed now m =>
    let s' := { s with b := s.b.sigPqcFeedRxPacket P now m }
    match m with
    | .keepalive st => some { s' with
        epochs := if s.b.pqcHsVerifyL3Keepalive st then st.epoch :: s.epochs else s.epochs
        actedKeepalives := if s.b.ActsOn P now m then (st.epoch, st.sequence) :: s.actedKeepalives
          else s.actedKeepalives }
    | .poke id => some { s' with
        requests := if s.b.pqcHsVerifyL3Request id then id :: s.requests else s.requests
        actedRequests := if s.b.ActsOn P now m then id :: s.actedRequests else s.actedRequests }
    | _ => some s'

/-- No epoch and no request id comes back after another one was accepted. -/
def InOrder (s : Deliveries) : DeliveryStep → Prop
  | .feed _ (.keepalive st) => st.epoch = s.b.peerKeepaliveEpoch ∨ st.epoch ∉ s.epochs
  | .feed _ (.poke id) => id = s.b.peerRequestId ∨ id ∉ s.requests
  | _ => True

instance (s : Deliveries) (a : DeliveryStep) : Decidable (InOrder s a) := by
  unfold InOrder
  split <;> infer_instance

/-- Each message acts at most once. -/
structure AtMostOnce (s : Deliveries) : Prop where
  keepalives : s.actedKeepalives.Nodup
  requests : s.actedRequests.Nodup

instance (s : Deliveries) : Decidable s.AtMostOnce :=
  decidable_of_iff (s.actedKeepalives.Nodup ∧ s.actedRequests.Nodup)
    ⟨fun h => ⟨h.1, h.2⟩, fun h => ⟨h.1, h.2⟩⟩

/-- What the replay memory knows about the messages that have acted. -/
structure MemoryInv (s : Deliveries) : Prop where
  once : s.AtMostOnce
  keepaliveSeen : ∀ a ∈ s.actedKeepalives, a.1 ∈ s.epochs
  keepaliveBound : ∀ a ∈ s.actedKeepalives,
    a.1 = s.b.peerKeepaliveEpoch → a.2 ≤ s.b.peerKeepaliveSeq
  requestSeen : ∀ id ∈ s.actedRequests, id ∈ s.requests

theorem MemoryInv.of_replayMemory {s : Deliveries} (inv : s.MemoryInv) {b : Binding}
    (same : b.replayMemory = s.b.replayMemory) : MemoryInv { s with b := b } := by
  simp only [Binding.replayMemory, Prod.mk.injEq] at same
  obtain ⟨epoch, seq, -⟩ := same
  refine ⟨⟨inv.once.keepalives, inv.once.requests⟩, inv.keepaliveSeen, ?_, inv.requestSeen⟩
  intro a ha same
  rw [seq]
  exact inv.keepaliveBound a ha (same.trans epoch)

theorem memoryInv_keepalive {P : Primitives} {s : Deliveries} (inv : s.MemoryInv) (now : ℕ)
    (st : KeepaliveStatus) (acts : s.b.ActsOn P now (.keepalive st))
    (ordered : st.epoch = s.b.peerKeepaliveEpoch ∨ st.epoch ∉ s.epochs) :
    MemoryInv { s with
      b := s.b.sigPqcFeedRxPacket P now (.keepalive st)
      epochs := st.epoch :: s.epochs
      actedKeepalives := (st.epoch, st.sequence) :: s.actedKeepalives } := by
  obtain ⟨-, noReplay, accepted⟩ := Binding.keepalive_of_actsOn acts
  have memory := Binding.replayMemory_acceptKeepalive P now st s.b
  rw [← accepted] at memory
  simp only [Binding.replayMemory, Prod.mk.injEq] at memory
  obtain ⟨epoch, seq, -⟩ := memory
  -- Earlier messages of this epoch are bounded by the remembered sequence number.
  have older : ∀ a ∈ s.actedKeepalives, a.1 = st.epoch → a.2 < st.sequence := by
    intro a ha same
    rcases ordered with current | unseen
    · have bound := inv.keepaliveBound a ha (same.trans current)
      have fresh : ¬ st.sequence ≤ s.b.peerKeepaliveSeq := fun h => noReplay ⟨current, h⟩
      exact Nat.lt_of_le_of_lt bound (BitVec.not_le.mp fresh)
    · exact absurd (same ▸ inv.keepaliveSeen a ha) unseen
  refine ⟨⟨List.nodup_cons.mpr ⟨fun h => ?_, inv.once.keepalives⟩, inv.once.requests⟩, ?_, ?_,
    inv.requestSeen⟩
  · exact BitVec.lt_irrefl _ (older _ h rfl)
  · intro a ha
    rcases List.mem_cons.mp ha with rfl | ha
    · exact List.mem_cons_self
    · exact List.mem_cons_of_mem _ (inv.keepaliveSeen a ha)
  · intro a ha same
    rcases List.mem_cons.mp ha with rfl | ha
    · rw [seq]
      exact BitVec.le_refl _
    · rw [seq]
      exact BitVec.le_of_lt (older a ha (same.trans epoch))

theorem memoryInv_request {P : Primitives} {s : Deliveries} (inv : s.MemoryInv) (now : ℕ)
    (id : BitVec 64) (acts : s.b.ActsOn P now (.poke id))
    (ordered : id = s.b.peerRequestId ∨ id ∉ s.requests) :
    MemoryInv { s with
      b := s.b.sigPqcFeedRxPacket P now (.poke id)
      requests := id :: s.requests
      actedRequests := id :: s.actedRequests } := by
  obtain ⟨-, other, accepted⟩ := Binding.request_of_actsOn acts
  have memory := Binding.replayMemory_acceptRequest now id s.b
  rw [← accepted] at memory
  simp only [Binding.replayMemory, Prod.mk.injEq] at memory
  obtain ⟨epoch, seq, -⟩ := memory
  have unseen : id ∉ s.requests := ordered.resolve_left other
  refine ⟨⟨inv.once.keepalives, List.nodup_cons.mpr ⟨fun h => ?_, inv.once.requests⟩⟩,
    inv.keepaliveSeen, ?_, ?_⟩
  · exact unseen (inv.requestSeen id h)
  · intro a ha same
    rw [seq]
    exact inv.keepaliveBound a ha (same.trans epoch)
  · intro a ha
    rcases List.mem_cons.mp ha with rfl | ha
    · exact List.mem_cons_self
    · exact List.mem_cons_of_mem _ (inv.requestSeen a ha)

/-- Seeing one more epoch or request id that does not act changes nothing the invariant needs. -/
theorem MemoryInv.weaken {s : Deliveries} (inv : s.MemoryInv) {epochs requests : List (BitVec 64)}
    (more : s.epochs ⊆ epochs) (moreRequests : s.requests ⊆ requests) :
    MemoryInv { s with epochs := epochs, requests := requests } :=
  ⟨⟨inv.once.keepalives, inv.once.requests⟩, fun a ha => more (inv.keepaliveSeen a ha),
    inv.keepaliveBound, fun id hid => moreRequests (inv.requestSeen id hid)⟩

theorem memoryInv_step {P : Primitives} {s t : Deliveries} {a : DeliveryStep} (inv : s.MemoryInv)
    (ordered : InOrder s a) (h : step P s a = some t) : t.MemoryInv := by
  cases a with
  | elsewhere b =>
    unfold step at h
    dsimp only at h
    split at h
    · cases h
      exact inv.of_replayMemory ‹_›
    · cases h
  | feed now m =>
    have quiet : ¬ s.b.ActsOn P now m → MemoryInv { s with b := s.b.sigPqcFeedRxPacket P now m } :=
      fun still => inv.of_replayMemory (Binding.replayMemory_quiet still)
    cases m with
    | keepalive st =>
      cases h
      by_cases acts : s.b.ActsOn P now (.keepalive st)
      · have verified := (Binding.keepalive_of_actsOn acts).1
        simpa only [if_pos acts, if_pos verified] using memoryInv_keepalive inv now st acts ordered
      · rw [if_neg acts]
        refine (quiet acts).weaken ?_ (List.Subset.refl _)
        split
        · exact List.subset_cons_self _ _
        · exact List.Subset.refl _
    | poke id =>
      cases h
      by_cases acts : s.b.ActsOn P now (.poke id)
      · have verified := (Binding.request_of_actsOn acts).1
        simpa only [if_pos acts, if_pos verified] using memoryInv_request inv now id acts ordered
      · rw [if_neg acts]
        refine (quiet acts).weaken (List.Subset.refl _) ?_
        split
        · exact List.subset_cons_self _ _
        · exact List.Subset.refl _
    | hello _ | resp _ _ | ready _ | commit _ =>
      cases h
      exact inv.of_replayMemory (Binding.replayMemory_feed (by simp) (by simp))

theorem memoryInv_start (b : Binding) : (start b).MemoryInv :=
  ⟨⟨List.nodup_nil, List.nodup_nil⟩, by simp [start], by simp [start], by simp [start]⟩

/-- **Control messages act at most once** in every run whose epochs and request ids arrive in
order. -/
theorem act_at_most_once (P : Primitives) (b : Binding) (s : Deliveries)
    (run : Transition.ReachableWith (step P) InOrder (start b) s) : s.AtMostOnce :=
  (run.invariant (memoryInv_start b) fun _ _ _ inv ordered h => memoryInv_step inv ordered h).once

/-- The KEEPALIVE of a responder without a key. -/
def sampleKeepalive (epoch sequence : BitVec 64) : DeliveryStep :=
  .feed 1 (.keepalive ⟨.failed, false, 0, 0, epoch, sequence⟩)

/-- Duplicates that arrive before the next epoch. -/
def sampleDeliveries : List DeliveryStep :=
  [sampleKeepalive 1 5, sampleKeepalive 1 5, .feed 2 (.poke 9), .feed 3 (.poke 9),
    sampleKeepalive 2 1]

theorem act_at_most_once_sample :
    ((Transition.runWith (step samplePrimitives) InOrder (start (sampleBinding 1 1 .initiator))
      sampleDeliveries).map fun s => decide s.AtMostOnce) = some true := by
  obtain ⟨s, h⟩ := Option.isSome_iff_exists.mp (show (Transition.runWith (step samplePrimitives)
    InOrder (start (sampleBinding 1 1 .initiator)) sampleDeliveries).isSome = true by
      decide +kernel)
  rw [h, Option.map_some, Option.some_inj, decide_eq_true_eq]
  exact act_at_most_once samplePrimitives _ s (.of_runWith _ h)

/-- The messages of an earlier epoch, and a request before the last one, act again when replayed. -/
theorem replays_act_again :
    ¬ ∀ s, Transition.Reachable (step samplePrimitives) (start (sampleBinding 1 1 .initiator)) s →
      s.AtMostOnce :=
  Transition.not_always_of_run
    [sampleKeepalive 1 5, sampleKeepalive 2 1, sampleKeepalive 1 5,
      .feed 2 (.poke 9), .feed 3 (.poke 10), .feed 4 (.poke 9)] (by decide +kernel)

end Deliveries

end NeEncryptor.Pqc
