import NeEncryptor.Pqc.Effects
import NeEncryptor.Pqc.PolicyBindings

/-!
# Bindings and their sessions

What the operations on a cell keep: a CURRENT key belongs to a ready session or to one that was
retried by hand, the other slots are used only next to a CURRENT key, and every key in a slot was
negotiated with the identity the binding has now.
-/

namespace NeEncryptor.Pqc

/-- The keys of the valid slots were negotiated with the identity the binding has now. -/
structure Cell.Negotiated (c : Cell) : Prop where
  prev : c.b.slots.prev.valid = true → c.negotiatedAs.prev = c.b.identity
  current : c.b.slots.current.valid = true → c.negotiatedAs.current = c.b.identity
  next : c.b.slots.next.valid = true → c.negotiatedAs.next = c.b.identity

structure Cell.Inv (c : Cell) : Prop where
  asleep : c.b.Asleep
  ready : c.b.slots.current.valid = true → c.b.keyReady = true ∨ c.retried = true
  prev : c.b.slots.prev.valid = true → c.b.slots.current.valid = true
  next : c.b.slots.next.valid = true → c.b.slots.current.valid = true
  negotiated : c.Negotiated

namespace Binding

/-- The policy and the identity of a binding stay. -/
def SameOwner (b b' : Binding) : Prop := b'.policyId = b.policyId ∧ b'.identity = b.identity

variable {P : Primitives} {b : Binding}

theorem sameOwner_feedPacket (m : Msg) (b : Binding) : SameOwner b (b.pqcFeedPacket m) := by
  unfold pqcFeedPacket
  split <;> exact ⟨rfl, rfl⟩

theorem sameOwner_keepaliveRecovery (now : ℕ) (b : Binding) :
    SameOwner b (b.keepaliveRecovery now) := by
  unfold keepaliveRecovery
  dsimp only
  split_ifs <;> exact ⟨rfl, rfl⟩

theorem sameOwner_acceptKeepalive (now : ℕ) (st : KeepaliveStatus) (b : Binding) :
    SameOwner b (b.acceptKeepalive P now st) := by
  unfold acceptKeepalive compareFingerprint
  dsimp only
  split_ifs <;> first | exact ⟨rfl, rfl⟩ | exact sameOwner_keepaliveRecovery now _

theorem sameOwner_feed (now : ℕ) (m : Msg) (b : Binding) :
    SameOwner b (b.sigPqcFeedRxPacket P now m) := by
  unfold sigPqcFeedRxPacket
  cases m with
  | keepalive st =>
    dsimp only
    split_ifs
    · exact ⟨rfl, rfl⟩
    · exact ⟨rfl, rfl⟩
    · exact sameOwner_acceptKeepalive now st b
    · exact sameOwner_feedPacket _ b
  | poke requestId =>
    dsimp only
    unfold acceptRequest
    dsimp only
    split_ifs <;> exact ⟨rfl, rfl⟩
  | hello h =>
    have woken : SameOwner b (b.wakeForHello now) := by
      unfold wakeForHello
      dsimp only
      split_ifs <;> exact ⟨rfl, rfl⟩
    have fed := sameOwner_feedPacket (.hello h) (b.wakeForHello now)
    exact ⟨fed.1.trans woken.1, fed.2.trans woken.2⟩
  | resp _ _ | ready _ | commit _ => exact sameOwner_feedPacket _ b

theorem sameOwner_requestNewSession (b : Binding) : SameOwner b b.sigPqcRequestNewSession := by
  unfold sigPqcRequestNewSession
  split <;> exact ⟨rfl, rfl⟩

theorem sameOwner_workerHousekeeping (now : ℕ) (b : Binding) :
    SameOwner b (b.workerHousekeeping now) := by
  unfold workerHousekeeping autoRetry livenessTick
  dsimp only
  split_ifs <;> exact ⟨rfl, rfl⟩

theorem sameOwner_handshakeSuccess (now : ℕ) (key : TrafficKey) (b : Binding) :
    SameOwner b (b.handleHandshakeSuccess now key) := by
  unfold handleHandshakeSuccess
  dsimp only
  split <;> exact ⟨rfl, rfl⟩

theorem sameOwner_discardPrevKey (b : Binding) : SameOwner b b.sigPqcDiscardPrevKey := by
  unfold sigPqcDiscardPrevKey
  split <;> exact ⟨rfl, rfl⟩

theorem sameOwner_triggerRetry (now : ℕ) (requestId : BitVec 64) (b : Binding) :
    SameOwner b (b.sigPqcTriggerRetry now requestId) := by
  unfold sigPqcTriggerRetry
  dsimp only
  split <;> exact ⟨rfl, rfl⟩

/-- What `bindFields` writes, as far as keys are concerned. -/
theorem bindFields_keeps (now : ℕ) (requestId : BitVec 64) (fresh : Bool) (policyId profileId : ℤ)
    (identity : BindIdentity) (b : Binding) :
    (b.bindFields now requestId fresh policyId profileId identity).slots = b.slots ∧
      (b.bindFields now requestId fresh policyId profileId identity).keyReady = b.keyReady ∧
      (b.bindFields now requestId fresh policyId profileId identity).handshakeGiveUp =
        b.handshakeGiveUp ∧
      (b.bindFields now requestId fresh policyId profileId identity).identity = identity ∧
      (b.bindFields now requestId fresh policyId profileId identity).policyId = policyId := by
  unfold bindFields
  dsimp only
  split_ifs <;> exact ⟨rfl, rfl, rfl, rfl, rfl⟩

end Binding

namespace Cell

open Binding

variable {c : Cell}

/-- An operation that moves no key and keeps the owner. -/
theorem Inv.map {f : Binding → Binding} (inv : c.Inv) (slots : (f c.b).slots = c.b.slots)
    (keyReady : (f c.b).keyReady = c.b.keyReady) (asleep : (f c.b).Asleep)
    (owner : SameOwner c.b (f c.b)) : (c.map f).Inv where
  asleep := asleep
  ready := by
    simp only [Cell.map, slots, keyReady]
    exact inv.ready
  prev := by
    simp only [Cell.map, slots]
    exact inv.prev
  next := by
    simp only [Cell.map, slots]
    exact inv.next
  negotiated := by
    refine ⟨?_, ?_, ?_⟩ <;> simp only [Cell.map, slots, owner.2]
    · exact inv.negotiated.prev
    · exact inv.negotiated.current
    · exact inv.negotiated.next

theorem Inv.calm {P : Primitives} {m : Option Msg} {f : Binding → Binding} (inv : c.Inv)
    (calm : Calm P m c.b (f c.b)) (owner : SameOwner c.b (f c.b)) : (c.map f).Inv :=
  inv.map calm.slots calm.keyReady (calm.keepsAsleep inv.asleep) owner

/-- A promotion moves CURRENT and its identity to PREV. -/
theorem Inv.promoted {now : ℕ} {key : TrafficKey} {next : BindIdentity} (inv : c.Inv) :
    ({ c with
      b := c.b.handleHandshakeSuccess now key
      negotiatedAs := ⟨c.negotiatedAs.current, c.b.identity, next⟩
      retried := false } : Cell).Inv := by
  have owner := sameOwner_handshakeSuccess now key c.b
  constructor
  · intro gaveUp
    rw [handshakeSuccess_handshakeGiveUp] at gaveUp
    cases gaveUp
  · intro _
    exact .inl (handshakeSuccess_keyReady now key c.b)
  · intro _
    simp [promoteSlots]
  · intro _
    simp [promoteSlots]
  · refine ⟨?_, ?_, ?_⟩ <;> simp only [handshakeSuccess_slots, promoteSlots, owner.2]
    · exact inv.negotiated.current
    · exact fun _ => trivial
    · rintro ⟨⟩

theorem Inv.success (now : ℕ) (key : TrafficKey) (inv : c.Inv) : (c.success now key).Inv :=
  inv.promoted

theorem Inv.stage (key : TrafficKey) (inv : c.Inv) : (c.stage key).Inv := by
  unfold Cell.stage pqcHsStageNextKey
  split
  · rename_i b staged
    split_ifs at staged with ready
    obtain rfl := Option.some_inj.mp staged
    rw [Bool.and_eq_true] at ready
    exact
      { asleep := inv.asleep
        ready := inv.ready
        prev := inv.prev
        next := fun _ => ready.2
        negotiated := ⟨inv.negotiated.prev, inv.negotiated.current, fun _ => rfl⟩ }
  · exact inv

theorem Inv.promoteStaged (now : ℕ) (inv : c.Inv) : (c.promoteStaged now).Inv := by
  unfold Cell.promoteStaged pqcHsPromoteStagedKey
  split
  · rename_i b promoted
    split_ifs at promoted with staged
    obtain rfl := Option.some_inj.mp promoted
    rw [inv.negotiated.next staged]
    exact inv.promoted
  · exact inv

theorem Inv.retry (now : ℕ) (requestId : BitVec 64) (inv : c.Inv) :
    (c.retry now requestId).Inv := by
  have owner := sameOwner_triggerRetry now requestId c.b
  have slots := triggerRetry_slots now requestId c.b
  constructor
  · intro asleep
    rw [Cell.retry, triggerRetry_handshakeGiveUp] at asleep
    cases asleep
  · intro valid
    simp only [Cell.retry, slots] at valid ⊢
    exact .inr (by simp [valid])
  · simp only [Cell.retry, slots]
    exact inv.prev
  · simp only [Cell.retry, slots, KeySlot.wiped]
    rintro ⟨⟩
  · refine ⟨?_, ?_, ?_⟩ <;> simp only [Cell.retry, slots, owner.2]
    · exact inv.negotiated.prev
    · exact inv.negotiated.current
    · rintro ⟨⟩

theorem Inv.discardPrev (inv : c.Inv) : (c.map .sigPqcDiscardPrevKey).Inv := by
  unfold Cell.map sigPqcDiscardPrevKey
  split
  · exact
      { asleep := inv.asleep
        ready := inv.ready
        prev := by rintro ⟨⟩
        next := inv.next
        negotiated := ⟨by rintro ⟨⟩, inv.negotiated.current, inv.negotiated.next⟩ }
  · exact inv

/-- A wiped binding has no session. -/
theorem inv_of_wiped (asleep : c.b.Asleep) (prev : c.b.slots.prev.valid = false)
    (current : c.b.slots.current.valid = false) (next : c.b.slots.next.valid = false) : c.Inv where
  asleep := asleep
  ready := by rw [current]; rintro ⟨⟩
  prev := by rw [prev]; rintro ⟨⟩
  next := by rw [next]; rintro ⟨⟩
  negotiated := ⟨by rw [prev]; rintro ⟨⟩, by rw [current]; rintro ⟨⟩, by rw [next]; rintro ⟨⟩⟩

theorem Inv.finalizeReload (stops : ℤ → Bool) (inv : c.Inv) : (c.finalizeReload stops).Inv := by
  unfold Cell.finalizeReload
  split_ifs
  · exact inv
  · exact inv.map rfl rfl inv.asleep ⟨rfl, rfl⟩
  · exact inv.map rfl rfl inv.asleep ⟨rfl, rfl⟩
  · exact inv_of_wiped (fun _ => rfl) rfl rfl rfl

theorem inv_bound (now : ℕ) (requestId : BitVec 64) (policyId profileId : ℤ)
    (identity : BindIdentity) : (bound now requestId policyId profileId identity).Inv := by
  obtain ⟨slots, -, gaveUp, -, -⟩ :=
    bindFields_keeps now requestId true policyId profileId identity Binding.unbound
  refine inv_of_wiped ?_ ?_ ?_ ?_
  · intro asleep
    rw [bound, bindNew, gaveUp] at asleep
    cases asleep
  all_goals
    rw [bound, bindNew, slots]
    rfl

theorem Inv.active (active : Bool) (inv : c.Inv) : ({ c with active := active } : Cell).Inv :=
  { asleep := inv.asleep
    ready := inv.ready
    prev := inv.prev
    next := inv.next
    negotiated :=
      ⟨inv.negotiated.prev, inv.negotiated.current, inv.negotiated.next⟩ }

/-- A changed identity is bound only where no CURRENT key is left. -/
theorem Inv.bind (now : ℕ) (requestId : BitVec 64) (profileId : ℤ) (identity : BindIdentity)
    (stops : Bool) (inv : c.Inv)
    (ok : identity ≠ c.b.identity → (c.b.threadStarted = true → stops = true) →
      c.b.slots.current.valid = false) :
    ({ c with
      b := c.b.sigPqcBindPolicy now requestId profileId identity stops
      active := true } : Cell).Inv := by
  unfold sigPqcBindPolicy
  split_ifs with same stuck
  · obtain ⟨slots, ready, gaveUp, owner, named⟩ :=
      bindFields_keeps now requestId false c.b.policyId profileId identity c.b
    have kept := inv.map (f := fun b => b.bindFields now requestId false c.b.policyId profileId identity)
      slots ready (by rw [Binding.Asleep, gaveUp, ready]; exact inv.asleep)
      ⟨named, owner.trans same⟩
    exact kept.active true
  · have kept := inv.map (f := fun b => { b with threadExitSig := true }) rfl rfl inv.asleep ⟨rfl, rfl⟩
    exact kept.active true
  · have stopped : c.b.threadStarted = true → stops = true := by
      intro started
      simpa [started] using stuck
    have empty := ok same stopped
    obtain ⟨slots, -, gaveUp, -, -⟩ :=
      bindFields_keeps now requestId true c.b.policyId profileId identity c.b.resetForBind
    have kept : c.b.resetForBind.slots = c.b.slots := rfl
    refine inv_of_wiped ?_ ?_ ?_ ?_
    · intro asleep
      rw [gaveUp] at asleep
      cases asleep
    · rw [slots, kept]
      exact Bool.eq_false_iff.mpr fun valid => Bool.eq_false_iff.mp empty (inv.prev valid)
    · rw [slots, kept]
      exact empty
    · rw [slots, kept]
      exact Bool.eq_false_iff.mpr fun valid => Bool.eq_false_iff.mp empty (inv.next valid)

end Cell

end NeEncryptor.Pqc
