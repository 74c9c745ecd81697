import NeEncryptor.Lib.Transition
import NeEncryptor.Crypto.KeyCopies
import NeEncryptor.Pqc.CellInv

/-!
# Session keys in use

The bindings together with the packet contexts, in one run of binding, retry, recovery, handshake,
reload and refresh steps.  A context is refreshed from the key slots alone, so it follows the session
only where the slots do.
-/

namespace NeEncryptor

open Copies CryptoRuntime Pqc Transition

structure SessionState (n : ℕ) where
  table : BindingTable
  rt : CryptoRuntime n

/-- A step on the bindings or on the packet contexts. -/
inductive SessionAct
  | bind (now : ℕ) (requestId : BitVec 64) (policyId profileId : ℤ) (identity : BindIdentity)
      (stops : Bool)
  | retry (now : ℕ) (requestId : BitVec 64) (policyId : ℤ)
  | feed (now : ℕ) (policyId : ℤ) (m : Msg)
  | requestNewSession (policyId : ℤ)
  | loopHead (now : ℕ) (policyId : ℤ)
  | giveUp (policyId : ℤ)
  | thread (policyId : ℤ) (started : Bool)
  | success (now : ℕ) (policyId : ℤ) (key : TrafficKey)
  | stage (policyId : ℤ) (key : TrafficKey)
  | promoteStaged (now : ℕ) (policyId : ℤ)
  | discardPrev (policyId : ℤ)
  | prepareReload
  | finalizeReload (stops : ℤ → Bool)
  | rebuild (now : ℕ) (cfg : AppConfig)
  | sync (now : ℕ) (cfg : AppConfig)
  | diversify (now : ℕ) (profileId : ℤ)
  | discardCtx (policyId : ℤ)
  | snapshot (now grace : ℕ)

/-- The worker gives up a first handshake; it does not test this with a key in use. -/
def Pqc.Binding.giveUp (b : Binding) : Binding :=
  if b.keyReady then b else { b with handshakeGiveUp := true }

/-- What a step does to the bindings. -/
def SessionAct.onTable (P : Primitives) (t : BindingTable) : SessionAct → BindingTable
  | .bind now requestId policyId profileId identity stops =>
    t.bind now requestId policyId profileId identity stops
  | .retry now requestId policyId => t.onBinding policyId (.retry now requestId)
  | .feed now policyId m => t.onBinding policyId (.map (·.sigPqcFeedRxPacket P now m))
  | .requestNewSession policyId => t.onBinding policyId (.map .sigPqcRequestNewSession)
  | .loopHead now policyId => t.onBinding policyId (.map (·.workerHousekeeping now))
  | .giveUp policyId => t.onBinding policyId (.map .giveUp)
  | .thread policyId started =>
    t.onBinding policyId (.map fun b => { b with threadStarted := started })
  | .success now policyId key => t.onBinding policyId (.success now key)
  | .stage policyId key => t.onBinding policyId (.stage key)
  | .promoteStaged now policyId => t.onBinding policyId (.promoteStaged now)
  | .discardPrev policyId => t.onBinding policyId (.map .sigPqcDiscardPrevKey)
  | .prepareReload => t.prepareReload
  | .finalizeReload stops => t.finalizeReload stops
  | .rebuild .. | .sync .. | .diversify .. | .discardCtx .. | .snapshot .. => t

variable {n : ℕ}

/-- What a step does to the packet contexts. -/
def SessionAct.onRuntime (t : BindingTable) (rt : CryptoRuntime n) : SessionAct → CryptoRuntime n
  | .rebuild now cfg => rt.fwdCryptoRebuild now (fun _ => t.sigPqcGetKeys) cfg
  | .sync now cfg => rt.fwdCryptoSyncPqcSessionKeys now (fun _ => t.sigPqcGetKeys) cfg
  | .diversify now profileId =>
    rt.forwarderPreDiversifyPqcKeys now (fun _ => t.sigPqcGetKeys) profileId
  | .discardCtx policyId => (rt.fwdCryptoDiscardPqcPrevKey policyId).1
  | .snapshot now grace => rt.fwdCryptoSnapshotActiveToPrev now grace
  | _ => rt

namespace SessionState

def initial : SessionState n := ⟨[], .initial⟩

def next (P : Primitives) (s : SessionState n) (act : SessionAct) : SessionState n :=
  ⟨act.onTable P s.table, act.onRuntime s.table s.rt⟩

def step (P : Primitives) (s : SessionState n) (act : SessionAct) : Option (SessionState n) :=
  some (s.next P act)

/-- A context without a ready session refuses to encrypt, and a key in use is one of the valid slots
of its binding, all negotiated with the identity the binding has. -/
structure KeysFollowSessions (s : SessionState n) : Prop where
  blocked : ∀ i ctx, ctxAt s.rt.active.entries i = some ctx → ctx.pqcFromHandshake = true →
    (∀ c, s.table.lookup ctx.policyId = some c → c.b.keyReady = false) →
    ctx.keys.current = 0 ∧ cryptoPqcSessLoad ctx = none
  held : ∀ i ctx, ctxAt s.rt.active.entries i = some ctx → ctx.pqcFromHandshake = true →
    ctx.keys.current ≠ 0 →
    ∃ c, s.table.lookup ctx.policyId = some c ∧ ctx.keys = loadSlots c.b.slots ∧ c.Negotiated

/-! ## The condition of a step -/

/-- The synchronisation refreshes the context at `i`. -/
def SyncRefreshes (cfg : AppConfig) (entries : List CryptoEntry) (i : ℕ) : Prop :=
  cfg.cryptoEnabled = true ∧
    ∃ p ∈ cfg.profiles.head?, (p.policyIndices.any (roundRefreshes cfg entries i)) = true

/-- The binding was not retried by hand since its last handshake, if it has one. -/
def NotRetried (t : BindingTable) (policyId : ℤ) : Prop :=
  ∀ c, t.lookup policyId = some c → c.retried = false

/-- The condition under which a step lets the keys follow the sessions. -/
def Ok (s : SessionState n) : SessionAct → Prop
  | .bind _ _ policyId _ identity stops =>
    ∀ c, s.table.lookup policyId = some c → identity ≠ c.b.identity →
      (c.b.threadStarted = true → stops = true) → c.b.slots.current.valid = false
  | .rebuild _ cfg =>
    cfg.cryptoEnabled = true → ∀ cp ∈ cfg.policies.take maxCryptoPolicies, cp.isEncrypt = true →
      NotRetried s.table cp.dbId
  | .sync _ cfg =>
    ∀ i policyId keys, keyCopies s.rt.active.entries i = some (policyId, keys) →
      (SyncRefreshes cfg s.rt.active.entries i ∧ NotRetried s.table policyId) ∨
        keys.current = 0 ∧ ¬ SyncRefreshes cfg s.rt.active.entries i ∨
        (s.table.sigPqcGetKeys policyId).map loadSlots = some keys ∧ NotRetried s.table policyId
  | _ => True

/-! ## The invariant -/

structure Inv (s : SessionState n) : Prop where
  cells : ∀ c ∈ s.table, c.Inv
  owned : Owned s.rt.active.entries
  /-- A key in use came from a binding, and bindings are never removed. -/
  known : ∀ i policyId keys, keyCopies s.rt.active.entries i = some (policyId, keys) →
    keys.current ≠ 0 → (s.table.lookup policyId).isSome = true

theorem inv_initial : Inv (initial : SessionState n) where
  cells := by rintro c ⟨⟩
  owned := by rintro i e ⟨⟩
  known := by rintro i o v ⟨⟩

end SessionState

/-! ## The bindings -/

section Table

variable {P : Primitives} {t : BindingTable}

open Binding

/-- Writes to one binding keep the invariant where the written cell meets it. -/
theorem cells_onBinding {policyId : ℤ} {f : Cell → Cell} (cells : ∀ c ∈ t, c.Inv)
    (kept : ∀ c, t.lookup policyId = some c → c.Inv → (f c).Inv) :
    ∀ c ∈ t.onBinding policyId f, c.Inv := by
  intro c member
  rcases BindingTable.mem_onBinding member with here | ⟨old, found, rfl⟩
  · exact cells c here
  · exact kept old found (cells old (BindingTable.mem_of_lookup found).1)

theorem asleep_giveUp (b : Binding) (asleep : b.Asleep) : b.giveUp.Asleep := by
  unfold Binding.giveUp
  split
  · exact asleep
  · intro _
    simpa using ‹¬ b.keyReady = true›

theorem cells_bind {now : ℕ} {requestId : BitVec 64} {policyId profileId : ℤ}
    {identity : BindIdentity} {stops : Bool} (cells : ∀ c ∈ t, c.Inv)
    (ok : ∀ c, t.lookup policyId = some c → identity ≠ c.b.identity →
      (c.b.threadStarted = true → stops = true) → c.b.slots.current.valid = false) :
    ∀ c ∈ t.bind now requestId policyId profileId identity stops, c.Inv := by
  unfold BindingTable.bind
  split_ifs
  · exact cells_onBinding cells fun c found inv =>
      inv.bind now requestId profileId identity stops (ok c found)
  · intro c member
    rcases List.mem_append.mp member with here | new
    · exact cells c here
    · rw [List.mem_singleton.mp new]
      exact Cell.inv_bound now requestId policyId profileId identity
  · exact cells

theorem cells_onTable (act : SessionAct) (cells : ∀ c ∈ t, c.Inv)
    (ok : ∀ now requestId policyId profileId identity stops,
      act = .bind now requestId policyId profileId identity stops →
      ∀ c, t.lookup policyId = some c → identity ≠ c.b.identity →
        (c.b.threadStarted = true → stops = true) → c.b.slots.current.valid = false) :
    ∀ c ∈ act.onTable P t, c.Inv := by
  cases act with
  | bind now requestId policyId profileId identity stops =>
    exact cells_bind cells (ok _ _ _ _ _ _ rfl)
  | retry now requestId policyId =>
    exact cells_onBinding cells fun _ _ inv => inv.retry now requestId
  | feed now policyId m =>
    exact cells_onBinding cells fun c _ inv =>
      inv.calm (calm_feed (P := P) now m inv.asleep) (sameOwner_feed now m c.b)
  | requestNewSession policyId =>
    exact cells_onBinding cells fun c _ inv =>
      inv.calm (calm_requestNewSession (P := P) (m := none) c.b) (sameOwner_requestNewSession c.b)
  | loopHead now policyId =>
    exact cells_onBinding cells fun c _ inv =>
      inv.calm (calm_workerHousekeeping (P := P) (m := none) now inv.asleep)
        (sameOwner_workerHousekeeping now c.b)
  | giveUp policyId =>
    refine cells_onBinding cells fun c _ inv =>
      inv.map ?_ ?_ (asleep_giveUp c.b inv.asleep) ?_
    all_goals
      unfold Binding.giveUp
      split
    · rfl
    · rfl
    · rfl
    · rfl
    · exact ⟨rfl, rfl⟩
    · exact ⟨rfl, rfl⟩
  | thread policyId started =>
    exact cells_onBinding cells fun _ _ inv => inv.map rfl rfl inv.asleep ⟨rfl, rfl⟩
  | success now policyId key =>
    exact cells_onBinding cells fun _ _ inv => inv.success now key
  | stage policyId key => exact cells_onBinding cells fun _ _ inv => inv.stage key
  | promoteStaged now policyId => exact cells_onBinding cells fun _ _ inv => inv.promoteStaged now
  | discardPrev policyId => exact cells_onBinding cells fun _ _ inv => inv.discardPrev
  | prepareReload =>
    intro c member
    obtain ⟨old, here, rfl⟩ := List.mem_map.mp member
    exact (cells old here).active false
  | finalizeReload stops =>
    intro c member
    obtain ⟨old, here, rfl⟩ := List.mem_map.mp member
    exact (cells old here).finalizeReload stops
  | rebuild _ _ | sync _ _ | diversify _ _ | discardCtx _ | snapshot _ _ => exact cells

theorem Pqc.Cell.finalizeReload_policyId (stops : ℤ → Bool) (c : Cell) :
    (c.finalizeReload stops).b.policyId = c.b.policyId := by
  unfold Cell.finalizeReload
  split_ifs <;> rfl

/-- A step of the bindings removes no policy. -/
theorem lookup_onTable (act : SessionAct) {policyId : ℤ}
    (bound : (t.lookup policyId).isSome = true) :
    ((act.onTable P t).lookup policyId).isSome = true := by
  rw [BindingTable.lookup_isSome_iff] at bound ⊢
  have kept : ∀ {id : ℤ} {f : Cell → Cell}, (∀ c, (f c).b.policyId = c.b.policyId) →
      policyId ∈ (t.onBinding id f).ids := by
    intro id f same
    rw [BindingTable.ids_onBinding same]
    exact bound
  cases act with
  | bind now requestId id profileId identity stops =>
    unfold SessionAct.onTable
    dsimp only
    unfold BindingTable.bind
    split_ifs
    · refine kept fun c => ?_
      unfold Binding.sigPqcBindPolicy
      split_ifs
      · exact (bindFields_keeps now requestId false c.b.policyId profileId identity c.b).2.2.2.2
      · rfl
      · exact (bindFields_keeps now requestId true c.b.policyId profileId identity _).2.2.2.2
    · rw [BindingTable.ids, List.map_append]
      exact List.mem_append_left _ bound
    · exact bound
  | retry now requestId id => exact kept fun c => (sameOwner_triggerRetry now requestId c.b).1
  | feed now id m => exact kept fun c => (sameOwner_feed now m c.b).1
  | requestNewSession id => exact kept fun c => (sameOwner_requestNewSession c.b).1
  | loopHead now id => exact kept fun c => (sameOwner_workerHousekeeping now c.b).1
  | giveUp id =>
    refine kept fun c => ?_
    unfold Cell.map Binding.giveUp
    split <;> rfl
  | thread id started => exact kept fun _ => rfl
  | success now id key => exact kept fun c => (sameOwner_handshakeSuccess now key c.b).1
  | stage id key =>
    refine kept fun c => ?_
    unfold Cell.stage pqcHsStageNextKey
    split
    · rename_i b staged
      split_ifs at staged
      rw [← Option.some_inj.mp staged]
    · rfl
  | promoteStaged now id =>
    refine kept fun c => ?_
    unfold Cell.promoteStaged pqcHsPromoteStagedKey
    split
    · rename_i b promoted
      split_ifs at promoted
      rw [← Option.some_inj.mp promoted]
      exact (sameOwner_handshakeSuccess now _ c.b).1
    · rfl
  | discardPrev id => exact kept fun c => (sameOwner_discardPrevKey c.b).1
  | prepareReload =>
    unfold SessionAct.onTable BindingTable.prepareReload
    rw [BindingTable.ids_map (f := fun c => { c with active := false }) fun _ => rfl]
    exact bound
  | finalizeReload stops =>
    unfold SessionAct.onTable BindingTable.finalizeReload
    rw [BindingTable.ids_map (Cell.finalizeReload_policyId stops)]
    exact bound
  | rebuild _ _ | sync _ _ | diversify _ _ | discardCtx _ | snapshot _ _ => exact bound

end Table

/-! ## The contexts -/

section Contexts

variable {t : BindingTable}

/-- A key that is in use after a refresh belongs to a binding. -/
theorem refreshed_known {policyId : ℤ} {keys : KeySlots TrafficKey}
    (known : keys.current ≠ 0 → (t.lookup policyId).isSome = true)
    (used : (refreshedKeys (t.sigPqcGetKeys policyId) keys).current ≠ 0) :
    (t.lookup policyId).isSome = true := by
  unfold BindingTable.sigPqcGetKeys at used
  cases found : t.lookup policyId with
  | some c => rfl
  | none =>
    rw [found, Option.map_none] at used
    rw [found] at known
    by_cases inUse : keyNonzero keys.current = true
    · exact known ((keyNonzero_iff _).mp inUse)
    · simp [refreshedKeys, inUse] at used

/-- After a refresh the keys are those of the session. -/
theorem refreshed_follows {policyId : ℤ} {keys : KeySlots TrafficKey} (cells : ∀ c ∈ t, c.Inv)
    (known : keys.current ≠ 0 → (t.lookup policyId).isSome = true)
    (notRetried : SessionState.NotRetried t policyId) :
    ((∀ c, t.lookup policyId = some c → c.b.keyReady = false) →
        (refreshedKeys (t.sigPqcGetKeys policyId) keys).current = 0) ∧
      ((refreshedKeys (t.sigPqcGetKeys policyId) keys).current ≠ 0 →
        ∃ c, t.lookup policyId = some c ∧
          refreshedKeys (t.sigPqcGetKeys policyId) keys = loadSlots c.b.slots ∧ c.Negotiated) := by
  unfold BindingTable.sigPqcGetKeys
  cases found : t.lookup policyId with
  | none =>
    rw [found] at known
    have unused : keyNonzero keys.current = false := by
      by_contra used
      exact absurd (known ((keyNonzero_iff _).mp (by simpa using used))) (by simp)
    simp [refreshedKeys, unused]
  | some c =>
    have inv := cells c (BindingTable.mem_of_lookup found).1
    refine ⟨fun unready => ?_, fun _ => ⟨c, rfl, rfl, inv.negotiated⟩⟩
    have invalid : c.b.slots.current.valid = false := by
      by_contra valid
      rcases inv.ready (by simpa using valid) with ready | retried
      · rw [unready c rfl] at ready
        cases ready
      · rw [notRetried c found] at retried
        cases retried
    show loadSlot c.b.slots.current = 0
    rw [loadSlot, invalid]
    rfl

end Contexts

end NeEncryptor
