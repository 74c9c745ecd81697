import NeEncryptor.Pqc.CellInv
import NeEncryptor.Pqc.WorkerReload

/-!
# The steps of a reload

What an operation on a binding keeps, and what each step of a reload can do.
-/

namespace NeEncryptor.Pqc

open Transition

namespace Binding

/-! ### What operations on a binding keep -/

/-- The policy, its identity and the flags of the worker stay, and no key comes. -/
structure Tame (b b' : Binding) : Prop where
  policyId : b'.policyId = b.policyId
  identity : b'.identity = b.identity
  threadStarted : b'.threadStarted = b.threadStarted
  threadExitSig : b'.threadExitSig = b.threadExitSig
  keyless : b.Keyless → b'.Keyless

variable {P : Primitives} {b b' b'' : Binding}

theorem Tame.refl (b : Binding) : Tame b b := ⟨rfl, rfl, rfl, rfl, id⟩

theorem Tame.trans (first : Tame b b') (second : Tame b' b'') : Tame b b'' :=
  ⟨second.policyId.trans first.policyId, second.identity.trans first.identity,
    second.threadStarted.trans first.threadStarted, second.threadExitSig.trans first.threadExitSig,
    second.keyless ∘ first.keyless⟩

theorem tame_feedPacket (m : Msg) (b : Binding) : Tame b (b.pqcFeedPacket m) := by
  unfold pqcFeedPacket
  split
  · exact ⟨rfl, rfl, rfl, rfl, id⟩
  · exact .refl b

theorem tame_keepaliveRecovery (now : ℕ) (b : Binding) : Tame b (b.keepaliveRecovery now) := by
  unfold keepaliveRecovery
  dsimp only
  split_ifs
  · exact ⟨rfl, rfl, rfl, rfl, id⟩
  · exact ⟨rfl, rfl, rfl, rfl, fun keyless => ⟨rfl, keyless.2⟩⟩
  · exact ⟨rfl, rfl, rfl, rfl, fun keyless => ⟨rfl, keyless.2⟩⟩

theorem tame_acceptKeepalive (now : ℕ) (st : KeepaliveStatus) (b : Binding) :
    Tame b (b.acceptKeepalive P now st) := by
  have recorded : Tame b (b.recordKeepalive now st) := ⟨rfl, rfl, rfl, rfl, id⟩
  unfold acceptKeepalive compareFingerprint
  dsimp only
  split_ifs
  all_goals first
    | exact ⟨rfl, rfl, rfl, rfl, id⟩
    | exact recorded.trans (tame_keepaliveRecovery now _)

theorem tame_feed (now : ℕ) (m : Msg) (b : Binding) : Tame b (b.sigPqcFeedRxPacket P now m) := by
  unfold sigPqcFeedRxPacket
  cases m with
  | keepalive st =>
    dsimp only
    split_ifs
    · exact .refl b
    · exact .refl b
    · exact tame_acceptKeepalive now st b
    · exact tame_feedPacket _ b
  | poke requestId =>
    dsimp only
    unfold acceptRequest
    dsimp only
    split_ifs
    · exact .refl b
    · exact .refl b
    · exact ⟨rfl, rfl, rfl, rfl, id⟩
    · exact ⟨rfl, rfl, rfl, rfl, fun keyless => ⟨rfl, keyless.2⟩⟩
  | hello h =>
    have woken : Tame b (b.wakeForHello now) := by
      unfold wakeForHello
      dsimp only
      split_ifs
      · exact ⟨rfl, rfl, rfl, rfl, fun keyless => ⟨rfl, keyless.2⟩⟩
      · exact ⟨rfl, rfl, rfl, rfl, fun keyless => ⟨rfl, keyless.2⟩⟩
      · exact .refl b
    exact woken.trans (tame_feedPacket _ _)
  | resp _ _ | ready _ | commit _ => exact tame_feedPacket _ b

theorem tame_other (op : OtherOp) (b : Binding) : Tame b (op.apply b) := by
  cases op with
  | feed P now m => exact tame_feed now m b
  | retry now requestId =>
    unfold OtherOp.apply sigPqcTriggerRetry
    dsimp only
    split
    · exact ⟨rfl, rfl, rfl, rfl, fun keyless => ⟨rfl, keyless.2.1, keyless.2.2.1, rfl⟩⟩
    · exact ⟨rfl, rfl, rfl, rfl, fun keyless => ⟨rfl, keyless.2.1, keyless.2.2.1, rfl⟩⟩
  | newSession =>
    unfold OtherOp.apply sigPqcRequestNewSession
    dsimp only
    split
    · exact .refl b
    · exact ⟨rfl, rfl, rfl, rfl, id⟩
  | discardPrev =>
    unfold OtherOp.apply sigPqcDiscardPrevKey
    dsimp only
    split
    · exact ⟨rfl, rfl, rfl, rfl, fun keyless => ⟨keyless.1, rfl, keyless.2.2⟩⟩
    · exact .refl b

theorem bindFields_life (now : ℕ) (requestId : BitVec 64) (fresh : Bool) (policyId profileId : ℤ)
    (identity : BindIdentity) (b : Binding) :
    (b.bindFields now requestId fresh policyId profileId identity).threadStarted =
        b.threadStarted ∧
      (b.bindFields now requestId fresh policyId profileId identity).threadExitSig =
        b.threadExitSig := by
  unfold bindFields
  dsimp only
  split_ifs
  all_goals exact ⟨rfl, rfl⟩

end Binding

/-- A handshake of the worker ends with a new key. -/
def WorkerOp.succeeds : WorkerOp → Bool
  | .success .. => true
  | _ => false

open Binding in
theorem WorkerOp.keeps (op : WorkerOp) (b : Binding) :
    (op.apply b).policyId = b.policyId ∧ (op.apply b).identity = b.identity ∧
      (op.apply b).threadStarted = b.threadStarted ∧
      (op.apply b).threadExitSig = b.threadExitSig := by
  have success (now : ℕ) (key : TrafficKey) :
      (b.handleHandshakeSuccess now key).policyId = b.policyId ∧
        (b.handleHandshakeSuccess now key).identity = b.identity ∧
        (b.handleHandshakeSuccess now key).threadStarted = b.threadStarted ∧
        (b.handleHandshakeSuccess now key).threadExitSig = b.threadExitSig := by
    unfold handleHandshakeSuccess
    dsimp only
    split
    · exact ⟨rfl, rfl, rfl, rfl⟩
    · exact ⟨rfl, rfl, rfl, rfl⟩
  cases op with
  | housekeeping now =>
    unfold WorkerOp.apply workerHousekeeping autoRetry livenessTick
    dsimp only
    split_ifs
    all_goals exact ⟨rfl, rfl, rfl, rfl⟩
  | success now key => exact success now key
  | stage key =>
    unfold WorkerOp.apply pqcHsStageNextKey
    dsimp only
    split
    · exact ⟨rfl, rfl, rfl, rfl⟩
    · exact ⟨rfl, rfl, rfl, rfl⟩
  | promote now =>
    unfold WorkerOp.apply pqcHsPromoteStagedKey
    dsimp only
    split
    · exact success now _
    · exact ⟨rfl, rfl, rfl, rfl⟩

open Binding in
/-- Without a handshake that succeeds, a worker gives no key to a binding that has none. -/
theorem WorkerOp.keyless {op : WorkerOp} {b : Binding} (without : op.succeeds = false)
    (keyless : b.Keyless) : (op.apply b).Keyless := by
  obtain ⟨unready, prev, current, next⟩ := keyless
  cases op with
  | housekeeping now =>
    unfold WorkerOp.apply workerHousekeeping autoRetry livenessTick
    dsimp only
    split_ifs
    all_goals exact ⟨by first | rfl | exact unready, prev, current, next⟩
  | success now key => cases without
  | stage key =>
    unfold WorkerOp.apply pqcHsStageNextKey
    rw [unready]
    exact ⟨unready, prev, current, next⟩
  | promote now =>
    unfold WorkerOp.apply pqcHsPromoteStagedKey
    rw [next]
    exact ⟨unready, prev, current, next⟩

def LoadPc.isIdle : LoadPc → Bool
  | .idle => true
  | _ => false

theorem LoadPc.isIdle_iff {pc : LoadPc} : pc.isIdle = true ↔ pc = .idle := by
  cases pc with
  | idle => exact ⟨fun _ => rfl, fun _ => rfl⟩
  | _ => exact ⟨nofun, nofun⟩

/-- The worker that `sig_pqc_bind_policy` waits for. -/
def LoadPc.bindsAfter : LoadPc → Option ℕ
  | .bindWait _ i _ => some i
  | _ => none

/-- The worker that `sig_pqc_finalize_reload` waits for. -/
def LoadPc.cleansAfter : LoadPc → Option ℕ
  | .finalizeWait _ i => some i
  | _ => none

namespace Reloads

variable {st st' : Reloads} {i j : ℕ} {c c' : Held}

theorem getElem?_put (st : Reloads) (i j : ℕ) (c : Held) :
    (st.put i c).table[j]? = if i = j ∧ i < st.table.length then some c else st.table[j]? := by
  unfold put
  rw [List.getElem?_set]
  by_cases same : i = j
  · subst same
    by_cases inside : i < st.table.length
    · simp [inside]
    · simp [inside]
  · simp [same]

theorem mem_put {st : Reloads} (member : c' ∈ (st.put i c).table) : c' = c ∨ c' ∈ st.table := by
  rcases List.mem_or_eq_of_mem_set member with old | new
  · exact .inr old
  · exact .inl new

theorem start_keeps (created : Bool) (b : Binding) :
    (b.pqcStartPolicyWorkerLocked created).policyId = b.policyId ∧
      (b.pqcStartPolicyWorkerLocked created).identity = b.identity ∧
      (b.identity.localPriv = none →
        (b.pqcStartPolicyWorkerLocked created).threadStarted = b.threadStarted) ∧
      (b.Keyless → (b.pqcStartPolicyWorkerLocked created).Keyless) := by
  unfold Binding.pqcStartPolicyWorkerLocked
  split
  · exact ⟨rfl, rfl, fun _ => rfl, id⟩
  · rename_i bound
    refine ⟨rfl, rfl, fun unbound => ?_, id⟩
    simp [unbound] at bound

/-- A binding that got its policy with valid arguments. -/
theorem bindFields_bound {args : BindArgs} (valid : args.valid = true) (fresh : Bool) (b : Binding) :
    (b.bindFields args.now args.requestId fresh args.policyId args.profileId
        args.identity).policyId = args.policyId ∧
      (b.bindFields args.now args.requestId fresh args.policyId args.profileId
        args.identity).identity.localPriv ≠ none := by
  obtain ⟨-, -, -, identity, policyId⟩ := Binding.bindFields_keeps args.now args.requestId fresh
    args.policyId args.profileId args.identity b
  refine ⟨policyId, fun unbound => ?_⟩
  rw [identity] at unbound
  simp [BindArgs.valid, unbound] at valid

/-- The policies of the configuration that is being loaded, or of the last one. -/
def policies (st : Reloads) : List ℤ :=
  match st.pc with
  | .idle => st.loaded
  | .loading policies | .bindWait policies _ _ | .finalizing policies _
  | .finalizeWait policies _ => policies

/-! ### What a step can do -/

theorem prepare_some {policies : List ℤ} (stepped : st.step (.prepare policies) = some st') :
    st.pc.bindsAfter = none ∧ st' = { st with
      table := st.table.map fun c => { c with active := false }, pc := .loading policies } := by
  unfold step at stepped
  dsimp only at stepped
  split at stepped
  · rename_i idle
    rw [idle]
    exact ⟨rfl, (Option.some.inj stepped).symm⟩
  · rename_i loading
    rw [loading]
    exact ⟨rfl, (Option.some.inj stepped).symm⟩
  · cases stepped

theorem bind_some {args : BindArgs} (stepped : st.step (.bind args) = some st') :
    ∃ policies, st.pc = .loading policies ∧ args.valid = true ∧ args.policyId ∈ policies ∧
      (st' = st ∨ st' = { st with table := st.table ++ [.bindNew args] } ∨
        ∃ i c, (st.table.findIdx? fun c => c.b.policyId == args.policyId) = some i ∧
          st.table[i]? = some c ∧ st' = st.bindFound policies args i c) := by
  unfold step at stepped
  dsimp only at stepped
  split at stepped
  · rename_i policies loading
    split at stepped
    · rename_i accepted
      refine ⟨policies, loading, accepted.1, accepted.2, ?_⟩
      split at stepped
      · split at stepped
        · exact .inr (.inl (Option.some.inj stepped).symm)
        · exact .inl (Option.some.inj stepped).symm
      · rename_i i found
        obtain ⟨c, here, written⟩ := Option.map_eq_some_iff.mp stepped
        exact .inr (.inr ⟨i, c, found, here, written.symm⟩)
    · cases stepped
  · cases stepped

theorem bindResume_some (stepped : st.step .bindResume = some st') :
    ∃ policies i args c, st.pc = .bindWait policies i args ∧ st.table[i]? = some c ∧
      st' = { st.put i (c.bindChanged args) with pc := .loading policies } := by
  unfold step at stepped
  dsimp only at stepped
  split at stepped
  · rename_i policies i args waiting
    split at stepped
    · cases stepped
    · rename_i c here
      split at stepped
      · cases stepped
      · exact ⟨policies, i, args, c, waiting, here, (Option.some.inj stepped).symm⟩
  · cases stepped

theorem bindTimeout_some (stepped : st.step .bindTimeout = some st') :
    ∃ policies i args c, st.pc = .bindWait policies i args ∧ st.table[i]? = some c ∧
      c.b.threadStarted = true ∧
      st' = { st.put i { c with active := true } with pc := .loading policies } := by
  unfold step at stepped
  dsimp only at stepped
  split at stepped
  · rename_i policies i args waiting
    split at stepped
    · cases stepped
    · rename_i c here
      split at stepped
      · rename_i started
        exact ⟨policies, i, args, c, waiting, here, started, (Option.some.inj stepped).symm⟩
      · cases stepped
  · cases stepped

theorem finalize_some (stepped : st.step .finalize = some st') :
    st.pc.bindsAfter = none ∧ st' = { st with pc := .finalizing st.policies 0 } := by
  unfold step at stepped
  dsimp only at stepped
  split at stepped
  · rename_i idle
    unfold policies
    rw [idle]
    exact ⟨rfl, (Option.some.inj stepped).symm⟩
  · rename_i policies loading
    unfold Reloads.policies
    rw [loading]
    exact ⟨rfl, (Option.some.inj stepped).symm⟩
  · cases stepped

theorem finalizeNext_some (stepped : st.step .finalizeNext = some st') :
    ∃ policies i, st.pc = .finalizing policies i ∧
      (st.table[i]? = none ∧ st' = { st with pc := .idle, loaded := policies } ∨
        ∃ c, st.table[i]? = some c ∧ st' = st.finalizeFound policies i c) := by
  unfold step at stepped
  dsimp only at stepped
  split at stepped
  · rename_i policies i finalizing
    refine ⟨policies, i, finalizing, ?_⟩
    split at stepped
    · rename_i past
      exact .inl ⟨past, (Option.some.inj stepped).symm⟩
    · rename_i c here
      exact .inr ⟨c, here, (Option.some.inj stepped).symm⟩
  · cases stepped

theorem finalizeResume_some (stepped : st.step .finalizeResume = some st') :
    ∃ policies i c, st.pc = .finalizeWait policies i ∧ st.table[i]? = some c ∧
      st' = { st.put i c.deactivateStopped with pc := .finalizing policies (i + 1) } := by
  unfold step at stepped
  dsimp only at stepped
  split at stepped
  · rename_i policies i waiting
    split at stepped
    · cases stepped
    · rename_i c here
      split at stepped
      · cases stepped
      · exact ⟨policies, i, c, waiting, here, (Option.some.inj stepped).symm⟩
  · cases stepped

theorem finalizeTimeout_some (stepped : st.step .finalizeTimeout = some st') :
    ∃ policies i, st.pc = .finalizeWait policies i ∧
      st' = { st with pc := .finalizing policies (i + 1) } := by
  unfold step at stepped
  dsimp only at stepped
  split at stepped
  · rename_i policies i waiting
    split at stepped
    · cases stepped
    · split at stepped
      · exact ⟨policies, i, waiting, (Option.some.inj stepped).symm⟩
      · cases stepped
  · cases stepped

theorem onWorker_some {f : Held → Held} (stepped : st.onWorker i f = some st') :
    ∃ c, st.table[i]? = some c ∧ c.b.threadStarted = true ∧ st' = st.put i (f c) := by
  unfold onWorker at stepped
  split at stepped
  · cases stepped
  · rename_i c here
    split at stepped
    · rename_i started
      exact ⟨c, here, started, (Option.some.inj stepped).symm⟩
    · cases stepped

/-- A policy of profile 1, with an identity of the given key. -/
def sampleArgs (policyId : ℤ) (keyId : String) : BindArgs :=
  ⟨0, 1, policyId, 1, { sampleIdentity .dynamic with keyId := keyId }⟩

end Reloads

end NeEncryptor.Pqc
