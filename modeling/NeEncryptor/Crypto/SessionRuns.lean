import NeEncryptor.Crypto.SessionKeys

/-!
# Keys follow the sessions

In every run that neither binds another identity over a key in use nor refreshes a policy between a
manual retry and its next handshake, the contexts hold exactly the keys of ready sessions after each
synchronisation and after each rebuild.
-/

namespace NeEncryptor

open Copies CryptoRuntime Pqc Transition

namespace SessionState

variable {n : ℕ} {P : Primitives} {s : SessionState n}

/-! ## Effects on the contexts -/

theorem owned_onRuntime (act : SessionAct) (owned : Owned s.rt.active.entries) :
    Owned (act.onRuntime s.table s.rt).active.entries := by
  cases act with
  | rebuild now cfg =>
    by_cases enabled : cfg.cryptoEnabled = true
    · exact (rebuild_entries s.rt enabled).1
    · have off : (!cfg.cryptoEnabled) = true := by simpa using enabled
      unfold SessionAct.onRuntime
      simp only [fwdCryptoRebuild, if_pos off]
      rintro i e ⟨⟩
  | sync now cfg =>
    unfold SessionAct.onRuntime
    simp only [fwdCryptoSyncPqcSessionKeys]
    split
    · exact owned
    · split
      · exact owned
      · unfold publish syncLoop
        refine List.foldlRecOn (motive := Owned) _ _ owned ?_
        rintro entries ownedNow ⟨pi, j⟩ -
        dsimp only
        split
        · split
          · exact owned_syncRound ownedNow _ _ _ _
          · exact ownedNow
        · exact ownedNow
  | diversify now profileId => exact owned_diversified now _ profileId owned
  | discardCtx policyId =>
    unfold SessionAct.onRuntime
    simp only [fwdCryptoDiscardPqcPrevKey]
    split
    · exact owned
    · split
      · exact owned_wipePrev _ owned
      · exact owned
  | bind _ _ _ _ _ _ | retry _ _ _ | feed _ _ _ | requestNewSession _ | loopHead _ _ | giveUp _
  | thread _ _ | success _ _ _ | stage _ _ | promoteStaged _ _ | discardPrev _ | prepareReload
  | finalizeReload _ | snapshot _ _ => exact owned

/-- The copies after a rebuild. -/
theorem keyCopies_rebuild {now : ℕ} {cfg : AppConfig} {i : ℕ} {policyId : ℤ}
    {keys : KeySlots TrafficKey} (inv : Inv s)
    (here : keyCopies ((SessionAct.rebuild now cfg).onRuntime s.table s.rt).active.entries i =
      some (policyId, keys)) :
    cfg.cryptoEnabled = true ∧
      (∃ cp ∈ cfg.policies.take maxCryptoPolicies, cp.isEncrypt = true ∧ cp.dbId = policyId) ∧
      ∃ old : KeySlots TrafficKey,
        (old.current ≠ 0 → (s.table.lookup policyId).isSome = true) ∧
        refreshedKeys (s.table.sigPqcGetKeys policyId) old = keys := by
  have enabled : cfg.cryptoEnabled = true := by
    by_contra disabled
    have off : (!cfg.cryptoEnabled) = true := by simpa using disabled
    unfold SessionAct.onRuntime at here
    simp only [fwdCryptoRebuild, if_pos off] at here
    cases here
  have entries : keyCopies (s.rt.fwdCryptoRebuild now (fun _ => s.table.sigPqcGetKeys)
      cfg).active.entries = _ := (rebuild_entries s.rt enabled).2
  rw [SessionAct.onRuntime, entries, keyCopies_rebuilt] at here
  obtain ⟨cp, isPolicy, isCopy⟩ := Option.bind_eq_some_iff.mp here
  by_cases encrypts : cp.isEncrypt = true
  · rw [if_pos encrypts, Option.some_inj, Prod.mk.injEq] at isCopy
    obtain ⟨rfl, rfl⟩ := isCopy
    refine ⟨enabled, ⟨cp, List.mem_of_getElem? isPolicy, encrypts, rfl⟩, _, ?_, rfl⟩
    rcases oldKeys_cases inv.owned cp.dbId with unused | ⟨j, isOld⟩
    · intro used
      rw [unused] at used
      exact absurd rfl used
    · exact inv.known j cp.dbId _ isOld
  · rw [if_neg encrypts] at isCopy
    cases isCopy

/-- The copies of a part after a synchronisation. -/
theorem partCopies_sync {V : Type*} {part : PacketCryptoCtx → V}
    {refreshed : ℕ → Option (KeySlots KeySlot) → V → V} {zero : V}
    (isPart : RefreshedPart part refreshed zero) (now : ℕ) (cfg : AppConfig)
    (owned : Owned s.rt.active.entries) :
    ∃ refreshes : ℕ → Bool,
      (∀ i, refreshes i = true ↔ SyncRefreshes cfg s.rt.active.entries i) ∧
      partCopies part ((SessionAct.sync now cfg).onRuntime s.table s.rt).active.entries =
        rewrite (fun i policyId v =>
          if refreshes i then refreshed now (s.table.sigPqcGetKeys policyId) v else v)
          (partCopies part s.rt.active.entries) := by
  have idle : partCopies part s.rt.active.entries = rewrite (fun _ policyId v =>
      if false then refreshed now (s.table.sigPqcGetKeys policyId) v else v)
      (partCopies part s.rt.active.entries) := by
    rw [rewrite_eq_self]
    intro i policyId v _
    rfl
  unfold SessionAct.onRuntime SyncRefreshes
  simp only [fwdCryptoSyncPqcSessionKeys]
  by_cases enabled : cfg.cryptoEnabled = true
  swap
  · rw [if_pos (by simpa using enabled)]
    exact ⟨fun _ => false, fun i => by simp [enabled], idle⟩
  rw [if_neg (by simp [enabled])]
  cases cfg.profiles with
  | nil => exact ⟨fun _ => false, fun i => by simp, idle⟩
  | cons p rest =>
    refine ⟨fun i => p.policyIndices.zipIdx.any fun x =>
      roundRefreshes cfg s.rt.active.entries i x.1, ?_, ?_⟩
    · intro i
      have indices : p.policyIndices.zipIdx.map Prod.fst = p.policyIndices :=
        List.zipIdx_map_fst 0 p.policyIndices
      have same : (p.policyIndices.zipIdx.any fun x =>
          roundRefreshes cfg s.rt.active.entries i x.1) =
          p.policyIndices.any (roundRefreshes cfg s.rt.active.entries i) := by
        conv_rhs => rw [← indices, List.any_map]
        rfl
      simp [same, enabled]
    · exact partCopies_syncRounds isPart p.policyIndices.zipIdx s.rt.active.entries owned

theorem keyCopies_sync (now : ℕ) (cfg : AppConfig) (inv : Inv s) :
    ∃ refreshes : ℕ → Bool,
      (∀ i, refreshes i = true ↔ SyncRefreshes cfg s.rt.active.entries i) ∧
      keyCopies ((SessionAct.sync now cfg).onRuntime s.table s.rt).active.entries =
        rewrite (fun i policyId keys =>
          if refreshes i then refreshedKeys (s.table.sigPqcGetKeys policyId) keys else keys)
          (keyCopies s.rt.active.entries) :=
  partCopies_sync refreshedPart_keys now cfg inv.owned

theorem known_onRuntime (act : SessionAct) (inv : Inv s) {i : ℕ} {policyId : ℤ}
    {keys : KeySlots TrafficKey}
    (here : keyCopies (act.onRuntime s.table s.rt).active.entries i = some (policyId, keys))
    (used : keys.current ≠ 0) : (s.table.lookup policyId).isSome = true := by
  cases act with
  | rebuild now cfg =>
    obtain ⟨-, -, old, known, rfl⟩ := keyCopies_rebuild inv here
    exact refreshed_known known used
  | sync now cfg =>
    obtain ⟨refreshes, -, rewritten⟩ := keyCopies_sync now cfg inv
    rw [rewritten] at here
    obtain ⟨old, was, rfl⟩ := rewrite_eq_some_iff.mp here
    have known := inv.known i policyId old was
    by_cases refreshed : refreshes i = true
    · rw [if_pos refreshed] at used
      exact refreshed_known known used
    · rw [if_neg refreshed] at used
      exact known used
  | diversify now profileId =>
    have rewritten := keyCopies_diversified now (fun _ => s.table.sigPqcGetKeys) profileId inv.owned
    obtain ⟨old, was, rfl⟩ := rewrite_eq_some_iff.mp (rewritten ▸ here)
    have known := inv.known i policyId old was
    by_cases member : inProfile profileId s.rt.active.entries i = true
    · rw [if_pos member] at used
      exact refreshed_known known used
    · rw [if_neg member] at used
      exact known used
  | discardCtx id =>
    unfold SessionAct.onRuntime at here
    simp only [fwdCryptoDiscardPqcPrevKey] at here
    split at here
    · exact inv.known i policyId keys here used
    · split at here
      · obtain ⟨old, was, rfl⟩ := rewrite_eq_some_iff.mp ((keyCopies_wipePrev _) ▸ here)
        refine inv.known i policyId old was ?_
        split at used
        · exact used
        · exact used
      · exact inv.known i policyId keys here used
  | bind _ _ _ _ _ _ | retry _ _ _ | feed _ _ _ | requestNewSession _ | loopHead _ _ | giveUp _
  | thread _ _ | success _ _ _ | stage _ _ | promoteStaged _ _ | discardPrev _ | prepareReload
  | finalizeReload _ | snapshot _ _ => exact inv.known i policyId keys here used

theorem inv_step {s' : SessionState n} {act : SessionAct} (inv : Inv s) (ok : Ok s act)
    (enabled : step P s act = some s') : Inv s' := by
  obtain rfl := Option.some_inj.mp enabled
  refine ⟨?_, owned_onRuntime act inv.owned, ?_⟩
  · refine cells_onTable act inv.cells ?_
    rintro now requestId policyId profileId identity stops rfl
    exact ok
  · intro i policyId keys here used
    exact lookup_onTable act (known_onRuntime act inv here used)

/-! ## The calls that the keys follow -/

/-- A context whose keys are as a refresh would leave them follows its session. -/
theorem follows_of_refreshed {s' : SessionState n} (cells : ∀ c ∈ s'.table, c.Inv)
    (refreshed : ∀ i policyId keys, keyCopies s'.rt.active.entries i = some (policyId, keys) →
      keys.current = 0 ∨ ∃ old : KeySlots TrafficKey,
        (old.current ≠ 0 → (s'.table.lookup policyId).isSome = true) ∧
        refreshedKeys (s'.table.sigPqcGetKeys policyId) old = keys ∧
        NotRetried s'.table policyId) :
    KeysFollowSessions s' := by
  have either : ∀ i ctx, ctxAt s'.rt.active.entries i = some ctx → ctx.keys.current = 0 ∨
      ((∀ c, s'.table.lookup ctx.policyId = some c → c.b.keyReady = false) →
        ctx.keys.current = 0) ∧
      (ctx.keys.current ≠ 0 → ∃ c, s'.table.lookup ctx.policyId = some c ∧
        ctx.keys = loadSlots c.b.slots ∧ c.Negotiated) := by
    intro i ctx here
    rcases refreshed i ctx.policyId ctx.keys (keyCopies_eq_some_iff.mpr ⟨ctx, here, rfl, rfl⟩) with
      unused | ⟨old, known, same, notRetried⟩
    · exact .inl unused
    · rw [← same]
      exact .inr (refreshed_follows cells known notRetried)
  constructor
  · intro i ctx here _ unready
    rw [sessLoad_eq_none_iff, and_self]
    rcases either i ctx here with unused | follows
    · exact unused
    · exact follows.1 unready
  · intro i ctx here _ used
    rcases either i ctx here with unused | follows
    · exact absurd unused used
    · exact follows.2 used

theorem follows_rebuild {now : ℕ} {cfg : AppConfig} (inv : Inv s) (ok : Ok s (.rebuild now cfg)) :
    KeysFollowSessions (s.next P (.rebuild now cfg)) := by
  refine follows_of_refreshed inv.cells fun i policyId keys here => .inr ?_
  obtain ⟨enabled, ⟨cp, listed, encrypts, rfl⟩, old, known, same⟩ := keyCopies_rebuild inv here
  exact ⟨old, known, same, ok enabled cp listed encrypts⟩

theorem follows_sync {now : ℕ} {cfg : AppConfig} (inv : Inv s) (ok : Ok s (.sync now cfg)) :
    KeysFollowSessions (s.next P (.sync now cfg)) := by
  obtain ⟨refreshes, refreshes_iff, rewritten⟩ := keyCopies_sync now cfg inv
  refine follows_of_refreshed inv.cells fun i policyId keys here => ?_
  rw [next, rewritten] at here
  obtain ⟨old, was, rfl⟩ := rewrite_eq_some_iff.mp here
  have known := inv.known i policyId old was
  rcases ok i policyId old was with ⟨refreshed, notRetried⟩ | ⟨unused, kept⟩ | ⟨held, notRetried⟩
  · rw [if_pos ((refreshes_iff i).mpr refreshed)]
    exact .inr ⟨old, known, rfl, notRetried⟩
  · rw [if_neg (mt (refreshes_iff i).mp kept)]
    exact .inl unused
  · -- a refresh of keys that are held already changes nothing
    have same : refreshedKeys (s.table.sigPqcGetKeys policyId) old = old := by
      obtain ⟨slots, found, rfl⟩ := Option.map_eq_some_iff.mp held
      rw [found]
      rfl
    refine .inr ⟨old, known, ?_, notRetried⟩
    show refreshedKeys (s.table.sigPqcGetKeys policyId) old = _
    rw [same, ite_self]

/-- The calls after which the keys in use are compared with the sessions. -/
def RefreshesAll : SessionAct → Prop
  | .rebuild _ _ | .sync _ _ => True
  | _ => False

theorem keys_follow_sessions (s s' : SessionState n) (act : SessionAct)
    (reached : ReachableWith (step P) Ok initial s) (refreshes : RefreshesAll act) (ok : Ok s act)
    (enabled : step P s act = some s') : KeysFollowSessions s' := by
  have inv : Inv s := reached.invariant inv_initial fun _ _ _ inv ok enabled => inv_step inv ok enabled
  obtain rfl := Option.some_inj.mp enabled
  cases act with
  | rebuild now cfg => exact follows_rebuild inv ok
  | sync now cfg => exact follows_sync inv ok
  | bind _ _ _ _ _ _ | retry _ _ _ | feed _ _ _ | requestNewSession _ | loopHead _ _ | giveUp _
  | thread _ _ | success _ _ _ | stage _ _ | promoteStaged _ _ | discardPrev _ | prepareReload
  | finalizeReload _ | diversify _ _ | discardCtx _ | snapshot _ _ => cases refreshes

/-! ## Samples -/

/-- One encrypt row for all traffic. -/
def sampleConfig : AppConfig where
  cryptoEnabled := true
  profiles := [⟨1, [0], true⟩]
  policies :=
    [⟨7, 7, 1, .encryptL2, policyProtoAny, -1, -1, -1, -1, true, true, false, false, 0, 0, 0, 0⟩]

/-- Policy 7 is bound, and a handshake agrees on key 5. -/
def sampleReady : SessionState 0 :=
  (initial.next samplePrimitives (.bind 1 9 7 1 (sampleIdentity .initiator) true)).next
    samplePrimitives (.success 2 7 5)

theorem sampleReady_reached : ReachableWith (step samplePrimitives) Ok initial sampleReady := by
  refine .tail (.tail .refl (a := .bind 1 9 7 1 (sampleIdentity .initiator) true) ?_ rfl)
    (a := .success 2 7 5) trivial rfl
  rintro c ⟨⟩

theorem keys_follow_sessions_sample :
    KeysFollowSessions (sampleReady.next samplePrimitives (.rebuild 3 sampleConfig)) := by
  refine keys_follow_sessions sampleReady _ (.rebuild 3 sampleConfig) sampleReady_reached trivial
    (fun _ _ _ _ c found => ?_) rfl
  obtain rfl := List.mem_singleton.mp (BindingTable.mem_of_lookup found).1
  rfl

/-- A manual retry ends the session, and the next synchronisation loads its key again. -/
theorem retried_key_stays :
    ¬ ∀ (s s' : SessionState 0) (act : SessionAct),
      Reachable (step samplePrimitives) initial s → RefreshesAll act →
      step samplePrimitives s act = some s' → KeysFollowSessions s' := by
  intro always
  let s := (sampleReady.next samplePrimitives (.rebuild 3 sampleConfig)).next samplePrimitives
    (.retry 4 10 7)
  have reached : Reachable (step samplePrimitives) initial s :=
    ((sampleReady_reached.mono fun _ _ _ => trivial).tail trivial rfl).tail trivial rfl
  have follows := always s (s.next samplePrimitives (.sync 5 sampleConfig)) (.sync 5 sampleConfig)
    reached trivial rfl
  have unready : (s.table.lookup 7).all (fun c => !c.b.keyReady) = true := by decide +kernel
  have used : (ctxAt (s.next samplePrimitives (.sync 5 sampleConfig)).rt.active.entries 0).any
      (fun ctx => ctx.pqcFromHandshake && ctx.policyId == 7 && ctx.keys.current != 0) = true := by
    decide +kernel
  obtain ⟨ctx, here, keyed⟩ := (Option.any_eq_true _ _).mp used
  simp only [Bool.and_eq_true, beq_iff_eq, bne_iff_ne] at keyed
  refine keyed.2 (follows.blocked 0 ctx here keyed.1.1 fun c found => ?_).1
  rw [keyed.1.2] at found
  have found : s.table.lookup 7 = some c := found
  rw [found] at unready
  simpa using unready

end SessionState

end NeEncryptor
