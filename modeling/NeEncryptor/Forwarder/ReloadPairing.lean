import NeEncryptor.Crypto.KeyRuns
import NeEncryptor.Db.InboundGate

/-!
# Policies and contexts across a reload

`forwarder_reload_config_impl` replaces `fwd->cfg` first and rebuilds the contexts later, while packets
go on being matched and encrypted.  A policy of the new configuration then meets the context that
stands at its position in the old one.
-/

namespace NeEncryptor

open CryptoRuntime Transition

variable {n : ℕ}

/-- `config_select_crypto_policy`, with the position that `cp - fwd->cfg->policies` yields. -/
def configSelectPolicyIndex (cfg : AppConfig) (profileIdx : ℕ) (t : FiveTuple) : Option ℕ :=
  match cfg.profiles[profileIdx]? with
  | none => none
  | some p => p.policyIndices.foldl (fun best pi =>
      match cfg.policies[pi]? with
      | none => best
      | some cp =>
        if cryptoPolicyMatchPacket cp t then
          match best.bind fun b => cfg.policies[b]? with
          | none => some pi
          | some b => if betterThan cp b then some pi else best
        else best) none

/-- The policy at the position is the one that is selected. -/
theorem configSelectPolicyIndex_policy (cfg : AppConfig) (profileIdx : ℕ) (t : FiveTuple) :
    ((configSelectPolicyIndex cfg profileIdx t).bind fun i => cfg.policies[i]?) =
      configSelectCryptoPolicy cfg profileIdx t := by
  unfold configSelectPolicyIndex configSelectCryptoPolicy AppConfig.listed
  cases cfg.profiles[profileIdx]? with
  | none => rfl
  | some p =>
    dsimp only
    suffices same : ∀ (l : List ℕ) (best : Option ℕ),
        ((l.foldl (fun best pi =>
          match cfg.policies[pi]? with
          | none => best
          | some cp =>
            if cryptoPolicyMatchPacket cp t then
              match best.bind fun b => cfg.policies[b]? with
              | none => some pi
              | some b => if betterThan cp b then some pi else best
            else best) best).bind fun i => cfg.policies[i]?) =
          (l.filterMap fun pi => cfg.policies[pi]?).foldl (selectStep t)
            (best.bind fun i => cfg.policies[i]?) from same p.policyIndices none
    intro l
    induction l with
    | nil => exact fun _ => rfl
    | cons pi l ih =>
      intro best
      rw [List.foldl_cons, ih]
      cases here : cfg.policies[pi]? with
      | none => rw [List.filterMap_cons_none here]
      | some cp =>
        rw [List.filterMap_cons_some here, List.foldl_cons]
        congr 1
        unfold selectStep
        dsimp only
        split
        · cases chosen : best.bind fun b => cfg.policies[b]? with
          | none => exact here
          | some b =>
            dsimp only
            split
            · exact here
            · exact chosen
        · rfl

/-- `fwd_crypto_policy_ctx`, in a crypto worker. -/
def CryptoRuntime.fwdCryptoPolicyCtx (rt : CryptoRuntime n) (w : Fin n) (i : ℕ) :
    Option PacketCryptoCtx :=
  if i < maxCryptoPolicies ∧ (rt.active.entries[i]?.bind CryptoEntry.ctx).isSome then
    ((rt.policyCryptoSyncWorker w).workers w).entries[i]?.bind CryptoEntry.ctx
  else none

/-! ## Entries and their ids -/

/-- A context is there for an encrypting policy, and it has the ids of the policy. -/
structure CryptoEntry.Stamped (e : CryptoEntry) : Prop where
  ready : e.ctx.isSome = e.policy.isEncrypt
  ids : ∀ ctx, e.ctx = some ctx → ctx.policyId = e.policy.dbId ∧ ctx.wireId = .ofInt e.policy.id

/-- The entries stand for the policies. -/
def Serves (entries : List CryptoEntry) (policies : List CryptoPolicy) : Prop :=
  ∀ i : ℕ, entries[i]?.map CryptoEntry.policy = policies[i]? ∧
    ∀ e : CryptoEntry, entries[i]? = some e → e.Stamped

section Serves

variable {entries : List CryptoEntry} {policies : List CryptoPolicy}

theorem CryptoEntry.Stamped.mapCtx {e : CryptoEntry} {f : PacketCryptoCtx → PacketCryptoCtx}
    (stamped : e.Stamped)
    (kept : ∀ ctx, e.ctx = some ctx →
      (f ctx).policyId = e.policy.dbId ∧ (f ctx).wireId = .ofInt e.policy.id) :
    (e.mapCtx f).Stamped := by
  constructor
  · simp only [CryptoEntry.mapCtx, Option.isSome_map, stamped.ready]
  · intro _ here
    obtain ⟨ctx, was, rfl⟩ := Option.map_eq_some_iff.mp here
    exact kept ctx was

/-- Writes to contexts that leave the ids of the policy. -/
theorem Serves.mapCtx {entries' : List CryptoEntry} {f : ℕ → PacketCryptoCtx → PacketCryptoCtx}
    (serves : Serves entries policies)
    (written : ∀ i : ℕ, entries'[i]? = entries[i]?.map (.mapCtx (f i)))
    (kept : ∀ i e ctx, entries[i]? = some e → e.ctx = some ctx →
      (f i ctx).policyId = e.policy.dbId ∧ (f i ctx).wireId = .ofInt e.policy.id) :
    Serves entries' policies := by
  intro i
  obtain ⟨same, stamped⟩ := serves i
  rw [written i]
  refine ⟨?_, fun e' here => ?_⟩
  · rw [← same, Option.map_map]
    rfl
  · obtain ⟨e, was, rfl⟩ := Option.map_eq_some_iff.mp here
    exact (stamped e was).mapCtx fun ctx isCtx => kept i e ctx was isCtx

theorem getElem?_modify_mapCtx (k i : ℕ) (f : PacketCryptoCtx → PacketCryptoCtx) :
    (entries.modify k (.mapCtx f))[i]? =
      entries[i]?.map (.mapCtx (if k = i then f else id)) := by
  rw [List.getElem?_modify]
  cases entries[i]? with
  | none => rfl
  | some e =>
    by_cases same : k = i
    · simp [same]
    · simp [same, CryptoEntry.mapCtx]

theorem Serves.modify (serves : Serves entries policies) {k : ℕ}
    {f : PacketCryptoCtx → PacketCryptoCtx}
    (kept : ∀ e ctx, entries[k]? = some e → e.ctx = some ctx →
      (f ctx).policyId = e.policy.dbId ∧ (f ctx).wireId = .ofInt e.policy.id) :
    Serves (entries.modify k (.mapCtx f)) policies := by
  refine serves.mapCtx (fun i => getElem?_modify_mapCtx k i f) fun i e ctx here isCtx => ?_
  by_cases same : k = i
  · subst same
    rw [if_pos rfl]
    exact kept e ctx here isCtx
  · rw [if_neg same]
    exact ((serves i).2 e here).ids ctx isCtx

/-- A refresh changes no id. -/
theorem refreshCtx_ids (now : ℕ) (view : KeyView) (ctx : PacketCryptoCtx) :
    (refreshCtx now view ctx).policyId = ctx.policyId ∧
      (refreshCtx now view ctx).wireId = ctx.wireId := by
  have material (c : PacketCryptoCtx) : (nePqcOnKeyMaterial now c).policyId = c.policyId ∧
      (nePqcOnKeyMaterial now c).wireId = c.wireId := by
    unfold nePqcOnKeyMaterial
    split_ifs
    all_goals exact ⟨rfl, rfl⟩
  have refreshed : (packetCryptoRefreshPqcKeys view ctx).policyId = ctx.policyId ∧
      (packetCryptoRefreshPqcKeys view ctx).wireId = ctx.wireId := by
    unfold packetCryptoRefreshPqcKeys pqcLoadHandshakeSlots
    split
    · exact ⟨rfl, rfl⟩
    · cases view ctx.policyId with
      | some slots => exact ⟨rfl, rfl⟩
      | none =>
        dsimp only [Option.map_none]
        split
        · exact ⟨rfl, rfl⟩
        · exact ⟨rfl, rfl⟩
  exact ⟨(material _).1.trans refreshed.1, (material _).2.trans refreshed.2⟩

/-- The policies that a rebuild takes over. -/
def AppConfig.loaded (cfg : AppConfig) : List CryptoPolicy :=
  if cfg.cryptoEnabled then cfg.policies.take maxCryptoPolicies else []

theorem serves_rebuildEntries (now : ℕ) (old : List CryptoEntry) (views : ℕ → KeyView)
    (policies : List CryptoPolicy) :
    Serves (policies.mapIdx fun i cp => rebuildEntry now old (views i) cp) policies := by
  intro i
  rw [List.getElem?_mapIdx]
  refine ⟨?_, fun e here => ?_⟩
  · cases policies[i]? with
    | none => rfl
    | some cp => rfl
  · obtain ⟨cp, -, rfl⟩ := Option.map_eq_some_iff.mp here
    have ids : (rebuildCtx old cp).policyId = cp.dbId ∧
        (rebuildCtx old cp).wireId = .ofInt cp.id := by
      unfold rebuildCtx
      cases oldCtx old cp.dbId with
      | none => exact ⟨rfl, rfl⟩
      | some ctx => exact ⟨rfl, rfl⟩
    obtain ⟨policyId, wireId⟩ := refreshCtx_ids now (views i) (rebuildCtx old cp)
    unfold rebuildEntry
    cases encrypts : cp.isEncrypt with
    | true =>
      refine ⟨encrypts.symm, fun ctx isCtx => ?_⟩
      obtain rfl := Option.some.inj isCtx
      exact ⟨policyId.trans ids.1, wireId.trans ids.2⟩
    | false => exact ⟨encrypts.symm, fun ctx isCtx => nomatch isCtx⟩

/-- The profile ids are written without a change of the other ids. -/
theorem Serves.assignProfiles {cfg : AppConfig} {entries : List CryptoEntry}
    (serves : Serves entries (cfg.policies.take maxCryptoPolicies)) (p : ProfileConfig) :
    Serves (assignProfiles cfg p entries) (cfg.policies.take maxCryptoPolicies) := by
  unfold NeEncryptor.assignProfiles
  refine List.foldlRecOn (motive := fun es => Serves es (cfg.policies.take maxCryptoPolicies))
    _ _ serves ?_
  rintro es serves k -
  cases isPolicy : cfg.policies[k]? with
  | none => exact serves
  | some cp =>
    dsimp only
    split
    · refine serves.modify fun e ctx here isCtx => ?_
      obtain ⟨same, stamped⟩ := serves k
      have owner : e.policy = cp := by
        rw [here, Option.map_some, List.getElem?_take] at same
        split at same
        · rw [isPolicy] at same
          exact Option.some.inj same
        · cases same
      exact ⟨by rw [owner]; rfl, ((stamped e here).ids ctx isCtx).2⟩
    · exact serves

theorem serves_rebuild (rt : CryptoRuntime n) (now : ℕ) (views : ℕ → KeyView) (cfg : AppConfig) :
    Serves (rt.fwdCryptoRebuild now views cfg).active.entries cfg.loaded := by
  unfold fwdCryptoRebuild AppConfig.loaded
  cases cfg.cryptoEnabled with
  | false => exact fun i => ⟨rfl, fun e here => nomatch here⟩
  | true =>
    have rebuilt := serves_rebuildEntries now rt.active.entries views
      (cfg.policies.take maxCryptoPolicies)
    cases profiles : cfg.profiles with
    | nil => exact rebuilt
    | cons p ps => exact rebuilt.assignProfiles p

end Serves

/-! ## Runs of reloads -/

/-- How far `forwarder_reload_config_impl` has come. -/
inductive ReloadPhase
  | idle
  | switched
  | snapshotted
  deriving DecidableEq, Repr

/-- The forwarder between the steps of reloads; `built` is the configuration of the last rebuild. -/
structure PairState (n : ℕ) where
  cfg : AppConfig
  built : AppConfig
  phase : ReloadPhase
  rt : CryptoRuntime n

inductive PairAct (n : ℕ)
  /-- `fwd->cfg = cfg`. -/
  | switch (cfg : AppConfig)
  | snapshot (now grace : ℕ)
  | rebuild (now : ℕ) (views : ℕ → KeyView)
  /-- A handshake refreshes the contexts of a profile. -/
  | diversify (now : ℕ) (views : ℕ → KeyView) (profileId : ℤ)
  | discard (policyId : ℤ)
  /-- A worker takes over the contexts. -/
  | syncWorker (w : Fin n)

namespace PairState

def step (st : PairState n) : PairAct n → Option (PairState n)
  | .switch cfg => if st.phase = .idle then some { st with cfg := cfg, phase := .switched } else none
  | .snapshot now grace =>
    if st.phase = .switched then
      some { st with phase := .snapshotted, rt := st.rt.fwdCryptoSnapshotActiveToPrev now grace }
    else none
  | .rebuild now views =>
    if st.phase = .snapshotted then
      some { st with
        phase := .idle
        built := st.cfg
        rt := st.rt.fwdCryptoRebuild now views st.cfg }
    else none
  | .diversify now views profileId =>
    some { st with rt := st.rt.forwarderPreDiversifyPqcKeys now views profileId }
  | .discard policyId => some { st with rt := (st.rt.fwdCryptoDiscardPqcPrevKey policyId).1 }
  | .syncWorker w => some { st with rt := st.rt.policyCryptoSyncWorker w }

/-- The forwarder once it has started and made the one sync of `forwarder_run`, which leaves the ids
of the contexts as the rebuild set them. -/
def initial (now : ℕ) (views : ℕ → KeyView) (cfg : AppConfig) : PairState n :=
  ⟨cfg, cfg, .idle, CryptoRuntime.initial.fwdCryptoRebuild now views cfg⟩

/-- No worker has copies of exactly `2 ^ 32` publications ago. -/
def Recent (st : PairState n) (_ : PairAct n) : Prop :=
  ∀ w, (st.rt.workers w).generation ≠ some (st.rt.generation + 1)

/-- A packet that selects an encrypting policy finds no context, or that of the policy. -/
def Paired (st : PairState n) (w : Fin n) (t : FiveTuple) : Prop :=
  ∀ i cp, configSelectPolicyIndex st.cfg 0 t = some i → st.cfg.policies[i]? = some cp →
    cp.isEncrypt = true → ∀ ctx, st.rt.fwdCryptoPolicyCtx w i = some ctx →
      ctx.policyId = cp.dbId ∧ ctx.wireId = .ofInt cp.id

/-- Where the selected policy stands, the old configuration has no encrypting policy, or one with the
same ids. -/
def Aligned (built cfg : AppConfig) (t : FiveTuple) : Prop :=
  ∀ i cp, configSelectPolicyIndex cfg 0 t = some i → cfg.policies[i]? = some cp →
    cp.isEncrypt = true → ∀ old, built.loaded[i]? = some old → old.isEncrypt = true →
      old.dbId = cp.dbId ∧ UInt8.ofInt old.id = .ofInt cp.id

/-- The contexts stand for the configuration of the last rebuild, and so do the copies of a worker
that are up to date. -/
structure Inv (st : PairState n) : Prop where
  serves : Serves st.rt.active.entries st.built.loaded
  fresh : ∀ w, (st.rt.workers w).generation = some st.rt.generation →
    (st.rt.workers w).entries = st.rt.active.entries

variable {st st' : PairState n}

/-- A publication leaves no worker up to date. -/
theorem fresh_publish {rt rt' : CryptoRuntime n}
    (recent : ∀ w, (rt.workers w).generation ≠ some (rt.generation + 1))
    (workers : rt'.workers = rt.workers) (generation : rt'.generation = rt.generation + 1) (w : Fin n)
    (current : (rt'.workers w).generation = some rt'.generation) :
    (rt'.workers w).entries = rt'.active.entries := by
  rw [workers, generation] at current
  exact absurd current (recent w)

theorem inv_step (inv : Inv st) {act : PairAct n} (recent : st.Recent act)
    (stepped : st.step act = some st') : Inv st' := by
  cases act with
  | switch cfg =>
    simp only [step] at stepped
    split at stepped
    · cases stepped
      exact ⟨inv.serves, inv.fresh⟩
    · cases stepped
  | snapshot now grace =>
    simp only [step] at stepped
    split at stepped
    · cases stepped
      exact ⟨inv.serves, fresh_publish recent rfl rfl⟩
    · cases stepped
  | rebuild now views =>
    simp only [step] at stepped
    split at stepped
    · cases stepped
      refine ⟨serves_rebuild st.rt now views st.cfg, fresh_publish recent ?_ ?_⟩
      all_goals
        dsimp only
        unfold fwdCryptoRebuild
        split
        · rfl
        · cases st.cfg.profiles with
          | nil => rfl
          | cons p ps => rfl
    · cases stepped
  | diversify now views profileId =>
    cases stepped
    have written (i : ℕ) : (st.rt.forwarderPreDiversifyPqcKeys now views profileId).active.entries[i]? =
        st.rt.active.entries[i]?.map (.mapCtx fun ctx =>
          if ctx.profileId = profileId then refreshCtx now (views i) ctx else ctx) :=
      List.getElem?_mapIdx
    refine ⟨inv.serves.mapCtx written fun i e ctx here isCtx => ?_, fresh_publish recent rfl rfl⟩
    have ids := ((inv.serves i).2 e here).ids ctx isCtx
    split
    · rw [(refreshCtx_ids now (views i) ctx).1, (refreshCtx_ids now (views i) ctx).2]
      exact ids
    · exact ids
  | discard policyId =>
    cases stepped
    unfold fwdCryptoDiscardPqcPrevKey
    cases st.rt.active.entries.findIdx? fun e => e.ctx.any fun ctx => ctx.policyId == policyId with
    | none => exact inv
    | some k =>
      dsimp only
      split
      · refine ⟨inv.serves.modify fun e ctx here isCtx => ?_, fresh_publish recent rfl rfl⟩
        exact ((inv.serves k).2 e here).ids ctx isCtx
      · exact inv
  | syncWorker w =>
    cases stepped
    unfold policyCryptoSyncWorker
    split
    · exact inv
    · refine ⟨inv.serves, fun v current => ?_⟩
      by_cases same : v = w
      · subst same
        dsimp only
        rw [Function.update_self]
      · dsimp only at current ⊢
        rw [Function.update_of_ne same] at current ⊢
        exact inv.fresh v current

theorem inv_of_reachable {now : ℕ} {views : ℕ → KeyView} {cfg : AppConfig}
    (reached : ReachableWith step Recent (initial now views cfg) st) : Inv st := by
  refine reached.invariant ⟨serves_rebuild _ now views cfg, fun w current => ?_⟩
    fun _ _ _ inv recent stepped => inv_step inv recent stepped
  have never : ((initial now views cfg : PairState n).rt.workers w).generation = none := by
    dsimp only [initial]
    unfold fwdCryptoRebuild
    split
    · rfl
    · cases cfg.profiles with
      | nil => rfl
      | cons p ps => rfl
  rw [never] at current
  cases current

/-- What a worker finds at a position. -/
theorem Inv.policyCtx (inv : Inv st) (w : Fin n) {i : ℕ} {ctx : PacketCryptoCtx} :
    st.rt.fwdCryptoPolicyCtx w i = some ctx ↔
      i < maxCryptoPolicies ∧ st.rt.active.entries[i]?.bind CryptoEntry.ctx = some ctx := by
  have synced : ((st.rt.policyCryptoSyncWorker w).workers w).entries = st.rt.active.entries := by
    unfold policyCryptoSyncWorker
    split
    · rename_i current
      exact inv.fresh w current
    · dsimp only
      rw [Function.update_self]
  rw [fwdCryptoPolicyCtx, synced]
  constructor
  · intro found
    split at found
    · rename_i ready
      exact ⟨ready.1, found⟩
    · cases found
  · rintro ⟨small, found⟩
    rw [if_pos ⟨small, by rw [found]; rfl⟩]
    exact found

theorem Inv.paired_of_aligned (inv : Inv st) (w : Fin n) {t : FiveTuple}
    (aligned : Aligned st.built st.cfg t) : st.Paired w t := by
  intro i cp selected here encrypts ctx found
  obtain ⟨-, found⟩ := (inv.policyCtx w).mp found
  obtain ⟨e, isEntry, isCtx⟩ := Option.bind_eq_some_iff.mp found
  obtain ⟨same, stamped⟩ := inv.serves i
  rw [isEntry] at same
  have ready := (stamped e isEntry).ready
  rw [isCtx] at ready
  obtain ⟨policyId, wireId⟩ := (stamped e isEntry).ids ctx isCtx
  obtain ⟨owner, wire⟩ := aligned i cp selected here encrypts e.policy same.symm ready.symm
  exact ⟨policyId.trans owner, wireId.trans wire⟩

/-- A packet finds the context of its policy if and only if the policy stands where the configuration
of the last rebuild has it, or has none that encrypts. -/
theorem paired_iff {now : ℕ} {views : ℕ → KeyView} {cfg : AppConfig}
    (reached : ReachableWith step Recent (initial now views cfg) st) (w : Fin n) (t : FiveTuple) :
    st.Paired w t ↔ Aligned st.built st.cfg t := by
  have inv := inv_of_reachable reached
  constructor
  · intro paired i cp selected here encrypts old isOld oldEncrypts
    obtain ⟨same, stamped⟩ := inv.serves i
    rw [isOld] at same
    obtain ⟨e, isEntry, rfl⟩ := Option.map_eq_some_iff.mp same
    have ready := (stamped e isEntry).ready
    rw [oldEncrypts] at ready
    obtain ⟨ctx, isCtx⟩ := Option.isSome_iff_exists.mp ready
    have small : i < maxCryptoPolicies := by
      have inside := (List.getElem?_eq_some_iff.mp isOld).1
      unfold AppConfig.loaded at inside
      split at inside
      · rw [List.length_take] at inside
        omega
      · cases inside
    have found := (inv.policyCtx w).mpr ⟨small, by rw [isEntry]; exact isCtx⟩
    obtain ⟨policyId, wireId⟩ := (stamped e isEntry).ids ctx isCtx
    obtain ⟨owner, wire⟩ := paired i cp selected here encrypts ctx found
    exact ⟨policyId.symm.trans owner, wireId.symm.trans wire⟩
  · exact inv.paired_of_aligned w

/-- Outside of a reload every packet finds the context of its policy. -/
theorem aligned_self (cfg : AppConfig) (t : FiveTuple) : Aligned cfg cfg t := by
  intro i cp _ here _ old isOld _
  unfold AppConfig.loaded at isOld
  split at isOld
  · rw [List.getElem?_take] at isOld
    split at isOld
    · rw [here] at isOld
      obtain rfl := Option.some.inj isOld
      exact ⟨rfl, rfl⟩
    · cases isOld
  · cases isOld

/-- The policies of two LANs, in either order. -/
def lanConfig (swapped : Bool) : AppConfig :=
  let first := (gateConfig 80 443).policies
  let second := first.map fun cp => { cp with id := 2, dbId := 8, srcNet := 0x0B000000 }
  { gateConfig 80 443 with
    profiles := [⟨1, [0, 1], false⟩]
    policies := if swapped then second ++ first else first ++ second }

/-- A reload has switched to the policies in the other order. -/
def switchedState : PairState 1 :=
  { initial 0 (fun _ _ => some ⟨.wiped, ⟨9, 1, true⟩, .wiped⟩) (lanConfig false) with
    cfg := lanConfig true
    phase := .switched }

theorem switchedState_reached :
    ReachableWith step Recent
      (initial 0 (fun _ _ => some ⟨.wiped, ⟨9, 1, true⟩, .wiped⟩) (lanConfig false))
      switchedState := by
  refine .single (a := .switch (lanConfig true)) ?_ rfl
  intro w
  decide +revert

/-- A packet of the LAN 10.0.0.0/8. -/
def lanPacket : FiveTuple := ⟨0x0A000005, 0x08080808, 50000, 443, 6⟩

theorem switchedState_iff :
    switchedState.Paired 0 lanPacket ↔ Aligned (lanConfig false) (lanConfig true) lanPacket :=
  paired_iff switchedState_reached 0 lanPacket

/-- The packet is encrypted for the other policy. -/
theorem switchedState_not_paired : ¬ switchedState.Paired 0 lanPacket := by
  intro paired
  have selected : configSelectPolicyIndex (lanConfig true) 0 lanPacket = some 1 := by decide
  obtain ⟨cp, isPolicy, encrypts, owner⟩ :
      ∃ cp, (lanConfig true).policies[1]? = some cp ∧ cp.isEncrypt = true ∧ cp.dbId = 7 :=
    ⟨_, rfl, rfl, rfl⟩
  obtain ⟨ctx, found, other⟩ :
      ∃ ctx, switchedState.rt.fwdCryptoPolicyCtx 0 1 = some ctx ∧ ctx.policyId = 8 :=
    ⟨_, rfl, rfl⟩
  have same := (paired 1 cp selected isPolicy encrypts ctx found).1
  rw [owner, other] at same
  cases same

end PairState

end NeEncryptor
