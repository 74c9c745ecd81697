import NeEncryptor.Crypto.SoundTables

/-!
# Agreement of the key copies

A policy whose row expands into several entries has several ready contexts.  Along a run the main table
stays sound and synchronised workers hold it, as long as no call refreshes or wipes only some of the
contexts of a policy.
-/

namespace NeEncryptor

open Copies CryptoRuntime Pqc Transition

variable {n : ℕ}

namespace KeyRun

structure Inv (r : KeyRun n) : Prop where
  sound : Sound r.retired r.rt.active
  nonzero : Nonzero r.retired
  generation : r.rt.generation = BitVec.ofNat 32 (1 + r.published)
  workers : ∀ w, (r.rt.workers w).generation = (r.seen w).map fun m => BitVec.ofNat 32 (1 + m)
  past : ∀ w m, r.seen w = some m → m ≤ r.published
  copies : ∀ w, r.seen w = some r.published → (r.rt.workers w).entries = r.rt.active.entries

theorem inv_initial : Inv (initial : KeyRun n) where
  sound :=
    { owned := by rintro i e ⟨⟩
      agree := by rintro i j o v v' ⟨⟩
      clean := by rintro i o v ⟨⟩
      indexed := by rintro i cp wireId ⟨⟩ }
  nonzero := by rintro o k ⟨⟩
  generation := rfl
  workers := fun _ => rfl
  past := by rintro w m ⟨⟩
  copies := by rintro w ⟨⟩

/-- Synchronised workers serve the main table. -/
theorem Inv.served {r : KeyRun n} (inv : Inv r) {t : List CryptoEntry} (served : r.Served t) :
    t = r.rt.active.entries := by
  rcases served with main | ⟨w, synced, rfl⟩
  · exact main
  · exact inv.copies w synced

theorem Inv.keysAgree {r : KeyRun n} (inv : Inv r) : KeysAgree r where
  agree t t' i j policyId keys keys' served served' here there := by
    rw [inv.served served] at here
    rw [inv.served served'] at there
    exact inv.sound.agree i j policyId keys keys' here there
  decrypts t i cp ctx wireId served isPolicy isCtx stamped := by
    rw [inv.served served] at isPolicy isCtx ⊢
    obtain ⟨cp', isPolicy', isOwner, -⟩ := inv.sound.owned.at_index isCtx
    obtain rfl : cp = cp' := Option.some_inj.mp (isPolicy.symm.trans isPolicy')
    obtain ⟨e, isEntry, rfl⟩ := Option.map_eq_some_iff.mp isPolicy
    have encrypts : e.policy.isEncrypt = true := by
      rw [ctxAt, isEntry, Option.bind_some] at isCtx
      rw [← (inv.sound.owned i e isEntry).ready, isCtx]
      rfl
    obtain ⟨j, cp', found, there, encrypts', sameRow⟩ :=
      inv.sound.indexed i e.policy wireId isPolicy encrypts stamped
    obtain ⟨e', isEntry', rfl⟩ := Option.map_eq_some_iff.mp there
    have owned' := inv.sound.owned j e' isEntry'
    obtain ⟨ctx', isCtx'⟩ := Option.isSome_iff_exists.mp (owned'.ready.trans encrypts')
    have samePolicy : ctx'.policyId = ctx.policyId := by
      rw [owned'.owner ctx' isCtx', sameRow, isOwner]
    have ready' : ctxAt r.rt.active.entries j = some ctx' := by
      rw [ctxAt, isEntry', Option.bind_some, isCtx']
    refine ⟨j, ctx', found, ready', samePolicy, ?_⟩
    exact inv.sound.agree j i ctx.policyId _ _
      (keyCopies_eq_some_iff.mpr ⟨ctx', ready', samePolicy, rfl⟩)
      (keyCopies_eq_some_iff.mpr ⟨ctx, isCtx, rfl, rfl⟩)
  discarded t i policyId keys served here := by
    rw [inv.served served] at here
    exact inv.sound.clean i policyId keys here

/-! ## The steps -/

theorem mem_prevKeys {policyId owner : ℤ} {key : TrafficKey} {entries : List CryptoEntry} :
    (owner, key) ∈ prevKeys policyId entries ↔
      owner = policyId ∧ key ≠ 0 ∧
        ∃ i keys, keyCopies entries i = some (policyId, keys) ∧ keys.prev = key := by
  unfold prevKeys
  constructor
  · intro listed
    obtain ⟨ctx, isCtx, held⟩ := List.mem_filterMap.mp listed
    obtain ⟨e, isEntry, ready⟩ := List.mem_filterMap.mp isCtx
    obtain ⟨i, here⟩ := List.mem_iff_getElem?.mp isEntry
    by_cases holds : ctx.policyId = policyId ∧ ctx.keys.prev ≠ 0
    · rw [if_pos holds, Option.some_inj, Prod.mk.injEq] at held
      refine ⟨held.1.symm, held.2 ▸ holds.2, i, ctx.keys, ?_, held.2⟩
      exact keyCopies_eq_some_iff.mpr ⟨ctx, by rw [ctxAt, here]; exact ready, holds.1, rfl⟩
    · rw [if_neg holds] at held
      cases held
  · rintro ⟨rfl, used, i, keys, here, rfl⟩
    obtain ⟨ctx, ready, named, rfl⟩ := keyCopies_eq_some_iff.mp here
    obtain ⟨e, isEntry, isCtx⟩ := Option.bind_eq_some_iff.mp ready
    refine List.mem_filterMap.mpr ⟨ctx, ?_, if_pos ⟨named, used⟩⟩
    exact List.mem_filterMap.mpr ⟨e, List.mem_of_getElem? isEntry, isCtx⟩

section Steps

variable {r : KeyRun n}

/-- A call that ends with a publication. -/
theorem Inv.publish (inv : Inv r) {rt : CryptoRuntime n} {retired : List (ℤ × TrafficKey)}
    (generation : rt.generation = r.rt.generation + 1) (workers : rt.workers = r.rt.workers)
    (sound : Sound retired rt.active) (nonzero : Nonzero retired) :
    Inv ⟨rt, counted r rt, r.seen, retired⟩ := by
  have changed : rt.generation ≠ r.rt.generation := by
    rw [generation]
    bv_omega
  rw [counted, if_neg changed]
  refine ⟨sound, nonzero, ?_, ?_, ?_, ?_⟩
  · show rt.generation = BitVec.ofNat 32 (1 + (r.published + 1))
    rw [generation, inv.generation]
    bv_omega
  · intro w
    show (rt.workers w).generation = _
    rw [workers]
    exact inv.workers w
  · intro w m seen
    exact Nat.le_succ_of_le (inv.past w m seen)
  · -- a worker that synchronised before is behind now
    intro w seen
    exact absurd (inv.past w _ seen) (Nat.not_succ_le_self _)

theorem Inv.idle (inv : Inv r) {retired : List (ℤ × TrafficKey)}
    (sound : Sound retired r.rt.active) (nonzero : Nonzero retired) :
    Inv ⟨r.rt, counted r r.rt, r.seen, retired⟩ := by
  rw [counted, if_pos rfl]
  exact ⟨sound, nonzero, inv.generation, inv.workers, inv.past, inv.copies⟩

theorem inv_rebuild (inv : Inv r) {now : ℕ} {views : ℕ → KeyView} {cfg : AppConfig}
    (ok : (KeyCall.rebuild now views cfg).Ok r) :
    Inv ⟨r.rt.fwdCryptoRebuild now views cfg, counted r (r.rt.fwdCryptoRebuild now views cfg),
      r.seen, r.retired⟩ := by
  by_cases enabled : cfg.cryptoEnabled = true
  swap
  · have result : r.rt.fwdCryptoRebuild now views cfg = publish { r.rt with active := .empty } := by
      simp [fwdCryptoRebuild, enabled]
    rw [result]
    refine inv.publish rfl rfl ⟨?_, ?_, ?_, ?_⟩ inv.nonzero
    · rintro i e ⟨⟩
    · rintro i j o v v' ⟨⟩
    · rintro i o v ⟨⟩
    · rintro i cp wireId ⟨⟩
  have loaded : ∀ i cp, policyAt (rebuilt now r.rt.active.entries views
      (cfg.policies.take maxCryptoPolicies)) i = some cp → cfg.policies[i]? = some cp := by
    intro i cp here
    rw [policyAt_rebuilt, List.getElem?_take] at here
    split at here
    · exact here
    · cases here
  cases profiles : cfg.profiles with
  | nil =>
    have result : r.rt.fwdCryptoRebuild now views cfg = publish { r.rt with active :=
        ⟨rebuilt now r.rt.active.entries views (cfg.policies.take maxCryptoPolicies),
          indexByWireId (cfg.policies.take maxCryptoPolicies), fun _ => -1⟩ } := by
      simp [fwdCryptoRebuild, enabled, profiles, rebuilt]
    rw [result]
    exact inv.publish rfl rfl (sound_rebuilt inv.sound inv.nonzero (ok enabled) _) inv.nonzero
  | cons p rest =>
    have result : r.rt.fwdCryptoRebuild now views cfg = publish { r.rt with active :=
        ⟨assignProfiles cfg p
            (rebuilt now r.rt.active.entries views (cfg.policies.take maxCryptoPolicies)),
          indexByWireId (cfg.policies.take maxCryptoPolicies),
          profileIdByWireId p.id (cfg.listed p)⟩ } := by
      simp [fwdCryptoRebuild, enabled, profiles, rebuilt]
    rw [result]
    refine inv.publish rfl rfl ?_ inv.nonzero
    exact (sound_rebuilt inv.sound inv.nonzero (ok enabled) _).assigned p loaded

theorem inv_sync (inv : Inv r) {now : ℕ} {views : ℕ → KeyView} {cfg : AppConfig}
    (ok : (KeyCall.sync now views cfg).Ok r) :
    Inv ⟨r.rt.fwdCryptoSyncPqcSessionKeys now views cfg,
      counted r (r.rt.fwdCryptoSyncPqcSessionKeys now views cfg), r.seen, r.retired⟩ := by
  by_cases enabled : cfg.cryptoEnabled = true
  swap
  · have result : r.rt.fwdCryptoSyncPqcSessionKeys now views cfg = r.rt := by
      simp [fwdCryptoSyncPqcSessionKeys, enabled]
    rw [result]
    exact inv.idle inv.sound inv.nonzero
  cases profiles : cfg.profiles with
  | nil =>
    have result : r.rt.fwdCryptoSyncPqcSessionKeys now views cfg = r.rt := by
      simp [fwdCryptoSyncPqcSessionKeys, enabled, profiles]
    rw [result]
    exact inv.idle inv.sound inv.nonzero
  | cons p rest =>
    have result : r.rt.fwdCryptoSyncPqcSessionKeys now views cfg = publish { r.rt with active :=
        { r.rt.active with
          entries := CryptoRuntime.syncLoop now views cfg p r.rt.active.entries } } := by
      simp [fwdCryptoSyncPqcSessionKeys, enabled, profiles]
    rw [result]
    refine inv.publish rfl rfl ?_ inv.nonzero
    exact inv.sound.syncLoop now p inv.nonzero (ok enabled p rest profiles)

/-- Where no context holds a PREV key of the policy, a discard retires nothing. -/
theorem prevKeys_eq_nil {policyId : ℤ} {entries : List CryptoEntry}
    (empty : ∀ i keys, keyCopies entries i = some (policyId, keys) → keys.prev = 0) :
    prevKeys policyId entries = [] := by
  rw [List.eq_nil_iff_forall_not_mem]
  rintro ⟨owner, key⟩ listed
  obtain ⟨-, used, i, keys, here, rfl⟩ := mem_prevKeys.mp listed
  exact used (empty i keys here)

theorem inv_discard (inv : Inv r) {policyId : ℤ} (ok : (KeyCall.discard policyId).Ok r) :
    Inv ⟨(r.rt.fwdCryptoDiscardPqcPrevKey policyId).1,
      counted r (r.rt.fwdCryptoDiscardPqcPrevKey policyId).1, r.seen,
      prevKeys policyId r.rt.active.entries ++ r.retired⟩ := by
  have ready : ∀ i keys, keyCopies r.rt.active.entries i = some (policyId, keys) →
      ∃ e, r.rt.active.entries[i]? = some e ∧ e.ctx.any (·.policyId == policyId) = true := by
    intro i keys here
    obtain ⟨ctx, isCtx, named, -⟩ := keyCopies_eq_some_iff.mp here
    obtain ⟨e, isEntry, isReady⟩ := Option.bind_eq_some_iff.mp isCtx
    exact ⟨e, isEntry, by simp [isReady, named]⟩
  unfold fwdCryptoDiscardPqcPrevKey
  cases target : r.rt.active.entries.findIdx? fun e => e.ctx.any fun ctx => ctx.policyId == policyId with
  | none =>
    rw [prevKeys_eq_nil, List.nil_append]
    · exact inv.idle inv.sound inv.nonzero
    · intro i keys here
      obtain ⟨e, isEntry, isReady⟩ := ready i keys here
      have unready := List.findIdx?_eq_none_iff.mp target e (List.mem_of_getElem? isEntry)
      rw [isReady] at unready
      cases unready
  | some k =>
    obtain ⟨inside, isTarget, -⟩ := List.findIdx?_eq_some_iff_getElem.mp target
    obtain ⟨ctx, isCtx, named⟩ := (Option.any_eq_true _ _).mp isTarget
    rw [beq_iff_eq] at named
    have here : ctxAt r.rt.active.entries k = some ctx := by
      rw [ctxAt, List.getElem?_eq_getElem inside]
      exact isCtx
    have copy : keyCopies r.rt.active.entries k = some (policyId, ctx.keys) :=
      keyCopies_eq_some_iff.mpr ⟨ctx, here, named, rfl⟩
    have bound : r.rt.active.entries[k]?.bind CryptoEntry.ctx = some ctx := here
    simp only [bound, Option.any_some]
    by_cases used : keyNonzero ctx.keys.prev = true
    swap
    · rw [if_neg used, prevKeys_eq_nil, List.nil_append]
      · exact inv.idle inv.sound inv.nonzero
      · intro i keys other
        rw [inv.sound.agree i k policyId keys ctx.keys other copy]
        simpa [keyNonzero] using used
    rw [if_pos used]
    have alone : ¬ Shared (keyCopies r.rt.active.entries) policyId := fun shared =>
      (keyNonzero_iff _).mp used (ok k ctx.keys copy shared)
    have wiped := sound_discard inv.sound inv.nonzero here named ok
    have nonzero : Nonzero (prevKeys policyId r.rt.active.entries ++ r.retired) := by
      intro owner key listed
      rcases List.mem_append.mp listed with discarded | before
      · exact (mem_prevKeys.mp discarded).2.1
      · exact inv.nonzero owner key before
    refine inv.publish rfl rfl ⟨wiped.owned, wiped.agree, ?_, wiped.indexed⟩ nonzero
    intro i owner keys there listed
    rcases List.mem_append.mp listed with discarded | before
    · obtain ⟨rfl, held, -⟩ := mem_prevKeys.mp discarded
      obtain ⟨was, before, wrote⟩ := rewrite_eq_some_iff.mp ((keyCopies_wipePrev k) ▸ there)
      by_cases same : k = i
      · rw [if_pos same] at wrote
        rw [← wrote] at held
        exact held rfl
      · exact alone ⟨k, i, _, _, same, copy, before⟩
    · exact wiped.clean i owner keys there before

theorem inv_syncWorker (inv : Inv r) {w : Fin n} (ok : (KeyCall.syncWorker w).Ok r) :
    Inv ⟨r.rt.policyCryptoSyncWorker w, counted r (r.rt.policyCryptoSyncWorker w),
      Function.update r.seen w (some r.published), r.retired⟩ := by
  have past : ∀ w' m, Function.update r.seen w (some r.published) w' = some m →
      m ≤ r.published := by
    intro w' m seen
    by_cases same : w' = w
    · rw [same, Function.update_self, Option.some_inj] at seen
      omega
    · rw [Function.update_of_ne same] at seen
      exact inv.past w' m seen
  by_cases current : (r.rt.workers w).generation = some r.rt.generation
  · -- the generation that the worker remembers is the published one, and it is not an older one
    have seen : r.seen w = some r.published := by
      rw [inv.workers w, inv.generation] at current
      obtain ⟨m, seen, same⟩ := Option.map_eq_some_iff.mp current
      have past := inv.past w m seen
      have apart : (r.published - m) % 2 ^ 32 = 0 := by
        have same := congrArg BitVec.toNat same
        simp only [BitVec.toNat_ofNat] at same
        omega
      rw [seen, ok m seen apart]
    have result : r.rt.policyCryptoSyncWorker w = r.rt := if_pos current
    rw [result, ← seen, Function.update_eq_self]
    exact inv.idle inv.sound inv.nonzero
  · let copy : WorkerCopy := ⟨r.rt.active.entries, r.rt.prev.entries, some r.rt.generation⟩
    have result : r.rt.policyCryptoSyncWorker w =
        { r.rt with workers := Function.update r.rt.workers w copy } := if_neg current
    rw [result, counted, if_pos rfl]
    refine ⟨inv.sound, inv.nonzero, inv.generation, ?_, past, ?_⟩
    · intro w'
      by_cases same : w' = w
      · subst same
        simp only [Function.update_self, Option.map_some, copy, inv.generation]
      · simp only [Function.update_of_ne same, inv.workers w']
    · intro w' seen
      by_cases same : w' = w
      · subst same
        simp only [Function.update_self, copy]
      · simp only [Function.update_of_ne same] at seen ⊢
        exact inv.copies w' seen

theorem inv_step (call : KeyCall n) {r' : KeyRun n} (inv : Inv r) (ok : call.Ok r)
    (enabled : r.step call = some r') : Inv r' := by
  obtain rfl := Option.some_inj.mp enabled
  cases call with
  | rebuild now views cfg => exact inv_rebuild inv ok
  | snapshot now grace => exact inv.publish rfl rfl inv.sound inv.nonzero
  | sync now views cfg => exact inv_sync inv ok
  | diversify now views profileId =>
    exact inv.publish rfl rfl (inv.sound.diversified now inv.nonzero ok) inv.nonzero
  | discard policyId => exact inv_discard inv ok
  | syncWorker w => exact inv_syncWorker inv ok

end Steps

/-- In every run whose calls treat the contexts of a policy alike, all copies of its keys agree. -/
theorem copies_agree {r : KeyRun n}
    (reached : ReachableWith step (fun r call => call.Ok r) initial r) : KeysAgree r :=
  (reached.invariant inv_initial fun _ call _ inv ok enabled => inv_step call inv ok enabled).keysAgree

/-! ## Samples -/

/-- An encrypt policy of row `dbId` for one source network. -/
def samplePolicy (dbId : ℤ) (srcNet : Ipv4) : CryptoPolicy where
  id := dbId
  dbId := dbId
  priority := 1
  action := .encryptL2
  protocol := policyProtoAny
  srcPortFrom := -1
  srcPortTo := -1
  dstPortFrom := -1
  dstPortTo := -1
  srcAny := false
  dstAny := true
  srcNegate := false
  dstNegate := false
  srcNet := srcNet
  srcMask := 0x00ffffff
  dstNet := 0
  dstMask := 0

/-- Row 7 lists two source networks, row 8 one. -/
def sampleConfig : AppConfig where
  cryptoEnabled := true
  profiles := [⟨1, [0, 1, 2], false⟩]
  policies := [samplePolicy 7 0x0000000a, samplePolicy 7 0x0001000a, samplePolicy 8 0x0002000a]

/-- Bindings with a PREV key `prev` for policy `policyId`. -/
def sampleView (policyId : ℤ) (prev : TrafficKey) : KeyView := fun id =>
  some ⟨if id = policyId then ⟨prev, 1, true⟩ else .wiped, ⟨5, 2, true⟩, .wiped⟩

def sampleRebuilt : KeyRun 1 := initial.next (.rebuild 0 (fun _ => sampleView 8 4) sampleConfig)

theorem sampleRebuilt_discard_ok : (KeyCall.discard 8).Ok sampleRebuilt := by
  have owners : ∀ i keys, keyCopies sampleRebuilt.rt.active.entries i = some (8, keys) → i = 2 := by
    intro i keys here
    have ids : ∀ j : Fin 2, (keyCopies sampleRebuilt.rt.active.entries j).map Prod.fst = some 7 := by
      decide +kernel
    have length : sampleRebuilt.rt.active.entries.length = 3 := by decide +kernel
    by_contra other
    by_cases first : i < 2
    · have id := ids ⟨i, first⟩
      simp [here] at id
    · have outside : sampleRebuilt.rt.active.entries.length ≤ i := by omega
      rw [keyCopies, ctxAt, List.getElem?_eq_none outside] at here
      cases here
  rintro i keys - ⟨j, k, v, v', apart, atJ, atK⟩
  exact absurd ((owners j v atJ).trans (owners k v' atK).symm) apart

/-- Policy 8 has one context, and its PREV key is discarded before worker 0 synchronises. -/
theorem copies_agree_sample :
    KeysAgree ((sampleRebuilt.next (.discard 8)).next (.syncWorker 0)) := by
  refine copies_agree (.tail (.tail (.tail .refl (a := .rebuild 0 (fun _ => sampleView 8 4)
    sampleConfig) (fun _ => ?_) rfl) sampleRebuilt_discard_ok rfl) ?_ rfl)
  · refine ⟨fun _ _ _ _ _ _ _ _ _ => rfl, fun _ _ _ _ _ _ => List.not_mem_nil, ?_⟩
    decide
  · rintro m ⟨⟩

/-- A discard of policy 7 leaves the PREV key in its second context. -/
theorem discard_leaves_second_copy :
    ¬ ∀ r : KeyRun 1, Reachable step initial r → KeysAgree r := by
  intro always
  have reached : Reachable step (initial : KeyRun 1)
      ((initial.next (.rebuild 0 (fun _ => sampleView 7 4) sampleConfig)).next (.discard 7)) :=
    .tail (.tail .refl trivial rfl) trivial rfl
  have agree := (always _ reached).agree _ _ 0 1 7 ⟨0, 5, 0⟩ ⟨4, 5, 0⟩ (.inl rfl) (.inl rfl)
  exact absurd (agree (by decide +kernel) (by decide +kernel)) (by decide)

end KeyRun

end NeEncryptor
