import NeEncryptor.Crypto.KeyRuns

/-!
# Sound tables

A table of policies is sound when its contexts belong to their policies, the copies of a policy's keys
agree, none of them accepts a discarded key, and every wire id leads back to its row.  Each call that
meets its condition keeps the main table sound.
-/

namespace NeEncryptor

open Copies CryptoRuntime Pqc

variable {n : ℕ}

/-! ## One refresh -/

theorem refreshedKeys_of_keeps {found : Option (KeySlots KeySlot)} {keys : KeySlots TrafficKey}
    (keeps : KeepsKeys found keys) : refreshedKeys found keys = keys := by
  rcases keeps with loaded | ⟨rfl, used | empty⟩
  · obtain ⟨slots, rfl, same⟩ := Option.map_eq_some_iff.mp loaded
    exact same
  · simp only [refreshedKeys, if_pos ((keyNonzero_iff _).mpr used)]
  · simp [refreshedKeys, empty]

theorem refreshedKeys_congr {found found' : Option (KeySlots KeySlot)}
    (alike : found.map loadSlots = found'.map loadSlots) (keys : KeySlots TrafficKey) :
    refreshedKeys found keys = refreshedKeys found' keys := by
  cases found with
  | none =>
    cases found' with
    | none => rfl
    | some _ => cases alike
  | some _ =>
    cases found' with
    | none => cases alike
    | some _ => exact Option.some_inj.mp alike

/-- No context of the table accepts a discarded key. -/
def Clean (retired : List (ℤ × TrafficKey)) (copies : ℕ → Option (ℤ × KeySlots TrafficKey)) :
    Prop :=
  ∀ i policyId keys, copies i = some (policyId, keys) → (policyId, keys.prev) ∉ retired

/-- A discarded key is a key. -/
def Nonzero (retired : List (ℤ × TrafficKey)) : Prop :=
  ∀ policyId key, (policyId, key) ∈ retired → key ≠ 0

section Refresh

variable {retired : List (ℤ × TrafficKey)} {copies : ℕ → Option (ℤ × KeySlots TrafficKey)}

theorem refreshedKeys_clean {found : Option (KeySlots KeySlot)} {keys : KeySlots TrafficKey}
    {policyId : ℤ} (nonzero : Nonzero retired) (avoids : AvoidsRetired retired policyId found)
    (clean : (policyId, keys.prev) ∉ retired) :
    (policyId, (refreshedKeys found keys).prev) ∉ retired := by
  cases found with
  | some slots => exact avoids slots rfl
  | none =>
    unfold refreshedKeys
    by_cases used : keyNonzero keys.current = true
    · simpa only [if_pos used] using clean
    · simp only [if_neg used]
      exact fun listed => nonzero _ _ listed rfl

theorem Clean.rewrite {f : ℕ → ℤ → KeySlots TrafficKey → KeySlots TrafficKey}
    (clean : Clean retired copies)
    (kept : ∀ i policyId keys, copies i = some (policyId, keys) →
      (policyId, keys.prev) ∉ retired → (policyId, (f i policyId keys).prev) ∉ retired) :
    Clean retired (rewrite f copies) := by
  intro i policyId keys here
  obtain ⟨was, before, rfl⟩ := rewrite_eq_some_iff.mp here
  exact kept i policyId was before (clean i policyId was before)

end Refresh

/-! ## The wire ids -/

section WireIds

variable {policies : List CryptoPolicy} {wireId : BitVec 8}

theorem mem_of_indexByWireId {j : ℕ} (found : indexByWireId policies wireId = some j) :
    ∃ cp, policies[j]? = some cp ∧ cp.isEncrypt = true ∧ wireSlot cp = some wireId := by
  revert found
  unfold indexByWireId
  refine List.foldlRecOn (motive := fun found => found = some j → _) _ _ (fun none => nomatch none) ?_
  rintro found ih ⟨cp, i⟩ listed
  by_cases stamps : (cp.isEncrypt && wireSlot cp == some wireId) = true
  · simp only [if_pos stamps, Option.some_inj]
    rintro rfl
    rw [Bool.and_eq_true, beq_iff_eq] at stamps
    exact ⟨cp, by simpa using List.mem_zipIdx_iff_getElem?.mp listed, stamps⟩
  · simp only [if_neg stamps]
    exact ih

theorem indexByWireId_isSome {i : ℕ} {cp : CryptoPolicy} (here : policies[i]? = some cp)
    (encrypts : cp.isEncrypt = true) (stamped : wireSlot cp = some wireId) :
    (indexByWireId policies wireId).isSome = true := by
  have listed : (cp, i) ∈ policies.zipIdx := List.mem_zipIdx_iff_getElem?.mpr here
  have stamps : (cp.isEncrypt && wireSlot cp == some wireId) = true := by simp [encrypts, stamped]
  unfold indexByWireId
  -- the last policy of the wire id decides, and there is one
  obtain ⟨before, after, split⟩ := List.append_of_mem listed
  rw [split, List.foldl_append, List.foldl_cons]
  simp only [if_pos stamps]
  refine List.foldlRecOn (motive := fun found => Option.isSome found = true) after _ rfl ?_
  rintro found ih ⟨cp', j⟩ -
  dsimp only
  split
  · rfl
  · exact ih

end WireIds

/-! ## The invariant -/

/-- Every encrypt policy with a wire id has an entry of its row behind that wire id. -/
def Indexed (t : PolicyTables) : Prop :=
  ∀ i cp wireId, policyAt t.entries i = some cp → cp.isEncrypt = true →
    wireSlot cp = some wireId →
    ∃ j cp', t.policyIndexByWireId wireId = some j ∧ policyAt t.entries j = some cp' ∧
      cp'.isEncrypt = true ∧ cp'.dbId = cp.dbId

/-- What the calls keep of a table. -/
structure Sound (retired : List (ℤ × TrafficKey)) (t : PolicyTables) : Prop where
  owned : Owned t.entries
  agree : Agree (keyCopies t.entries)
  clean : Clean retired (keyCopies t.entries)
  indexed : Indexed t

/-! ## The calls keep a sound table sound -/

section Sound

variable {retired : List (ℤ × TrafficKey)} {t : PolicyTables}

/-- A call that rewrites copies in place. -/
theorem Sound.rewrite {entries : List CryptoEntry}
    {f : ℕ → ℤ → KeySlots TrafficKey → KeySlots TrafficKey} (sound : Sound retired t)
    (owned : Owned entries) (policies : policyAt entries = policyAt t.entries)
    (rewritten : keyCopies entries = Copies.rewrite f (keyCopies t.entries))
    (agree : Agree (Copies.rewrite f (keyCopies t.entries)))
    (clean : ∀ i policyId keys, keyCopies t.entries i = some (policyId, keys) →
      (policyId, keys.prev) ∉ retired → (policyId, (f i policyId keys).prev) ∉ retired) :
    Sound retired { t with entries := entries } where
  owned := owned
  agree := by rw [rewritten]; exact agree
  clean := by rw [rewritten]; exact sound.clean.rewrite clean
  indexed := by
    unfold Indexed
    rw [policies]
    exact sound.indexed

theorem sound_rebuilt {cfg : AppConfig} {views : ℕ → KeyView} {now : ℕ}
    (sound : Sound retired t) (nonzero : Nonzero retired)
    (ok : RebuildOk retired views (cfg.policies.take maxCryptoPolicies))
    (profileIds : BitVec 8 → ℤ) :
    Sound retired
      ⟨rebuilt now t.entries views (cfg.policies.take maxCryptoPolicies),
        indexByWireId (cfg.policies.take maxCryptoPolicies), profileIds⟩ := by
  have found : ∀ i policyId keys,
      keyCopies (rebuilt now t.entries views (cfg.policies.take maxCryptoPolicies)) i =
        some (policyId, keys) →
      ∃ cp, (cfg.policies.take maxCryptoPolicies)[i]? = some cp ∧ cp.isEncrypt = true ∧
        cp.dbId = policyId ∧
        refreshedKeys (views i cp.dbId) (oldKeys t.entries cp.dbId) = keys := by
    intro i policyId keys here
    rw [keyCopies_rebuilt] at here
    obtain ⟨cp, isPolicy, isCopy⟩ := Option.bind_eq_some_iff.mp here
    by_cases encrypts : cp.isEncrypt = true
    · rw [if_pos encrypts, Option.some_inj, Prod.mk.injEq] at isCopy
      exact ⟨cp, isPolicy, encrypts, isCopy⟩
    · rw [if_neg encrypts] at isCopy
      cases isCopy
  constructor
  · exact owned_rebuilt
  · intro i j policyId keys keys' here there
    obtain ⟨cp, isPolicy, encrypts, named, rfl⟩ := found i policyId keys here
    obtain ⟨cp', isPolicy', encrypts', named', rfl⟩ := found j policyId keys' there
    have sameRow : cp.dbId = cp'.dbId := named.trans named'.symm
    rw [← sameRow]
    exact refreshedKeys_congr (ok.alike i j cp cp' isPolicy isPolicy' encrypts encrypts' sameRow) _
  · intro i policyId keys here
    obtain ⟨cp, isPolicy, encrypts, rfl, rfl⟩ := found i policyId keys here
    refine refreshedKeys_clean nonzero (ok.avoids i cp isPolicy encrypts) ?_
    rcases oldKeys_cases sound.owned cp.dbId with unused | ⟨j, isOld⟩
    · rw [unused]
      exact fun listed => nonzero _ _ listed rfl
    · exact sound.clean j _ _ isOld
  · intro i cp wireId here encrypts stamped
    simp only [policyAt_rebuilt] at here ⊢
    obtain ⟨j, index⟩ := Option.isSome_iff_exists.mp (indexByWireId_isSome here encrypts stamped)
    obtain ⟨cp', isPolicy', encrypts', stamped'⟩ := mem_of_indexByWireId index
    refine ⟨j, cp', index, isPolicy', encrypts', ?_⟩
    exact ok.wires cp' (List.mem_of_getElem? isPolicy') cp (List.mem_of_getElem? here) encrypts'
      encrypts (by rw [stamped']; rfl) (stamped'.trans stamped.symm)

theorem Sound.assigned {cfg : AppConfig} (p : ProfileConfig) (sound : Sound retired t)
    (loaded : ∀ i cp, policyAt t.entries i = some cp → cfg.policies[i]? = some cp) :
    Sound retired { t with entries := assignProfiles cfg p t.entries } := by
  obtain ⟨owned, sameKeys, samePolicies⟩ := assignProfiles_keeps p sound.owned loaded
  constructor
  · exact owned
  · rw [sameKeys]
    exact sound.agree
  · rw [sameKeys]
    exact sound.clean
  · unfold Indexed
    rw [samePolicies]
    exact sound.indexed

/-- The entries differ from those of `t` only in keys that no two contexts share. -/
def SharedKept (t : PolicyTables) (entries : List CryptoEntry) : Prop :=
  ∃ g, keyCopies entries = Copies.rewrite g (keyCopies t.entries) ∧
    ∀ i policyId keys, keyCopies t.entries i = some (policyId, keys) →
      Shared (keyCopies t.entries) policyId → g i policyId keys = keys

theorem sharedKept_refl : SharedKept t t.entries :=
  ⟨fun _ _ keys => keys, (rewrite_eq_self fun _ _ _ _ => rfl).symm, fun _ _ _ _ _ => rfl⟩

theorem Sound.syncRound {entries : List CryptoEntry} {cp : CryptoPolicy} {view : KeyView}
    (now : ℕ) (profileId : ℤ) (agree : Agree (keyCopies t.entries)) (nonzero : Nonzero retired)
    (ok : RefreshOk retired t.entries cp.dbId (view cp.dbId))
    (sound : Sound retired { t with entries := entries }) (kept : SharedKept t entries) :
    Sound retired { t with entries := CryptoRuntime.syncRound now view profileId cp entries } ∧
      SharedKept t (CryptoRuntime.syncRound now view profileId cp entries) := by
  obtain ⟨g, rewritten, fixed⟩ := kept
  have round := keyCopies_syncRound now view profileId cp sound.owned
  have target : ∀ i policyId keys, keyCopies t.entries i = some (policyId, keys) →
      syncTarget cp entries = some i → policyId = cp.dbId := by
    intro i policyId keys here isTarget
    have now : keyCopies entries i = some (policyId, g i policyId keys) := by
      rw [rewritten]
      exact rewrite_eq_some_iff.mpr ⟨keys, here, rfl⟩
    exact syncTarget_owner sound.owned isTarget now
  have keptAll : SharedKept t (CryptoRuntime.syncRound now view profileId cp entries) := by
    refine ⟨_, by rw [round, rewritten, rewrite_rewrite], ?_⟩
    intro i policyId keys here shared
    rw [fixed i policyId keys here shared]
    by_cases isTarget : syncTarget cp entries = some i
    · obtain rfl := target i policyId keys here isTarget
      rw [if_pos isTarget]
      exact refreshedKeys_of_keeps ((ok i keys here).2 shared)
    · rw [if_neg isTarget]
  refine ⟨?_, keptAll⟩
  obtain ⟨g', rewritten', fixed'⟩ := keptAll
  refine sound.rewrite (owned_syncRound sound.owned now view profileId cp)
    (funext (policyAt_syncRound now view profileId cp)) round ?_ ?_
  · rw [← round, rewritten']
    exact agree.rewrite_of_fixed fixed'
  · intro i policyId keys here clean
    by_cases isTarget : syncTarget cp entries = some i
    · have here' := here
      simp only [rewritten] at here'
      obtain ⟨before, was, -⟩ := rewrite_eq_some_iff.mp here'
      obtain rfl := target i policyId before was isTarget
      rw [if_pos isTarget]
      exact refreshedKeys_clean nonzero (ok i before was).1 clean
    · rw [if_neg isTarget]
      exact clean

theorem Sound.syncLoop {cfg : AppConfig} {views : ℕ → KeyView} (now : ℕ) (p : ProfileConfig)
    (sound : Sound retired t) (nonzero : Nonzero retired)
    (ok : ∀ pi j cp, (pi, j) ∈ p.policyIndices.zipIdx → cfg.policies[pi]? = some cp →
      cp.isEncrypt = true → RefreshOk retired t.entries cp.dbId (views j cp.dbId)) :
    Sound retired { t with entries := CryptoRuntime.syncLoop now views cfg p t.entries } := by
  unfold CryptoRuntime.syncLoop
  refine (List.foldlRecOn
    (motive := fun entries => Sound retired { t with entries := entries } ∧ SharedKept t entries)
    _ _ ⟨sound, sharedKept_refl⟩ ?_).1
  rintro entries ⟨soundNow, kept⟩ ⟨pi, j⟩ listed
  dsimp only
  cases isPolicy : cfg.policies[pi]? with
  | none => exact ⟨soundNow, kept⟩
  | some cp =>
    by_cases encrypts : cp.isEncrypt = true
    · simp only [if_pos encrypts]
      exact soundNow.syncRound now p.id sound.agree nonzero (ok pi j cp listed isPolicy encrypts) kept
    · simp only [if_neg encrypts]
      exact ⟨soundNow, kept⟩

theorem Sound.diversified {views : ℕ → KeyView} {profileId : ℤ} (now : ℕ)
    (sound : Sound retired t) (nonzero : Nonzero retired)
    (ok : DiversifyOk retired views profileId t.entries) :
    Sound retired { t with entries := diversified now views profileId t.entries } := by
  refine sound.rewrite (owned_diversified now views profileId sound.owned)
    (funext (policyAt_mapIdx _)) (keyCopies_diversified now views profileId sound.owned) ?_ ?_
  · rw [sound.agree.rewrite_iff]
    intro i j policyId keys here there
    by_cases inI : inProfile profileId t.entries i = true
    · have alike := ok.alike i j policyId keys here there inI
      by_cases inJ : inProfile profileId t.entries j = true
      · rw [if_pos inJ] at alike
        rw [if_pos inI, if_pos inJ]
        exact refreshedKeys_congr alike keys
      · rw [if_neg inJ] at alike
        rw [if_pos inI, if_neg inJ]
        exact refreshedKeys_of_keeps alike
    · by_cases inJ : inProfile profileId t.entries j = true
      · have alike := ok.alike j i policyId keys there here inJ
        rw [if_neg inI] at alike
        rw [if_neg inI, if_pos inJ]
        exact (refreshedKeys_of_keeps alike).symm
      · rw [if_neg inI, if_neg inJ]
  · intro i policyId keys here clean
    by_cases inI : inProfile profileId t.entries i = true
    · rw [if_pos inI]
      exact refreshedKeys_clean nonzero (ok.avoids i policyId keys here inI) clean
    · rw [if_neg inI]
      exact clean

end Sound

/-- A discard wipes the only context that can hold the discarded keys. -/
theorem sound_discard {retired : List (ℤ × TrafficKey)} {t : PolicyTables} {policyId : ℤ} {k : ℕ}
    {ctx : PacketCryptoCtx} (sound : Sound retired t) (nonzero : Nonzero retired)
    (here : ctxAt t.entries k = some ctx) (named : ctx.policyId = policyId)
    (ok : ∀ i keys, keyCopies t.entries i = some (policyId, keys) →
      Shared (keyCopies t.entries) policyId → keys.prev = 0) :
    Sound retired { t with entries := t.entries.modify k (.mapCtx wipePrev) } := by
  have owner : ∀ i policyId' keys, keyCopies t.entries i = some (policyId', keys) → k = i →
      policyId' = policyId := by
    rintro i policyId' keys isCopy rfl
    obtain ⟨ctx', here', rfl, -⟩ := keyCopies_eq_some_iff.mp isCopy
    rw [← named, ← Option.some_inj.mp (here.symm.trans here')]
  refine sound.rewrite (owned_wipePrev k sound.owned) (funext (policyAt_modify k))
    (keyCopies_wipePrev k) ?_ ?_
  · refine sound.agree.rewrite_of_fixed fun i policyId' keys isCopy shared => ?_
    by_cases wiped : k = i
    · obtain rfl := owner i policyId' keys isCopy wiped
      rw [if_pos wiped, ← ok i keys isCopy shared]
    · rw [if_neg wiped]
  · intro i policyId' keys isCopy clean
    by_cases wiped : k = i
    · rw [if_pos wiped]
      exact fun listed => nonzero _ _ listed rfl
    · rw [if_neg wiped]
      exact clean

end NeEncryptor
