import NeEncryptor.Lib.Copies
import NeEncryptor.Crypto.CryptoRuntime

/-!
# The keys of the ready contexts

What the calls of `crypto_runtime.c` do to the keys of the ready contexts, seen as copies that
belong to the policies: each call rewrites copies in place, or builds a new table.
-/

namespace NeEncryptor

open Copies CryptoRuntime Pqc

/-- The ready context at an index. -/
def ctxAt (entries : List CryptoEntry) (i : ℕ) : Option PacketCryptoCtx :=
  entries[i]?.bind CryptoEntry.ctx

def policyAt (entries : List CryptoEntry) (i : ℕ) : Option CryptoPolicy :=
  entries[i]?.map CryptoEntry.policy

/-- The keys of the ready contexts and the policies they are for. -/
def keyCopies (entries : List CryptoEntry) (i : ℕ) : Option (ℤ × KeySlots TrafficKey) :=
  (ctxAt entries i).map fun ctx => (ctx.policyId, ctx.keys)

theorem keyCopies_eq_some_iff {entries : List CryptoEntry} {i : ℕ} {policyId : ℤ}
    {keys : KeySlots TrafficKey} :
    keyCopies entries i = some (policyId, keys) ↔
      ∃ ctx, ctxAt entries i = some ctx ∧ ctx.policyId = policyId ∧ ctx.keys = keys := by
  simp [keyCopies]

/-! ## One refresh -/

/-- The keys after a refresh that finds the slots `found`. -/
def refreshedKeys (found : Option (KeySlots KeySlot)) (keys : KeySlots TrafficKey) :
    KeySlots TrafficKey :=
  match found with
  | some slots => loadSlots slots
  | none => if keyNonzero keys.current then keys else ⟨0, 0, 0⟩

@[simp] theorem onKeyMaterial_keys (now : ℕ) (ctx : PacketCryptoCtx) :
    (nePqcOnKeyMaterial now ctx).keys = ctx.keys := by
  unfold nePqcOnKeyMaterial
  repeat' split
  all_goals rfl

@[simp] theorem onKeyMaterial_policyId (now : ℕ) (ctx : PacketCryptoCtx) :
    (nePqcOnKeyMaterial now ctx).policyId = ctx.policyId := by
  unfold nePqcOnKeyMaterial
  repeat' split
  all_goals rfl

@[simp] theorem onKeyMaterial_fromHandshake (now : ℕ) (ctx : PacketCryptoCtx) :
    (nePqcOnKeyMaterial now ctx).pqcFromHandshake = ctx.pqcFromHandshake := by
  unfold nePqcOnKeyMaterial
  repeat' split
  all_goals rfl

theorem refreshPqcKeys_eq {ctx : PacketCryptoCtx} (view : KeyView)
    (fed : ctx.pqcFromHandshake = true) :
    packetCryptoRefreshPqcKeys view ctx =
      { ctx with keys := refreshedKeys (view ctx.policyId) ctx.keys } := by
  rw [packetCryptoRefreshPqcKeys, if_neg (by simp [fed]), pqcLoadHandshakeSlots]
  unfold refreshedKeys
  cases view ctx.policyId with
  | some slots => rfl
  | none =>
    by_cases used : keyNonzero ctx.keys.current = true
    · simp only [Option.map_none, if_pos used]
    · simp only [Option.map_none, if_neg used, pqcClearCtxKeys]

section Refresh

variable {ctx : PacketCryptoCtx} (now : ℕ) (view : KeyView)

theorem refreshCtx_keys (fed : ctx.pqcFromHandshake = true) :
    (refreshCtx now view ctx).keys = refreshedKeys (view ctx.policyId) ctx.keys := by
  rw [refreshCtx, onKeyMaterial_keys, refreshPqcKeys_eq view fed]

theorem refreshCtx_policyId (fed : ctx.pqcFromHandshake = true) :
    (refreshCtx now view ctx).policyId = ctx.policyId := by
  rw [refreshCtx, onKeyMaterial_policyId, refreshPqcKeys_eq view fed]

theorem refreshCtx_fromHandshake (fed : ctx.pqcFromHandshake = true) :
    (refreshCtx now view ctx).pqcFromHandshake = true := by
  rw [refreshCtx, onKeyMaterial_fromHandshake, refreshPqcKeys_eq view fed, fed]

end Refresh

/-- A part of the contexts that has no ids in it: what a refresh makes of it, and what a new context
starts with. -/
structure RefreshedPart {V : Type*} (part : PacketCryptoCtx → V)
    (refreshed : ℕ → Option (KeySlots KeySlot) → V → V) (zero : V) : Prop where
  ids : ∀ (ctx : PacketCryptoCtx) (fed : Bool) (policyId profileId : ℤ) (wireId : UInt8),
    part { ctx with
      pqcFromHandshake := fed
      policyId := policyId
      profileId := profileId
      wireId := wireId } = part ctx
  refresh : ∀ (ctx : PacketCryptoCtx) (now : ℕ) (view : KeyView), ctx.pqcFromHandshake = true →
    part (refreshCtx now view ctx) = refreshed now (view ctx.policyId) (part ctx)
  /-- A second refresh that finds the same changes nothing. -/
  again : ∀ now found v, refreshed now found (refreshed now found v) = refreshed now found v
  new : part { PacketCryptoCtx.zero with initialized := true } = zero

/-- The parts of the ready contexts and the policies they are for. -/
def partCopies {V : Type*} (part : PacketCryptoCtx → V) (entries : List CryptoEntry) (i : ℕ) :
    Option (ℤ × V) :=
  (ctxAt entries i).map fun ctx => (ctx.policyId, part ctx)

/-- A second refresh that finds the same changes nothing. -/
theorem refreshedKeys_idem (found : Option (KeySlots KeySlot)) (keys : KeySlots TrafficKey) :
    refreshedKeys found (refreshedKeys found keys) = refreshedKeys found keys := by
  cases found with
  | some slots => rfl
  | none =>
    by_cases used : keyNonzero keys.current = true
    · simp [refreshedKeys, used]
    · simp [refreshedKeys, used]

/-- The keys are such a part. -/
theorem refreshedPart_keys :
    RefreshedPart PacketCryptoCtx.keys (fun _ => refreshedKeys) ⟨0, 0, 0⟩ where
  ids := fun _ _ _ _ _ => rfl
  refresh := fun _ now view fed => refreshCtx_keys now view fed
  again := fun _ => refreshedKeys_idem
  new := rfl

/-! ## Tables -/

/-- A context is ready exactly for an encrypt policy, and the handshake of its policy feeds it. -/
structure CryptoEntry.Owned (e : CryptoEntry) : Prop where
  ready : e.ctx.isSome = e.policy.isEncrypt
  owner : ∀ ctx, e.ctx = some ctx → ctx.policyId = e.policy.dbId
  fed : ∀ ctx, e.ctx = some ctx → ctx.pqcFromHandshake = true

def Owned (entries : List CryptoEntry) : Prop :=
  ∀ (i : ℕ) (e : CryptoEntry), entries[i]? = some e → e.Owned

theorem CryptoEntry.Owned.mapCtx {e : CryptoEntry} {f : PacketCryptoCtx → PacketCryptoCtx}
    (owned : e.Owned)
    (kept : ∀ ctx, e.ctx = some ctx →
      (f ctx).policyId = e.policy.dbId ∧ (f ctx).pqcFromHandshake = true) :
    (e.mapCtx f).Owned := by
  constructor
  · simp only [CryptoEntry.mapCtx, Option.isSome_map, owned.ready]
  · intro _ here
    obtain ⟨ctx, was, rfl⟩ := Option.map_eq_some_iff.mp here
    exact (kept ctx was).1
  · intro _ here
    obtain ⟨ctx, was, rfl⟩ := Option.map_eq_some_iff.mp here
    exact (kept ctx was).2

section Writes

variable {entries : List CryptoEntry} {f : PacketCryptoCtx → PacketCryptoCtx}

theorem ctxAt_modify (k i : ℕ) :
    ctxAt (entries.modify k (.mapCtx f)) i =
      if k = i then (ctxAt entries i).map f else ctxAt entries i := by
  rw [ctxAt, ctxAt, List.getElem?_modify]
  cases entries[i]? with
  | none => simp
  | some e =>
    by_cases same : k = i
    · simp [same, CryptoEntry.mapCtx]
    · simp [same]

theorem policyAt_modify (k i : ℕ) :
    policyAt (entries.modify k (.mapCtx f)) i = policyAt entries i := by
  rw [policyAt, policyAt, List.getElem?_modify]
  cases entries[i]? with
  | none => rfl
  | some e =>
    by_cases same : k = i
    · simp [same, CryptoEntry.mapCtx]
    · simp [same]

theorem Owned.modify (owned : Owned entries) {k : ℕ}
    (kept : ∀ e, entries[k]? = some e → ∀ ctx, e.ctx = some ctx →
      (f ctx).policyId = e.policy.dbId ∧ (f ctx).pqcFromHandshake = true) :
    Owned (entries.modify k (.mapCtx f)) := by
  intro i e here
  rw [List.getElem?_modify] at here
  obtain ⟨e', was, rfl⟩ := Option.map_eq_some_iff.mp here
  by_cases same : k = i
  · subst same
    simp only [if_pos]
    exact (owned k e' was).mapCtx (kept e' was)
  · simp only [if_neg same]
    exact owned i e' was

theorem ctxAt_mapIdx (g : ℕ → PacketCryptoCtx → PacketCryptoCtx) (i : ℕ) :
    ctxAt (entries.mapIdx fun i => .mapCtx (g i)) i = (ctxAt entries i).map (g i) := by
  rw [ctxAt, ctxAt, List.getElem?_mapIdx]
  cases entries[i]? <;> rfl

theorem policyAt_mapIdx (g : ℕ → PacketCryptoCtx → PacketCryptoCtx) (i : ℕ) :
    policyAt (entries.mapIdx fun i => .mapCtx (g i)) i = policyAt entries i := by
  rw [policyAt, policyAt, List.getElem?_mapIdx]
  cases entries[i]? <;> rfl

/-- The ready context at an index belongs to the policy there. -/
theorem Owned.at_index (owned : Owned entries) {i : ℕ} {ctx : PacketCryptoCtx}
    (here : ctxAt entries i = some ctx) :
    ∃ cp, policyAt entries i = some cp ∧ ctx.policyId = cp.dbId ∧ ctx.pqcFromHandshake = true := by
  obtain ⟨e, isEntry, isCtx⟩ := Option.bind_eq_some_iff.mp here
  have ownedEntry := owned i e isEntry
  exact ⟨e.policy, by rw [policyAt, isEntry]; rfl, ownedEntry.owner ctx isCtx,
    ownedEntry.fed ctx isCtx⟩

end Writes

/-! ## The calls -/

section Calls

variable {entries : List CryptoEntry}
variable {V : Type*} {part : PacketCryptoCtx → V}
  {refreshed : ℕ → Option (KeySlots KeySlot) → V → V} {zero : V}

/-- The entry a round of the synchronisation refreshes. -/
def syncTarget (cp : CryptoPolicy) (entries : List CryptoEntry) : Option ℕ :=
  entries.findIdx? fun e => e.policy.dbId == cp.dbId

theorem syncTarget_named {cp : CryptoPolicy} {k : ℕ} (target : syncTarget cp entries = some k) :
    ∃ e, entries[k]? = some e ∧ e.policy.dbId = cp.dbId := by
  obtain ⟨inside, named, -⟩ := List.findIdx?_eq_some_iff_getElem.mp target
  exact ⟨entries[k], List.getElem?_eq_getElem inside, by simpa using named⟩

theorem partCopies_syncRound (isPart : RefreshedPart part refreshed zero) (now : ℕ)
    (view : KeyView) (profileId : ℤ) (cp : CryptoPolicy) (owned : Owned entries) :
    partCopies part (syncRound now view profileId cp entries) =
      rewrite (fun i policyId v =>
        if syncTarget cp entries = some i then refreshed now (view policyId) v else v)
        (partCopies part entries) := by
  unfold syncRound syncTarget
  cases target : entries.findIdx? fun e => e.policy.dbId == cp.dbId with
  | none =>
    rw [rewrite_eq_self]
    intro i policyId v _
    simp
  | some k =>
    funext i
    rw [partCopies, ctxAt_modify, rewrite, partCopies]
    cases here : ctxAt entries i with
    | none => simp
    | some ctx =>
      by_cases same : k = i
      · subst same
        obtain ⟨cp', isPolicy, isOwner, fed⟩ := owned.at_index here
        obtain ⟨e, isEntry, isNamed⟩ := syncTarget_named target
        have named : cp'.dbId = cp.dbId := by
          rw [policyAt, isEntry, Option.map_some, Option.some_inj] at isPolicy
          rw [← isPolicy, isNamed]
        have stamped : (stampCtx profileId cp ctx).pqcFromHandshake = true := fed
        simp only [if_pos, Option.map_some, Option.some_inj, Prod.mk.injEq]
        rw [isPart.refresh _ _ _ stamped, refreshCtx_policyId _ _ stamped, isOwner, named]
        exact ⟨rfl, congrArg _ (isPart.ids ctx ctx.pqcFromHandshake _ _ _)⟩
      · simp [same]

theorem keyCopies_syncRound (now : ℕ) (view : KeyView) (profileId : ℤ) (cp : CryptoPolicy)
    (owned : Owned entries) :
    keyCopies (syncRound now view profileId cp entries) =
      rewrite (fun i policyId keys =>
        if syncTarget cp entries = some i then refreshedKeys (view policyId) keys else keys)
        (keyCopies entries) :=
  partCopies_syncRound refreshedPart_keys now view profileId cp owned

theorem owned_syncRound (owned : Owned entries) (now : ℕ) (view : KeyView) (profileId : ℤ)
    (cp : CryptoPolicy) : Owned (syncRound now view profileId cp entries) := by
  unfold syncRound
  cases target : entries.findIdx? fun e => e.policy.dbId == cp.dbId with
  | none => exact owned
  | some k =>
    refine owned.modify fun e isEntry ctx isCtx => ?_
    obtain ⟨inside, named, -⟩ := List.findIdx?_eq_some_iff_getElem.mp target
    have fed : ctx.pqcFromHandshake = true := (owned k e isEntry).fed ctx isCtx
    rw [List.getElem?_eq_getElem inside, Option.some_inj] at isEntry
    rw [isEntry, beq_iff_eq] at named
    have stamped : (stampCtx profileId cp ctx).pqcFromHandshake = true := fed
    rw [refreshCtx_policyId _ _ stamped, refreshCtx_fromHandshake _ _ stamped]
    exact ⟨named.symm, rfl⟩

theorem policyAt_syncRound (now : ℕ) (view : KeyView) (profileId : ℤ) (cp : CryptoPolicy)
    (i : ℕ) : policyAt (syncRound now view profileId cp entries) i = policyAt entries i := by
  unfold syncRound
  split
  · rfl
  · exact policyAt_modify _ i

theorem syncTarget_owner {cp : CryptoPolicy} {k : ℕ} {policyId : ℤ} {keys : KeySlots TrafficKey}
    (owned : Owned entries) (target : syncTarget cp entries = some k)
    (here : keyCopies entries k = some (policyId, keys)) : policyId = cp.dbId := by
  obtain ⟨e, isEntry, named⟩ := syncTarget_named target
  obtain ⟨ctx, isCtx, rfl, -⟩ := keyCopies_eq_some_iff.mp here
  obtain ⟨cp', isPolicy, isOwner, -⟩ := owned.at_index isCtx
  rw [policyAt, isEntry, Option.map_some, Option.some_inj] at isPolicy
  rw [isOwner, ← isPolicy, named]

theorem syncTarget_congr {entries entries' : List CryptoEntry}
    (same : policyAt entries' = policyAt entries) (cp : CryptoPolicy) :
    syncTarget cp entries' = syncTarget cp entries := by
  have policies : entries'.map CryptoEntry.policy = entries.map CryptoEntry.policy := by
    refine List.ext_getElem? fun i => ?_
    rw [List.getElem?_map, List.getElem?_map]
    exact congrFun same i
  have byPolicies : ∀ es : List CryptoEntry, syncTarget cp es =
      (es.map CryptoEntry.policy).findIdx? (·.dbId == cp.dbId) := by
    intro es
    rw [List.findIdx?_map]
    rfl
  rw [byPolicies, byPolicies, policies]

/-- A round of the synchronisation for policy index `pi` refreshes the context at `i`. -/
def roundRefreshes (cfg : AppConfig) (entries : List CryptoEntry) (i pi : ℕ) : Bool :=
  cfg.policies[pi]?.any fun cp => cp.isEncrypt && syncTarget cp entries == some i

/-- The rounds that find `view` all the time refresh the contexts they reach, and no other. -/
theorem partCopies_syncRounds (isPart : RefreshedPart part refreshed zero) {cfg : AppConfig}
    {now : ℕ} {view : KeyView} {profileId : ℤ} (rounds : List (ℕ × ℕ)) (entries : List CryptoEntry)
    (owned : Owned entries) :
    partCopies part (rounds.foldl (fun entries (pi, _) =>
      match cfg.policies[pi]? with
      | some cp => if cp.isEncrypt then syncRound now view profileId cp entries else entries
      | none => entries) entries) =
      rewrite (fun i policyId v =>
        if rounds.any fun x => roundRefreshes cfg entries i x.1 then
          refreshed now (view policyId) v
        else v) (partCopies part entries) := by
  induction rounds generalizing entries with
  | nil =>
    rw [rewrite_eq_self]
    · rfl
    · intro i policyId v _
      rfl
  | cons x rounds ih =>
    obtain ⟨pi, j⟩ := x
    rw [List.foldl_cons]
    dsimp only
    cases isPolicy : cfg.policies[pi]? with
    | none =>
      simp only [List.any_cons, roundRefreshes, isPolicy, Option.any_none, Bool.false_or]
      exact ih entries owned
    | some cp =>
      by_cases encrypts : cp.isEncrypt = true
      swap
      · simp only [List.any_cons, roundRefreshes, isPolicy, Option.any_some, encrypts,
          Bool.false_and, Bool.false_or]
        exact ih entries owned
      have same : policyAt (syncRound now view profileId cp entries) = policyAt entries :=
        funext (policyAt_syncRound now view profileId cp)
      have reached : ∀ i pi', roundRefreshes cfg (syncRound now view profileId cp entries) i pi' =
          roundRefreshes cfg entries i pi' := by
        intro i pi'
        simp only [roundRefreshes, syncTarget_congr same]
      simp only [if_pos encrypts]
      rw [ih _ (owned_syncRound owned now view profileId cp),
        partCopies_syncRound isPart now view profileId cp owned, rewrite_rewrite]
      congr 1
      funext i policyId v
      simp only [reached, List.any_cons]
      simp only [roundRefreshes, isPolicy, Option.any_some, encrypts, Bool.true_and,
        Bool.or_eq_true, beq_iff_eq]
      by_cases target : syncTarget cp entries = some i
      · simp only [target, if_pos, true_or, isPart.again, ite_self]
      · simp only [target, if_false, false_or]

theorem keyCopies_syncRounds {cfg : AppConfig} {now : ℕ} {view : KeyView} {profileId : ℤ}
    (rounds : List (ℕ × ℕ)) (entries : List CryptoEntry) (owned : Owned entries) :
    keyCopies (rounds.foldl (fun entries (pi, _) =>
      match cfg.policies[pi]? with
      | some cp => if cp.isEncrypt then syncRound now view profileId cp entries else entries
      | none => entries) entries) =
      rewrite (fun i policyId keys =>
        if rounds.any fun x => roundRefreshes cfg entries i x.1 then
          refreshedKeys (view policyId) keys
        else keys) (keyCopies entries) :=
  partCopies_syncRounds refreshedPart_keys rounds entries owned

/-- The context at the index is of the profile. -/
def inProfile (profileId : ℤ) (entries : List CryptoEntry) (i : ℕ) : Bool :=
  (ctxAt entries i).any (·.profileId == profileId)

/-- What `forwarder_pre_diversify_pqc_keys` does to the entries. -/
def diversified (now : ℕ) (views : ℕ → KeyView) (profileId : ℤ) (entries : List CryptoEntry) :
    List CryptoEntry :=
  entries.mapIdx fun i => .mapCtx fun ctx =>
    if ctx.profileId = profileId then refreshCtx now (views i) ctx else ctx

theorem partCopies_diversified (isPart : RefreshedPart part refreshed zero) (now : ℕ)
    (views : ℕ → KeyView) (profileId : ℤ) (owned : Owned entries) :
    partCopies part (diversified now views profileId entries) =
      rewrite (fun i policyId v =>
        if inProfile profileId entries i then refreshed now (views i policyId) v else v)
        (partCopies part entries) := by
  funext i
  rw [diversified, partCopies, ctxAt_mapIdx, rewrite, partCopies]
  cases here : ctxAt entries i with
  | none => rfl
  | some ctx =>
    obtain ⟨-, -, -, fed⟩ := owned.at_index here
    by_cases member : ctx.profileId = profileId
    · simp [inProfile, here, member, isPart.refresh _ _ _ fed, refreshCtx_policyId _ _ fed]
    · simp [inProfile, here, member]

theorem keyCopies_diversified (now : ℕ) (views : ℕ → KeyView) (profileId : ℤ)
    (owned : Owned entries) :
    keyCopies (diversified now views profileId entries) =
      rewrite (fun i policyId keys =>
        if inProfile profileId entries i then refreshedKeys (views i policyId) keys else keys)
        (keyCopies entries) :=
  partCopies_diversified refreshedPart_keys now views profileId owned

theorem owned_diversified (now : ℕ) (views : ℕ → KeyView) (profileId : ℤ)
    (owned : Owned entries) : Owned (diversified now views profileId entries) := by
  intro i e here
  rw [diversified, List.getElem?_mapIdx] at here
  obtain ⟨e', was, rfl⟩ := Option.map_eq_some_iff.mp here
  refine (owned i e' was).mapCtx fun ctx isCtx => ?_
  have fed := (owned i e' was).fed ctx isCtx
  rw [← (owned i e' was).owner ctx isCtx]
  split
  · exact ⟨refreshCtx_policyId _ _ fed, refreshCtx_fromHandshake _ _ fed⟩
  · exact ⟨rfl, fed⟩

theorem keyCopies_wipePrev (k : ℕ) :
    keyCopies (entries.modify k (.mapCtx wipePrev)) =
      rewrite (fun i _ keys => if k = i then { keys with prev := 0 } else keys)
        (keyCopies entries) := by
  funext i
  rw [keyCopies, ctxAt_modify, rewrite, keyCopies]
  cases ctxAt entries i with
  | none => simp
  | some ctx =>
    by_cases same : k = i
    · simp [same, wipePrev]
    · simp [same]

theorem owned_wipePrev (k : ℕ) (owned : Owned entries) :
    Owned (entries.modify k (.mapCtx wipePrev)) :=
  owned.modify fun e isEntry ctx isCtx =>
    ⟨(owned k e isEntry).owner ctx isCtx, (owned k e isEntry).fed ctx isCtx⟩

end Calls

/-! ## The rebuilt table -/

section Rebuild

/-- The entries of a reload before the profile ids are written. -/
def rebuilt (now : ℕ) (old : List CryptoEntry) (views : ℕ → KeyView)
    (policies : List CryptoPolicy) : List CryptoEntry :=
  policies.mapIdx fun i cp => rebuildEntry now old (views i) cp

/-- What a reload starts from. -/
def oldPart {V : Type*} (part : PacketCryptoCtx → V) (zero : V) (old : List CryptoEntry)
    (dbId : ℤ) : V :=
  ((oldCtx old dbId).map part).getD zero

/-- The keys a reload starts from. -/
def oldKeys (old : List CryptoEntry) (dbId : ℤ) : KeySlots TrafficKey :=
  ((oldCtx old dbId).map PacketCryptoCtx.keys).getD ⟨0, 0, 0⟩

variable {now : ℕ} {old : List CryptoEntry} {views : ℕ → KeyView} {policies : List CryptoPolicy}
variable {V : Type*} {part : PacketCryptoCtx → V}
  {refreshed : ℕ → Option (KeySlots KeySlot) → V → V} {zero : V}

theorem rebuildCtx_fields (old : List CryptoEntry) (cp : CryptoPolicy) :
    (rebuildCtx old cp).keys = oldKeys old cp.dbId ∧ (rebuildCtx old cp).policyId = cp.dbId ∧
      (rebuildCtx old cp).pqcFromHandshake = true := by
  unfold rebuildCtx oldKeys
  cases oldCtx old cp.dbId with
  | some ctx => exact ⟨rfl, rfl, rfl⟩
  | none => exact ⟨rfl, rfl, rfl⟩

theorem policyAt_rebuilt (i : ℕ) : policyAt (rebuilt now old views policies) i = policies[i]? := by
  rw [policyAt, rebuilt, List.getElem?_mapIdx]
  cases policies[i]? <;> rfl

theorem owned_rebuilt : Owned (rebuilt now old views policies) := by
  intro i e here
  rw [rebuilt, List.getElem?_mapIdx] at here
  obtain ⟨cp, -, rfl⟩ := Option.map_eq_some_iff.mp here
  obtain ⟨-, named, fed⟩ := rebuildCtx_fields old cp
  unfold rebuildEntry
  by_cases encrypts : cp.isEncrypt = true
  · rw [if_pos encrypts]
    constructor
    · simp [encrypts]
    · rintro _ ⟨⟩
      rw [refreshCtx_policyId _ _ fed, named]
    · rintro _ ⟨⟩
      exact refreshCtx_fromHandshake _ _ fed
  · rw [if_neg encrypts]
    constructor
    · simp [encrypts]
    · rintro _ ⟨⟩
    · rintro _ ⟨⟩

theorem rebuildCtx_part (isPart : RefreshedPart part refreshed zero) (cp : CryptoPolicy) :
    part (rebuildCtx old cp) = oldPart part zero old cp.dbId := by
  unfold rebuildCtx oldPart
  cases oldCtx old cp.dbId with
  | some ctx => exact isPart.ids ctx _ _ ctx.profileId _
  | none =>
    exact (isPart.ids { PacketCryptoCtx.zero with initialized := true } _ _ _ _).trans isPart.new

theorem partCopies_rebuilt (isPart : RefreshedPart part refreshed zero) (i : ℕ) :
    partCopies part (rebuilt now old views policies) i =
      policies[i]?.bind fun cp =>
        if cp.isEncrypt then
          some (cp.dbId, refreshed now (views i cp.dbId) (oldPart part zero old cp.dbId))
        else none := by
  rw [partCopies, ctxAt, rebuilt, List.getElem?_mapIdx]
  cases policies[i]? with
  | none => rfl
  | some cp =>
    obtain ⟨-, named, fed⟩ := rebuildCtx_fields old cp
    by_cases encrypts : cp.isEncrypt = true
    · simp [rebuildEntry, encrypts, isPart.refresh _ _ _ fed, refreshCtx_policyId _ _ fed, named,
        rebuildCtx_part isPart]
    · simp [rebuildEntry, encrypts]

theorem keyCopies_rebuilt (i : ℕ) :
    keyCopies (rebuilt now old views policies) i =
      policies[i]?.bind fun cp =>
        if cp.isEncrypt then
          some (cp.dbId, refreshedKeys (views i cp.dbId) (oldKeys old cp.dbId))
        else none :=
  partCopies_rebuilt refreshedPart_keys i

/-- Writing the profile ids touches no other part. -/
theorem assignProfiles_parts (isPart : RefreshedPart part refreshed zero) {cfg : AppConfig}
    {entries : List CryptoEntry} (p : ProfileConfig) (owned : Owned entries)
    (loaded : ∀ i cp, policyAt entries i = some cp → cfg.policies[i]? = some cp) :
    Owned (assignProfiles cfg p entries) ∧
      partCopies part (assignProfiles cfg p entries) = partCopies part entries ∧
      policyAt (assignProfiles cfg p entries) = policyAt entries := by
  unfold assignProfiles
  refine List.foldlRecOn (motive := fun es => Owned es ∧
    partCopies part es = partCopies part entries ∧ policyAt es = policyAt entries) _ _
      ⟨owned, rfl, rfl⟩ ?_
  rintro es ⟨ownedNow, sameKeys, samePolicies⟩ k -
  cases isPolicy : cfg.policies[k]? with
  | none => exact ⟨ownedNow, sameKeys, samePolicies⟩
  | some cp =>
    by_cases encrypts : cp.isEncrypt = true
    swap
    · simp only [if_neg encrypts]
      exact ⟨ownedNow, sameKeys, samePolicies⟩
    simp only [if_pos encrypts]
    have named : ∀ cp', policyAt es k = some cp' → cp'.dbId = cp.dbId := by
      intro cp' here
      rw [samePolicies] at here
      rw [loaded k cp' here, Option.some_inj] at isPolicy
      rw [isPolicy]
    refine ⟨ownedNow.modify fun e isEntry ctx isCtx => ?_, ?_, ?_⟩
    · have here : policyAt es k = some e.policy := by rw [policyAt, isEntry]; rfl
      exact ⟨(named e.policy here).symm, (ownedNow k e isEntry).fed ctx isCtx⟩
    · rw [← sameKeys]
      funext i
      rw [partCopies, ctxAt_modify, partCopies]
      by_cases same : k = i
      · subst same
        cases here : ctxAt es k with
        | none => simp
        | some ctx =>
          obtain ⟨cp', isPolicy', isOwner, -⟩ := ownedNow.at_index here
          have samePart : part (assignProfile p.id cp.dbId ctx) = part ctx :=
            isPart.ids ctx ctx.pqcFromHandshake cp.dbId p.id ctx.wireId
          have sameId : (assignProfile p.id cp.dbId ctx).policyId = ctx.policyId := by
            rw [isOwner, named cp' isPolicy']
            rfl
          simp [samePart, sameId]
      · rw [if_neg same]
    · rw [← samePolicies]
      funext i
      exact policyAt_modify k i

theorem assignProfiles_keeps {cfg : AppConfig} {entries : List CryptoEntry} (p : ProfileConfig)
    (owned : Owned entries)
    (loaded : ∀ i cp, policyAt entries i = some cp → cfg.policies[i]? = some cp) :
    Owned (assignProfiles cfg p entries) ∧
      keyCopies (assignProfiles cfg p entries) = keyCopies entries ∧
      policyAt (assignProfiles cfg p entries) = policyAt entries :=
  assignProfiles_parts refreshedPart_keys p owned loaded

/-- The keys a reload starts from are a copy of the policy, or no keys at all. -/
theorem oldKeys_cases (owned : Owned old) (dbId : ℤ) :
    oldKeys old dbId = ⟨0, 0, 0⟩ ∨ ∃ i, keyCopies old i = some (dbId, oldKeys old dbId) := by
  unfold oldKeys
  cases found : oldCtx old dbId with
  | none => exact .inl rfl
  | some ctx =>
    right
    obtain ⟨e, isEntry, isCtx⟩ := List.exists_of_findSome?_eq_some found
    obtain ⟨i, here⟩ := List.mem_iff_getElem?.mp isEntry
    by_cases named : e.policy.dbId = dbId
    · rw [if_pos named] at isCtx
      refine ⟨i, keyCopies_eq_some_iff.mpr ⟨ctx, ?_, ?_, rfl⟩⟩
      · rw [ctxAt, here]
        exact isCtx
      · rw [(owned i e here).owner ctx isCtx, named]
    · rw [if_neg named] at isCtx
      cases isCtx

/-- The entries that `fwd_crypto_rebuild` leaves. -/
theorem rebuild_parts (isPart : RefreshedPart part refreshed zero) {n : ℕ} {cfg : AppConfig}
    (rt : CryptoRuntime n) (enabled : cfg.cryptoEnabled = true) :
    Owned (rt.fwdCryptoRebuild now views cfg).active.entries ∧
      partCopies part (rt.fwdCryptoRebuild now views cfg).active.entries =
        partCopies part
          (rebuilt now rt.active.entries views (cfg.policies.take maxCryptoPolicies)) := by
  unfold fwdCryptoRebuild
  rw [if_neg (by simp [enabled])]
  cases profiles : cfg.profiles with
  | nil => exact ⟨owned_rebuilt, rfl⟩
  | cons p rest =>
    have loaded : ∀ i cp, policyAt (rebuilt now rt.active.entries views
        (cfg.policies.take maxCryptoPolicies)) i = some cp → cfg.policies[i]? = some cp := by
      intro i cp here
      rw [policyAt_rebuilt, List.getElem?_take] at here
      split at here
      · exact here
      · cases here
    obtain ⟨owned, same, -⟩ := assignProfiles_parts isPart p owned_rebuilt loaded
    exact ⟨owned, same⟩

theorem rebuild_entries {n : ℕ} {cfg : AppConfig} (rt : CryptoRuntime n)
    (enabled : cfg.cryptoEnabled = true) :
    Owned (rt.fwdCryptoRebuild now views cfg).active.entries ∧
      keyCopies (rt.fwdCryptoRebuild now views cfg).active.entries =
        keyCopies (rebuilt now rt.active.entries views (cfg.policies.take maxCryptoPolicies)) :=
  rebuild_parts refreshedPart_keys rt enabled

end Rebuild

end NeEncryptor
