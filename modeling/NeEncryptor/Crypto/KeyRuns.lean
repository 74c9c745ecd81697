import NeEncryptor.Lib.Transition
import NeEncryptor.Crypto.KeyCopies

/-!
# Runs of the key calls

Runs of the calls that write packet contexts, with any change of the bindings between and inside the
calls, and the condition under which a call treats the contexts of a policy alike.
-/

namespace NeEncryptor

open Copies CryptoRuntime Pqc Transition

/-! ## Runs -/

/-- A call of `crypto_runtime.c`; `views` are the bindings that its refreshes find. -/
inductive KeyCall (n : ℕ)
  | rebuild (now : ℕ) (views : ℕ → KeyView) (cfg : AppConfig)
  | snapshot (now grace : ℕ)
  | sync (now : ℕ) (views : ℕ → KeyView) (cfg : AppConfig)
  | diversify (now : ℕ) (views : ℕ → KeyView) (profileId : ℤ)
  | discard (policyId : ℤ)
  | syncWorker (w : Fin n)

variable {n : ℕ}

def KeyCall.run (rt : CryptoRuntime n) : KeyCall n → CryptoRuntime n
  | .rebuild now views cfg => rt.fwdCryptoRebuild now views cfg
  | .snapshot now grace => rt.fwdCryptoSnapshotActiveToPrev now grace
  | .sync now views cfg => rt.fwdCryptoSyncPqcSessionKeys now views cfg
  | .diversify now views profileId => rt.forwarderPreDiversifyPqcKeys now views profileId
  | .discard policyId => (rt.fwdCryptoDiscardPqcPrevKey policyId).1
  | .syncWorker w => rt.policyCryptoSyncWorker w

/-- The runtime with its history. -/
structure KeyRun (n : ℕ) where
  rt : CryptoRuntime n
  /-- How often a generation was published. -/
  published : ℕ
  /-- The value of `published` when the worker synchronised last. -/
  seen : Fin n → Option ℕ
  /-- The PREV keys that were discarded, with their policies. -/
  retired : List (ℤ × TrafficKey)

namespace KeyRun

def initial : KeyRun n := ⟨.initial, 0, fun _ => none, []⟩

/-- The PREV keys that ready contexts of the policy hold. -/
def prevKeys (policyId : ℤ) (entries : List CryptoEntry) : List (ℤ × TrafficKey) :=
  (entries.filterMap CryptoEntry.ctx).filterMap fun ctx =>
    if ctx.policyId = policyId ∧ ctx.keys.prev ≠ 0 then some (policyId, ctx.keys.prev) else none

/-- The counter moves with the generation. -/
def counted (r : KeyRun n) (rt : CryptoRuntime n) : ℕ :=
  if rt.generation = r.rt.generation then r.published else r.published + 1

def next (r : KeyRun n) (call : KeyCall n) : KeyRun n where
  rt := call.run r.rt
  published := counted r (call.run r.rt)
  seen := match call with
    | .syncWorker w => Function.update r.seen w (some r.published)
    | _ => r.seen
  retired := match call with
    | .discard policyId => prevKeys policyId r.rt.active.entries ++ r.retired
    | _ => r.retired

def step (r : KeyRun n) (call : KeyCall n) : Option (KeyRun n) := some (r.next call)

/-- The tables that packets are served from: the main one, and the copies of the workers that have
synchronised since the last publication. -/
def Served (r : KeyRun n) (entries : List CryptoEntry) : Prop :=
  entries = r.rt.active.entries ∨
    ∃ w, r.seen w = some r.published ∧ entries = (r.rt.workers w).entries

/-- The copies of a policy's keys agree, whichever entry encrypts or decrypts, and no context accepts
a discarded key. -/
structure KeysAgree (r : KeyRun n) : Prop where
  agree : ∀ t t' i j policyId keys keys', r.Served t → r.Served t' →
    keyCopies t i = some (policyId, keys) → keyCopies t' j = some (policyId, keys') → keys = keys'
  decrypts : ∀ t i cp ctx wireId, r.Served t → policyAt t i = some cp → ctxAt t i = some ctx →
    wireSlot cp = some wireId →
    ∃ j ctx', r.rt.active.policyIndexByWireId wireId = some j ∧ ctxAt t j = some ctx' ∧
      ctx'.policyId = ctx.policyId ∧ ctx'.keys = ctx.keys
  discarded : ∀ t i policyId keys, r.Served t → keyCopies t i = some (policyId, keys) →
    (policyId, keys.prev) ∉ r.retired

end KeyRun

/-! ## The condition of a call -/

/-- A refresh that finds `found` leaves the keys as they are. -/
def KeepsKeys (found : Option (KeySlots KeySlot)) (keys : KeySlots TrafficKey) : Prop :=
  found.map loadSlots = some keys ∨ (found = none ∧ (keys.current ≠ 0 ∨ keys = ⟨0, 0, 0⟩))

/-- A refresh does not find a discarded key in PREV. -/
def AvoidsRetired (retired : List (ℤ × TrafficKey)) (policyId : ℤ)
    (found : Option (KeySlots KeySlot)) : Prop :=
  ∀ slots, found = some slots → (policyId, loadSlot slots.prev) ∉ retired

/-- The encrypt policies of one row find the same keys; different rows have different wire ids. -/
structure RebuildOk (retired : List (ℤ × TrafficKey)) (views : ℕ → KeyView)
    (policies : List CryptoPolicy) : Prop where
  alike : ∀ i j cp cp', policies[i]? = some cp → policies[j]? = some cp' → cp.isEncrypt = true →
    cp'.isEncrypt = true → cp.dbId = cp'.dbId →
    (views i cp.dbId).map loadSlots = (views j cp.dbId).map loadSlots
  avoids : ∀ i cp, policies[i]? = some cp → cp.isEncrypt = true →
    AvoidsRetired retired cp.dbId (views i cp.dbId)
  wires : ∀ cp ∈ policies, ∀ cp' ∈ policies, cp.isEncrypt = true → cp'.isEncrypt = true →
    (wireSlot cp).isSome = true → wireSlot cp = wireSlot cp' → cp.dbId = cp'.dbId

/-- A refresh that reaches one context of a policy with several keeps their keys. -/
def RefreshOk (retired : List (ℤ × TrafficKey)) (entries : List CryptoEntry) (policyId : ℤ)
    (found : Option (KeySlots KeySlot)) : Prop :=
  ∀ i keys, keyCopies entries i = some (policyId, keys) →
    AvoidsRetired retired policyId found ∧
      (Shared (keyCopies entries) policyId → KeepsKeys found keys)

/-- The contexts of a policy are refreshed alike. -/
structure DiversifyOk (retired : List (ℤ × TrafficKey)) (views : ℕ → KeyView) (profileId : ℤ)
    (entries : List CryptoEntry) : Prop where
  alike : ∀ i j policyId keys, keyCopies entries i = some (policyId, keys) →
    keyCopies entries j = some (policyId, keys) → inProfile profileId entries i = true →
    if inProfile profileId entries j then
      (views i policyId).map loadSlots = (views j policyId).map loadSlots
    else KeepsKeys (views i policyId) keys
  avoids : ∀ i policyId keys, keyCopies entries i = some (policyId, keys) →
    inProfile profileId entries i = true → AvoidsRetired retired policyId (views i policyId)

/-- The condition under which a call keeps the copies in agreement. -/
def KeyCall.Ok (r : KeyRun n) : KeyCall n → Prop
  | .rebuild _ views cfg =>
    cfg.cryptoEnabled = true → RebuildOk r.retired views (cfg.policies.take maxCryptoPolicies)
  | .snapshot _ _ => True
  | .sync _ views cfg =>
    cfg.cryptoEnabled = true → ∀ p rest, cfg.profiles = p :: rest →
      ∀ pi j cp, (pi, j) ∈ p.policyIndices.zipIdx → cfg.policies[pi]? = some cp →
        cp.isEncrypt = true →
        RefreshOk r.retired r.rt.active.entries cp.dbId (views j cp.dbId)
  | .diversify _ views profileId => DiversifyOk r.retired views profileId r.rt.active.entries
  | .discard policyId =>
    ∀ i keys, keyCopies r.rt.active.entries i = some (policyId, keys) →
      Shared (keyCopies r.rt.active.entries) policyId → keys.prev = 0
  | .syncWorker w => ∀ m, r.seen w = some m → (r.published - m) % 2 ^ 32 = 0 → m = r.published

end NeEncryptor
