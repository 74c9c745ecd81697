import Mathlib.Logic.Function.Basic
import NeEncryptor.Db.Config
import NeEncryptor.Pqc.Binding

/-!
# Crypto runtime

The packet contexts of the loaded policies (`crypto_runtime.c`): how a reload, a handshake and the
periodic synchronisation refresh them from the bindings, and how the workers copy them.  The bindings
are a parameter here: every refresh may find another state of them.
-/

namespace NeEncryptor

open Pqc

/-- What `sig_pqc_get_keys` returns for each policy id; `none` is `-ENOENT`. -/
abbrev KeyView := ℤ → Option (KeySlots KeySlot)

/-- What a context takes over from a slot. -/
def loadSlot (s : KeySlot) : TrafficKey := if s.valid then s.key else 0

def loadSlots (slots : KeySlots KeySlot) : KeySlots TrafficKey :=
  ⟨loadSlot slots.prev, loadSlot slots.current, loadSlot slots.next⟩

/-- `pqc_load_handshake_slots`. -/
def pqcLoadHandshakeSlots (view : KeyView) (ctx : PacketCryptoCtx) : Option PacketCryptoCtx :=
  (view ctx.policyId).map fun slots => { ctx with keys := loadSlots slots }

/-- `pqc_clear_ctx_keys`. -/
def pqcClearCtxKeys (ctx : PacketCryptoCtx) : PacketCryptoCtx := { ctx with keys := ⟨0, 0, 0⟩ }

/-- `packet_crypto_refresh_pqc_keys`: without a binding, a context in use keeps its keys. -/
def packetCryptoRefreshPqcKeys (view : KeyView) (ctx : PacketCryptoCtx) : PacketCryptoCtx :=
  if !ctx.pqcFromHandshake then ctx
  else
    match pqcLoadHandshakeSlots view ctx with
    | some ctx => ctx
    | none => if keyNonzero ctx.keys.current then ctx else pqcClearCtxKeys ctx

/-- `ne_pqc_on_key_material`: the lifetime clock starts when CURRENT changes. -/
def nePqcOnKeyMaterial (now : ℕ) (ctx : PacketCryptoCtx) : PacketCryptoCtx :=
  if !ctx.pqcFromHandshake then ctx
  else if !keyNonzero ctx.keys.current then
    { ctx with pqcKeyInUseMs := 0, pqcRekeySent := false, pqcTimedKey := 0 }
  else if ctx.keys.current = ctx.pqcTimedKey then ctx
  else { ctx with pqcTimedKey := ctx.keys.current, pqcKeyInUseMs := now, pqcRekeySent := false }

/-- An index of `active_policies`, `policy_crypto_ready` and `policy_crypto_ctx`: the context is there
when it is ready. -/
structure CryptoEntry where
  policy : CryptoPolicy
  ctx : Option PacketCryptoCtx
  deriving DecidableEq, Repr

/-- Writes to the context of an entry. -/
def CryptoEntry.mapCtx (f : PacketCryptoCtx → PacketCryptoCtx) (e : CryptoEntry) : CryptoEntry :=
  { e with ctx := e.ctx.map f }

/-- The tables that a reload replaces as a whole. -/
structure PolicyTables where
  /-- The first `active_policy_count` entries. -/
  entries : List CryptoEntry
  policyIndexByWireId : BitVec 8 → Option ℕ
  policyProfileIdByWireId : BitVec 8 → ℤ

def PolicyTables.empty : PolicyTables := ⟨[], fun _ => none, fun _ => -1⟩

/-- The private copies of a crypto worker; `none` stands for a thread that never synchronised. -/
structure WorkerCopy where
  entries : List CryptoEntry
  prevEntries : List CryptoEntry
  generation : Option (BitVec 32)

/-- The state of `crypto_runtime.c` with `n` crypto workers. -/
structure CryptoRuntime (n : ℕ) where
  active : PolicyTables
  prev : PolicyTables
  prevGraceActive : Bool
  prevGraceUntilMs : ℕ
  generation : BitVec 32
  workers : Fin n → WorkerCopy

variable {n : ℕ}

/-- The state before the first `fwd_crypto_rebuild`. -/
def CryptoRuntime.initial : CryptoRuntime n where
  active := .empty
  prev := .empty
  prevGraceActive := false
  prevGraceUntilMs := 0
  generation := 1
  workers := fun _ => ⟨[], [], none⟩

/-- A refresh with the bookkeeping of the lifetime clock. -/
def refreshCtx (now : ℕ) (view : KeyView) (ctx : PacketCryptoCtx) : PacketCryptoCtx :=
  nePqcOnKeyMaterial now (packetCryptoRefreshPqcKeys view ctx)

/-- The context an entry of policy `dbId` had before the reload. -/
def oldCtx (old : List CryptoEntry) (dbId : ℤ) : Option PacketCryptoCtx :=
  old.findSome? fun e => if e.policy.dbId = dbId then e.ctx else none

/-- The context of an encrypt policy before its first refresh in `fwd_crypto_rebuild`. -/
def rebuildCtx (old : List CryptoEntry) (cp : CryptoPolicy) : PacketCryptoCtx :=
  match oldCtx old cp.dbId with
  | some ctx =>
    { ctx with pqcFromHandshake := true, wireId := .ofInt cp.id, policyId := cp.dbId }
  | none =>
    { PacketCryptoCtx.zero with
      initialized := true
      policyId := cp.dbId
      wireId := .ofInt cp.id
      pqcFromHandshake := true }

/-- One round of the loop of `fwd_crypto_rebuild`. -/
def rebuildEntry (now : ℕ) (old : List CryptoEntry) (view : KeyView) (cp : CryptoPolicy) :
    CryptoEntry :=
  ⟨cp, if cp.isEncrypt then some (refreshCtx now view (rebuildCtx old cp)) else none⟩

/-- The slot of a wire id table. -/
def wireSlot (cp : CryptoPolicy) : Option (BitVec 8) :=
  if 0 ≤ cp.id ∧ cp.id ≤ 255 then some (BitVec.ofInt 8 cp.id) else none

/-- `policy_index_by_wire_id`: a later policy of the same wire id wins. -/
def indexByWireId (policies : List CryptoPolicy) (wireId : BitVec 8) : Option ℕ :=
  policies.zipIdx.foldl
    (fun found (cp, i) =>
      if cp.isEncrypt && wireSlot cp == some wireId then some i else found) none

/-- `policy_profile_id_by_wire_id`. -/
def profileIdByWireId (profileId : ℤ) (policies : List CryptoPolicy) (wireId : BitVec 8) : ℤ :=
  if policies.any fun cp => cp.isEncrypt && wireSlot cp == some wireId then profileId else -1

/-- The profile id and the policy id that the end of `fwd_crypto_rebuild` writes. -/
def assignProfile (profileId dbId : ℤ) (ctx : PacketCryptoCtx) : PacketCryptoCtx :=
  { ctx with profileId := profileId, policyId := dbId }

def assignProfiles (cfg : AppConfig) (p : ProfileConfig) (entries : List CryptoEntry) :
    List CryptoEntry :=
  p.policyIndices.foldl
    (fun entries pi =>
      match cfg.policies[pi]? with
      | some cp =>
        if cp.isEncrypt then entries.modify pi (.mapCtx (assignProfile p.id cp.dbId)) else entries
      | none => entries) entries

namespace CryptoRuntime

/-- `policy_crypto_publish_unlock`. -/
def publish (rt : CryptoRuntime n) : CryptoRuntime n := { rt with generation := rt.generation + 1 }

/-- `fwd_crypto_rebuild`; `views i` is what the refresh of entry `i` finds. -/
def fwdCryptoRebuild (now : ℕ) (views : ℕ → KeyView) (cfg : AppConfig) (rt : CryptoRuntime n) :
    CryptoRuntime n :=
  if !cfg.cryptoEnabled then publish { rt with active := .empty }
  else
    let policies := cfg.policies.take maxCryptoPolicies
    let entries := policies.mapIdx fun i cp => rebuildEntry now rt.active.entries (views i) cp
    let tables : PolicyTables :=
      match cfg.profiles with
      | [] => ⟨entries, indexByWireId policies, fun _ => -1⟩
      | p :: _ => ⟨assignProfiles cfg p entries, indexByWireId policies,
          profileIdByWireId p.id (cfg.listed p)⟩
    publish { rt with active := tables }

/-- The ids that the synchronisation writes before a refresh. -/
def stampCtx (profileId : ℤ) (cp : CryptoPolicy) (ctx : PacketCryptoCtx) : PacketCryptoCtx :=
  { ctx with profileId := profileId, policyId := cp.dbId, wireId := .ofInt cp.id }

/-- The round of `fwd_crypto_sync_pqc_session_keys` for an encrypt policy `cp`. -/
def syncRound (now : ℕ) (view : KeyView) (profileId : ℤ) (cp : CryptoPolicy)
    (entries : List CryptoEntry) : List CryptoEntry :=
  match entries.findIdx? fun e => e.policy.dbId == cp.dbId with
  | none => entries
  | some i => entries.modify i (.mapCtx fun ctx => refreshCtx now view (stampCtx profileId cp ctx))

/-- The loop of `fwd_crypto_sync_pqc_session_keys`; `views j` is what round `j` finds. -/
def syncLoop (now : ℕ) (views : ℕ → KeyView) (cfg : AppConfig) (p : ProfileConfig)
    (entries : List CryptoEntry) : List CryptoEntry :=
  p.policyIndices.zipIdx.foldl
    (fun entries (pi, j) =>
      match cfg.policies[pi]? with
      | some cp => if cp.isEncrypt then syncRound now (views j) p.id cp entries else entries
      | none => entries) entries

/-- `fwd_crypto_sync_pqc_session_keys`. -/
def fwdCryptoSyncPqcSessionKeys (now : ℕ) (views : ℕ → KeyView) (cfg : AppConfig)
    (rt : CryptoRuntime n) : CryptoRuntime n :=
  if !cfg.cryptoEnabled then rt
  else
    match cfg.profiles with
    | [] => rt
    | p :: _ => publish { rt with
        active := { rt.active with entries := syncLoop now views cfg p rt.active.entries } }

/-- `forwarder_pre_diversify_pqc_keys`; `views i` is what the refresh of entry `i` finds. -/
def forwarderPreDiversifyPqcKeys (now : ℕ) (views : ℕ → KeyView) (profileId : ℤ)
    (rt : CryptoRuntime n) : CryptoRuntime n :=
  let entries := rt.active.entries.mapIdx fun i => .mapCtx fun ctx =>
    if ctx.profileId = profileId then refreshCtx now (views i) ctx else ctx
  publish { rt with active := { rt.active with entries := entries } }

def wipePrev (ctx : PacketCryptoCtx) : PacketCryptoCtx :=
  { ctx with keys := { ctx.keys with prev := 0 } }

/-- `fwd_crypto_discard_pqc_prev_key`, and whether it goes on to `sig_pqc_discard_prev_key`. -/
def fwdCryptoDiscardPqcPrevKey (policyId : ℤ) (rt : CryptoRuntime n) : CryptoRuntime n × Bool :=
  match rt.active.entries.findIdx? fun e => e.ctx.any fun ctx => ctx.policyId == policyId with
  | none => (rt, false)
  | some i =>
    if (rt.active.entries[i]?.bind CryptoEntry.ctx).any fun ctx => keyNonzero ctx.keys.prev then
      let entries := rt.active.entries.modify i (.mapCtx wipePrev)
      (publish { rt with active := { rt.active with entries := entries } }, true)
    else (rt, false)

/-- `policy_crypto_sync_worker`. -/
def policyCryptoSyncWorker (w : Fin n) (rt : CryptoRuntime n) : CryptoRuntime n :=
  if (rt.workers w).generation = some rt.generation then rt
  else
    let copy : WorkerCopy := ⟨rt.active.entries, rt.prev.entries, some rt.generation⟩
    { rt with workers := Function.update rt.workers w copy }

/-- `FWD_CRYPTO_PROFILE_RELOAD_GRACE_MS`. -/
def profileReloadGraceMs : ℕ := 3000

/-- `fwd_crypto_snapshot_active_to_prev`. -/
def fwdCryptoSnapshotActiveToPrev (now grace : ℕ) (rt : CryptoRuntime n) : CryptoRuntime n :=
  publish { rt with
    prev := rt.active
    prevGraceActive := !rt.active.entries.isEmpty
    prevGraceUntilMs := now + grace }

end CryptoRuntime

end NeEncryptor
