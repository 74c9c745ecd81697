import NeEncryptor.Lib.WrapCounter
import NeEncryptor.Crypto.PacketCrypto

/-!
# Nonces of a worker thread

`traffic_crypto.c` builds a 12-byte nonce from an 8-byte salt drawn once per thread and a `uint32_t`
packet counter.  A run of one worker thread interleaves encryptions under its packet contexts with
the copies of new contexts that a handshake, a reload or a key expiry hands to it.
-/

namespace NeEncryptor

abbrev Salt := Vector UInt8 8

abbrev Nonce := Vector UInt8 12

/-- `tls_pqc_salt`, `tls_pqc_counter` and `tls_salt_initialized`. -/
structure NonceTls where
  salt : Salt
  counter : BitVec 32
  saltInitialized : Bool
  deriving DecidableEq, Repr

/-- The thread-local state before the first call. -/
def NonceTls.initial : NonceTls := ⟨Vector.replicate 8 0, 0, false⟩

/-- The bytes of a `uint32_t` in memory, least significant first. -/
def le32 (c : BitVec 32) : Vector UInt8 4 :=
  #v[.ofNat c.toNat, .ofNat (c.toNat / 2 ^ 8), .ofNat (c.toNat / 2 ^ 16), .ofNat (c.toNat / 2 ^ 24)]

/-- `trf_pqc_generate_nonce`, where `random` is what `scrypt_RandomBytes` would yield. -/
def trfPqcGenerateNonce (random : Option Salt) (tls : NonceTls) : Option Nonce × NonceTls :=
  match if tls.saltInitialized then some tls.salt else random with
  | none => (none, tls)
  | some salt =>
    let cnt := tls.counter + 1
    (some (salt ++ le32 cnt), ⟨salt, cnt, true⟩)

/-- What one worker thread does that matters to its nonces. -/
inductive WorkerStep
  /-- An encryption under context `ctx`. -/
  | encrypt (ctx : ℕ) (random : Option Salt)
  /-- `policy_crypto_sync_worker` replaces the thread's private contexts. -/
  | syncWorker (ctxs : ℕ → PacketCryptoCtx)

/-- The pairs of key and nonce under which a run seals its packets, in order. -/
def sealedUnder (tls : NonceTls) (ctxs : ℕ → PacketCryptoCtx) :
    List WorkerStep → List (TrafficKey × Nonce)
  | [] => []
  | .syncWorker ctxs' :: steps => sealedUnder tls ctxs' steps
  | .encrypt ctx random :: steps =>
    match cryptoPqcSessLoad (ctxs ctx) with
    | none => sealedUnder tls ctxs steps
    | some key =>
      match trfPqcGenerateNonce random tls with
      | (none, tls') => sealedUnder tls' ctxs steps
      | (some nonce, tls') => (key, nonce) :: sealedUnder tls' ctxs steps

/-- The CURRENT keys of the encryptions of a run.  Until a salt has been drawn, an encryption whose
draw fails does not take place. -/
def keysInUse (saltDrawn : Bool) (ctxs : ℕ → PacketCryptoCtx) : List WorkerStep → List TrafficKey
  | [] => []
  | .syncWorker ctxs' :: steps => keysInUse saltDrawn ctxs' steps
  | .encrypt ctx random :: steps =>
    if keyNonzero (ctxs ctx).keys.current && (saltDrawn || random.isSome) then
      (ctxs ctx).keys.current :: keysInUse true ctxs steps
    else keysInUse saltDrawn ctxs steps

theorem le32_injective : Function.Injective le32 := by
  intro a b h
  simp only [le32, Vector.mk.injEq, Array.mk.injEq, List.cons.injEq, and_true,
    ← UInt8.toNat_inj, UInt8.toNat_ofNat'] at h
  obtain ⟨h0, h1, h2, h3⟩ := h
  apply BitVec.eq_of_toNat_eq
  have := a.isLt
  have := b.isLt
  omega

/-- The nonce of a counter value. -/
def nonceOf (salt : Salt) (cnt : ℕ) : Nonce := salt ++ le32 (.ofNat 32 cnt)

theorem nonceOf_eq_iff (salt : Salt) {a b : ℕ} (ha : a < 2 ^ 32) (hb : b < 2 ^ 32) :
    nonceOf salt a = nonceOf salt b ↔ a = b := by
  constructor
  · intro h
    have bytes := le32_injective (Vector.append_inj_right h)
    have := congrArg BitVec.toNat bytes
    rwa [BitVec.toNat_ofNat, BitVec.toNat_ofNat, Nat.mod_eq_of_lt ha, Nat.mod_eq_of_lt hb] at this
  · rintro rfl
    rfl

/-- Once the salt is drawn, a call always succeeds and uses the next counter value. -/
theorem generateNonce_drawn (random : Option Salt) (salt : Salt) (counter : BitVec 32) :
    trfPqcGenerateNonce random ⟨salt, counter, true⟩ =
      (some (nonceOf salt ((counter.toNat + 1) % 2 ^ 32)), ⟨salt, counter + 1, true⟩) := by
  have next : BitVec.ofNat 32 ((counter.toNat + 1) % 2 ^ 32) = counter + 1 := by
    apply BitVec.eq_of_toNat_eq
    rw [BitVec.toNat_ofNat, Nat.mod_mod, BitVec.toNat_add]
    rfl
  rw [nonceOf, next]
  rfl

/-- The call that draws the salt behaves as if the salt had been there before. -/
theorem generateNonce_draw (salt old : Salt) (counter : BitVec 32) :
    trfPqcGenerateNonce (some salt) ⟨old, counter, false⟩ =
      trfPqcGenerateNonce none ⟨salt, counter, true⟩ := rfl

/-- With the salt drawn, a run stamps the keys it uses from the 32-bit counter. -/
theorem sealedUnder_drawn (salt : Salt) (counter : BitVec 32) (ctxs : ℕ → PacketCryptoCtx)
    (steps : List WorkerStep) :
    sealedUnder ⟨salt, counter, true⟩ ctxs steps =
      (WrapCounter.stamped (2 ^ 32) counter.toNat (keysInUse true ctxs steps)).map
        fun use => (use.1, nonceOf salt use.2) := by
  induction steps generalizing counter ctxs with
  | nil => rfl
  | cons step steps ih =>
    cases step with
    | syncWorker ctxs' => exact ih counter ctxs'
    | encrypt ctx random =>
      by_cases usable : keyNonzero (ctxs ctx).keys.current = true
      · have wrapped : (counter + 1).toNat ≡ counter.toNat + 1 [MOD 2 ^ 32] := by
          rw [BitVec.toNat_add]
          exact Nat.mod_modEq _ _
        simp only [sealedUnder, keysInUse, cryptoPqcSessLoad, usable, if_true, Bool.true_or,
          Bool.and_self, generateNonce_drawn, ih, WrapCounter.stamped_congr _ wrapped,
          WrapCounter.stamped, List.map_cons]
      · simp only [sealedUnder, keysInUse, cryptoPqcSessLoad, usable, ih, Bool.false_eq_true,
          if_false, Bool.false_and]

/-- A run from the start stamps the keys it uses under one salt. -/
theorem sealedUnder_initial (ctxs : ℕ → PacketCryptoCtx) (steps : List WorkerStep) :
    ∃ salt, sealedUnder .initial ctxs steps =
      (WrapCounter.stamped (2 ^ 32) 0 (keysInUse false ctxs steps)).map
        fun use => (use.1, nonceOf salt use.2) := by
  induction steps generalizing ctxs with
  | nil => exact ⟨NonceTls.initial.salt, rfl⟩
  | cons step steps ih =>
    cases step with
    | syncWorker ctxs' => exact ih ctxs'
    | encrypt ctx random =>
      by_cases usable : keyNonzero (ctxs ctx).keys.current = true
      · cases random with
        | none =>
          obtain ⟨salt, h⟩ := ih ctxs
          refine ⟨salt, ?_⟩
          simpa [sealedUnder, keysInUse, cryptoPqcSessLoad, usable, trfPqcGenerateNonce,
            NonceTls.initial] using h
        | some salt =>
          -- The drawing call is the first stamp of a run whose salt is already there.
          refine ⟨salt, ?_⟩
          have drawn := sealedUnder_drawn salt 0 ctxs (.encrypt ctx none :: steps)
          have same : keysInUse false ctxs (.encrypt ctx (some salt) :: steps) =
              keysInUse true ctxs (.encrypt ctx none :: steps) := by
            simp [keysInUse, usable]
          rw [same]
          refine Eq.trans ?_ drawn
          simp only [sealedUnder, NonceTls.initial, generateNonce_draw, cryptoPqcSessLoad, usable,
            if_true]
      · obtain ⟨salt, h⟩ := ih ctxs
        refine ⟨salt, ?_⟩
        simpa [sealedUnder, keysInUse, cryptoPqcSessLoad, usable] using h

/-- Distinct stamps are distinct nonces, so a run repeats a nonce under a key exactly when it repeats
a stamp. -/
theorem sealedUnder_nodup_iff (ctxs : ℕ → PacketCryptoCtx) (steps : List WorkerStep) :
    (sealedUnder .initial ctxs steps).Nodup ↔
      (WrapCounter.stamped (2 ^ 32) 0 (keysInUse false ctxs steps)).Nodup := by
  obtain ⟨salt, run⟩ := sealedUnder_initial ctxs steps
  rw [run]
  constructor
  · exact List.Nodup.of_map _
  · refine List.Nodup.map_on ?_
    intro a ha b hb equal
    have period : 0 < 2 ^ 32 := Nat.two_pow_pos 32
    rw [Prod.mk.injEq, nonceOf_eq_iff salt (WrapCounter.stamped_lt _ period _ _ a ha)
      (WrapCounter.stamped_lt _ period _ _ b hb)] at equal
    exact Prod.ext equal.1 equal.2

/-- **Nonce uniqueness.**  A run of one worker thread never seals two packets under the same key and
nonce exactly when no two of its encryptions under the same key lie a multiple of `2 ^ 32` apart. -/
theorem nonces_unique_iff (ctxs : ℕ → PacketCryptoCtx) (steps : List WorkerStep) :
    (sealedUnder .initial ctxs steps).Nodup ↔
      WrapCounter.Apart (2 ^ 32) (keysInUse false ctxs steps) := by
  rw [sealedUnder_nodup_iff, WrapCounter.stamped_nodup_iff]

theorem keysInUse_replicate (drawn : Bool) (ctxs : ℕ → PacketCryptoCtx) (ctx : ℕ) (salt : Salt)
    (usable : keyNonzero (ctxs ctx).keys.current = true) (n : ℕ) :
    keysInUse drawn ctxs (.replicate n (.encrypt ctx (some salt))) =
      .replicate n (ctxs ctx).keys.current := by
  induction n generalizing drawn with
  | zero => rfl
  | succ n ih => simp [List.replicate_succ, keysInUse, usable, ih]

/-- A context that holds `key` as CURRENT. -/
def ctxWithCurrent (key : TrafficKey) : PacketCryptoCtx :=
  { PacketCryptoCtx.zero with keys := ⟨0, key, 0⟩ }

/-- `2 ^ 32 + 1` packets under one key reuse a nonce. -/
theorem nonce_reused_after_wrap :
    ¬ (sealedUnder .initial (fun _ => ctxWithCurrent 1)
      (.replicate (2 ^ 32 + 1) (.encrypt 0 (some (Vector.replicate 8 7))))).Nodup := by
  rw [sealedUnder_nodup_iff, WrapCounter.stamped_nodup_iff, keysInUse_replicate _ _ _ _ rfl]
  exact WrapCounter.not_apart_replicate _ _ _ (Nat.two_pow_pos 32) (Nat.lt_succ_self _)

end NeEncryptor
