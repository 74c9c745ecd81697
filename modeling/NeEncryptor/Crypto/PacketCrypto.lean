import Mathlib.Data.BitVec

/-!
# Traffic keys and packet contexts

The key material of `packet_crypto.h`: 32-byte traffic keys, the three key slots, and the per-policy
context whose CURRENT key encrypts.
-/

namespace NeEncryptor

/-- The 32 bytes of a traffic key. -/
abbrev TrafficKey := BitVec 256

/-- `KEY_SLOT_PREV`, `KEY_SLOT_CURRENT` and `KEY_SLOT_NEXT` of one party. -/
@[ext]
structure KeySlots (α : Type*) where
  prev : α
  current : α
  next : α
  deriving DecidableEq, Repr

/-- `key_nonzero`. -/
def keyNonzero (key : TrafficKey) : Bool := key != 0

/-- `struct packet_crypto_ctx`, without the static master key of the ARP context. -/
@[ext]
structure PacketCryptoCtx where
  keys : KeySlots TrafficKey
  initialized : Bool
  policyId : ℤ
  wireId : UInt8
  profileId : ℤ
  pqcFromHandshake : Bool
  pqcKeyInUseMs : ℕ
  pqcTimedKey : TrafficKey
  pqcRekeySent : Bool
  deriving DecidableEq, Repr

/-- A context after `memset(ctx, 0, sizeof *ctx)`. -/
def PacketCryptoCtx.zero : PacketCryptoCtx where
  keys := ⟨0, 0, 0⟩
  initialized := false
  policyId := 0
  wireId := 0
  profileId := 0
  pqcFromHandshake := false
  pqcKeyInUseMs := 0
  pqcTimedKey := 0
  pqcRekeySent := false

/-- `crypto_pqc_sess_load`: the session key is CURRENT, and an all-zero CURRENT is refused. -/
def cryptoPqcSessLoad (ctx : PacketCryptoCtx) : Option TrafficKey :=
  if keyNonzero ctx.keys.current then some ctx.keys.current else none

@[simp] theorem keyNonzero_zero : keyNonzero 0 = false := rfl

theorem keyNonzero_iff (key : TrafficKey) : keyNonzero key = true ↔ key ≠ 0 := by
  simp [keyNonzero]

theorem sessLoad_eq_none_iff (ctx : PacketCryptoCtx) :
    cryptoPqcSessLoad ctx = none ↔ ctx.keys.current = 0 := by
  simp [cryptoPqcSessLoad, keyNonzero]

end NeEncryptor
