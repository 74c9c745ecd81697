import Mathlib.Logic.Function.Basic
import NeEncryptor.Crypto.PacketCrypto
import NeEncryptor.Lib.Ways

/-!
# Handshake messages

The signed messages that the two parties of one policy exchange.  Signatures and the KEM are ideal:
a message is delivered only if the peer sent it, a ciphertext names the key pair it was made for and
the traffic key its shared secret yields, and equal digests mean equal keys.
-/

namespace NeEncryptor.Pqc

abbrev SessionId := BitVec 32

abbrev Digest := BitVec 256

/-- Names a KEM key pair drawn by an initiator. -/
abbrev KemId := ℕ

/-- A KEM ciphertext for `pk`, whose shared secret derives `key`. -/
structure Ciphertext where
  pk : KemId
  key : TrafficKey
  deriving DecidableEq, Repr

/-- A signed HELLO; its bytes are fixed by the session id and the public key it carries. -/
structure Hello where
  session : SessionId
  pk : KemId
  deriving DecidableEq, Repr

/-- `PQC_HS_STATE_READY`, `PQC_HS_STATE_FAILED` and `PQC_HS_STATE_HANDSHAKING`. -/
inductive HsState
  | online
  | failed
  | handshaking
  deriving DecidableEq, Repr

/-- `pqc_hs_keepalive_status_t`; the wire's role byte is 1 for an initiator. -/
structure KeepaliveStatus where
  state : HsState
  fromInitiator : Bool
  keyId : BitVec 8
  keyFingerprint : Digest
  epoch : BitVec 64
  sequence : BitVec 64
  deriving DecidableEq, Repr

/-- `struct pqc_hs_msg` of one policy, by message type. -/
inductive Msg
  | hello (h : Hello)
  | resp (session : SessionId) (ct : Ciphertext)
  | keepalive (status : KeepaliveStatus)
  | poke (requestId : BitVec 64)
  | ready (session : SessionId)
  | commit (session : SessionId)
  deriving DecidableEq, Repr

/-- The cryptographic functions that come from outside. -/
structure Primitives where
  /-- `trf_calculate_digest` of a traffic key. -/
  sha256 : TrafficKey → Digest
  /-- The pseudo-random secret of a ciphertext that was made for another key pair. -/
  implicitReject : KemId → Ciphertext → TrafficKey
  sha256_injective : Function.Injective sha256

/-- Primitives that compute, for runs on fixed inputs. -/
def samplePrimitives : Primitives := ⟨id, fun _ ct => ct.key + 1, Function.injective_id⟩

/-- `trf_kem_decapsulate` followed by `derive_traffic_key`. -/
def Primitives.decapsulate (P : Primitives) (sk : KemId) (ct : Ciphertext) : TrafficKey :=
  if ct.pk = sk then ct.key else P.implicitReject sk ct

theorem Primitives.decapsulate_own (P : Primitives) (sk : KemId) (key : TrafficKey) :
    P.decapsulate sk ⟨sk, key⟩ = key :=
  if_pos rfl

end NeEncryptor.Pqc
