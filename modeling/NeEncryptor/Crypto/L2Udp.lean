import NeEncryptor.Crypto.EthParse
import NeEncryptor.Crypto.TrafficCrypto

/-!
# UDP packets on the wire

`pqc_l2_option.c`: how a UDP packet is split into two sealed frames, and how a sealed frame is opened
again.  A sealed frame keeps the bytes before its EtherType; behind it stand policy, core, nonce,
marker and the ciphertext of a shim with the payload.
-/

namespace NeEncryptor

open Buffer

/-- AES-GCM under the fixed associated data; encryption may fail. -/
structure Aead where
  encrypt : TrafficKey → Bytes → Bytes → Option Bytes
  decrypt : TrafficKey → Bytes → Bytes → Option Bytes
  length_encrypt : ∀ {key nonce plain cipher}, encrypt key nonce plain = some cipher →
    cipher.length = plain.length + 16
  decrypt_encrypt : ∀ {key nonce plain cipher}, encrypt key nonce plain = some cipher →
    decrypt key nonce cipher = some plain

/-- `enum l2_udp_kind`. -/
inductive L2UdpKind
  | frag0
  | frag1
  | full
  deriving DecidableEq, Repr

def L2UdpKind.code : L2UdpKind → UInt8
  | .frag0 => 0
  | .frag1 => 1
  | .full => 2

/-- What a shim says about its datagram. -/
structure UdpMeta where
  epoch : BitVec 32
  seq : BitVec 32
  datagramId : BitVec 32
  deriving DecidableEq, Repr

def be32 (c : BitVec 32) : Bytes :=
  [.ofNat (c.toNat / 2 ^ 24), .ofNat (c.toNat / 2 ^ 16), .ofNat (c.toNat / 2 ^ 8), .ofNat c.toNat]

/-- The value of four bytes. -/
def readBe32 (buf : Bytes) (off : ℕ) : BitVec 32 :=
  .ofNat 32 ((buf.getD off 0).toNat * 2 ^ 24 + (buf.getD (off + 1) 0).toNat * 2 ^ 16 +
    (buf.getD (off + 2) 0).toNat * 2 ^ 8 + (buf.getD (off + 3) 0).toNat)

/-- `l2_udp_write_shim`. -/
def l2UdpWriteShim (kind : L2UdpKind) (ids : UdpMeta) : Bytes :=
  (0x10 + kind.code) :: (be32 ids.epoch ++ be32 ids.seq ++ be32 ids.datagramId)

/-- `l2_udp_read_shim`. -/
def l2UdpReadShim (buf : Bytes) : Option (L2UdpKind × UdpMeta) :=
  let head := (buf.getD 0 0).toNat
  let ids : UdpMeta := ⟨readBe32 buf 1, readBe32 buf 5, readBe32 buf 9⟩
  if head / 16 ≠ 1 then none
  else
    match head % 16 with
    | 0 => some (.frag0, ids)
    | 1 => some (.frag1, ids)
    | 2 => some (.full, ids)
    | _ => none

/-- `L2_UDP_SHIM_SIZE`. -/
def l2UdpShimSize : ℕ := 13

/-- `AES_GCM_TAG_SIZE`. -/
def aesGcmTagSize : ℕ := 16

/-- `L2_NONCE_SIZE`. -/
def l2NonceSize : ℕ := 12

/-- `L2_UDP_MARKER_SIZE`. -/
def l2UdpMarkerSize : ℕ := 4

/-- `OPT_FRAG_META_LEN`. -/
def optFragMetaLen : ℕ := 47

/-- `l2_udp_marker`. -/
def l2UdpMarker : Bytes := [0x5B, 0x55, 0x44, 0x01]

/-- `l2_write_wire_header_et`, for the EtherType of UDP. -/
def l2WriteWireHeader (packet : Bytes) (etOff : ℕ) (policyId worker : UInt8) (nonce : Nonce) :
    Bytes :=
  blit packet etOff ([0x10, 0x4B, policyId, worker] ++ nonce.toList)

/-- What the two fragments have in common: the payload goes behind its shim, and both are sealed in
place. -/
def sealFragment (aead : Aead) (ctx : PacketCryptoCtx) (worker : UInt8) (nonce : Option Nonce)
    (kind : L2UdpKind) (ids : UdpMeta) (buf plain : Bytes) (etOff : ℕ) : Option Bytes := do
  let magicOff := etOff + 4 + l2NonceSize
  let encOff := magicOff + l2UdpMarkerSize
  let plainLen := l2UdpShimSize + plain.length
  if encOff + plainLen + aesGcmTagSize > buf.length then none
  else do
    let buf := blit buf (encOff + l2UdpShimSize) plain
    let buf := blit buf encOff (l2UdpWriteShim kind ids)
    let key ← cryptoPqcSessLoad ctx
    let nonce ← nonce
    let buf := l2WriteWireHeader buf etOff ctx.wireId worker nonce
    let buf := blit buf magicOff l2UdpMarker
    let cipher ← aead.encrypt key nonce.toList (slice buf encOff plainLen)
    return (blit buf encOff cipher).take (encOff + cipher.length)

/-- `l2_encrypt_fragment_single`; `out_max` is the size of the buffer. -/
def l2EncryptFragmentSingle (aead : Aead) (ctx : PacketCryptoCtx) (worker : UInt8)
    (nonce : Option Nonce) (ethHdr encPlain : Bytes) (kind : L2UdpKind) (ids : UdpMeta)
    (outBuf : Bytes) (etOff : ℕ) : Option Bytes :=
  sealFragment aead ctx worker nonce kind ids (blit outBuf 0 (ethHdr.take etOff)) encPlain etOff

/-- `l2_encrypt_fragment0_inplace`; `out_max` is the size of the packet's buffer. -/
def l2EncryptFragment0Inplace (aead : Aead) (ctx : PacketCryptoCtx) (worker : UInt8)
    (nonce : Option Nonce) (packet : Bytes) (frag0PlainLen : ℕ) (ids : UdpMeta)
    (etOff l3Off : ℕ) : Option Bytes :=
  sealFragment aead ctx worker nonce .frag0 ids packet (slice packet l3Off frag0PlainLen) etOff

/-- `l2_udp_need_split`. -/
def l2UdpNeedSplit (mtu pktLen : ℕ) : Bool := decide (mtu < pktLen + optFragMetaLen)

/-- The bytes of the payload that the first fragment takes, where the packet can be split. -/
def splitPoint (mtu : ℕ) (pkt : Bytes) (pktLen l3Off : ℕ) : Option ℕ :=
  let ipHdrLen := (pkt.getD l3Off 0).toNat % 16 * 4
  let appLen := pktLen - l3Off - ipHdrLen - 8
  let overhead := l3Off + optFragMetaLen
  let half1 := mtu - overhead - (ipHdrLen + 8)
  if (pkt.getD l3Off 0).toNat / 16 ≠ 4 ∨ ipHdrLen < 20 ∨ pktLen < l3Off + ipHdrLen then none
  else if (pkt.getD (l3Off + 9) 0).toNat ≠ 17 then none
  else if pktLen - l3Off - ipHdrLen < 8 then none
  else if appLen = 0 then none
  else if mtu ≤ overhead then none
  else if mtu - overhead ≤ ipHdrLen + 8 then none
  else some (ipHdrLen + 8 + if appLen ≤ half1 then appLen - 1 else half1)

/-- `l2_split`, with the two frames it leaves; `frag0_max` and `frag1_max` are the sizes of the
buffers.  `ids` are what `crypto_option_udp_tx_meta` returns. -/
def l2Split (aead : Aead) (ctx : PacketCryptoCtx) (worker : UInt8) (nonce1 nonce0 : Option Nonce)
    (mtu : ℕ) (ids : Option UdpMeta) (pkt : Bytes) (pktLen : ℕ) (frag1 : Bytes) :
    Option (Bytes × Bytes) := do
  let l3Off ← cryptoEthIpv4Offset pkt pktLen
  let frag0PlainLen ← splitPoint mtu pkt pktLen l3Off
  let ids ← ids
  let etOff ← cryptoEthInnerEtOff pkt 18
  let frag1Plain := slice pkt (l3Off + frag0PlainLen) (pktLen - l3Off - frag0PlainLen)
  let frame1 ← l2EncryptFragmentSingle aead ctx worker nonce1 pkt frag1Plain .frag1 ids frag1 etOff
  let etOff ← cryptoEthInnerEtOff pkt pktLen
  let frame0 ←
    l2EncryptFragment0Inplace aead ctx worker nonce0 pkt frag0PlainLen ids etOff l3Off
  return (frame0, frame1)

/-- `l2_nonce_off`. -/
def l2NonceOff (packet : Bytes) (pktLen : ℕ) : Option ℕ :=
  (cryptoEthL2PolicyOff packet pktLen).map fun off => off + 2

/-- `l2_enc_start_off`, and `l2_frag_magic_off`. -/
def l2EncStartOff (packet : Bytes) (pktLen : ℕ) : Option ℕ :=
  match l2NonceOff packet pktLen with
  | none => none
  | some off => if pktLen < off + l2NonceSize then none else some (off + l2NonceSize)

/-- `l2_udp_marker_match`. -/
def l2UdpMarkerMatch (packet : Bytes) (pktLen off : ℕ) : Bool :=
  decide (off + l2UdpMarkerSize ≤ pktLen) && slice packet off l2UdpMarkerSize == l2UdpMarker

/-- The keys that `crypto_pqc_decrypt_payload_resilient` tries, in order. -/
def candidates (ctx : PacketCryptoCtx) : List TrafficKey :=
  ([ctx.keys.current] ++ (if ctx.keys.next = ctx.keys.current then [] else [ctx.keys.next]) ++
    if ctx.keys.prev = ctx.keys.current ∨ ctx.keys.prev = ctx.keys.next then []
    else [ctx.keys.prev]).filter keyNonzero

/-- `crypto_pqc_decrypt_payload_resilient`. -/
def cryptoPqcDecryptPayloadResilient (aead : Aead) (ctx : PacketCryptoCtx) (nonce data : Bytes) :
    Option Bytes :=
  if data.length = 0 ∨ data.length > 2048 then none
  else (candidates ctx).findSome? fun key => aead.decrypt key nonce data

/-- A packet that was opened, with its length cut to what it holds. -/
structure OpenedUdp where
  packet : Bytes
  kind : L2UdpKind
  ids : UdpMeta
  deriving DecidableEq, Repr

/-- `l2_do_decrypt_udp`. -/
def l2DoDecryptUdp (aead : Aead) (ctx : PacketCryptoCtx) (packet : Bytes) (pktLen : ℕ) :
    Option OpenedUdp := do
  let magicOff ← l2EncStartOff packet pktLen
  let encStart := magicOff + l2UdpMarkerSize
  if !l2UdpMarkerMatch packet pktLen magicOff then none
  else if pktLen < encStart + l2UdpShimSize + aesGcmTagSize then none
  else do
    let _ ← cryptoPqcSessLoad ctx
    let nonceOff ← l2NonceOff packet pktLen
    let plain ← cryptoPqcDecryptPayloadResilient aead ctx (slice packet nonceOff l2NonceSize)
      (slice packet encStart (pktLen - encStart))
    let packet := blit packet encStart plain
    if plain.length < l2UdpShimSize then none
    else do
      let (kind, ids) ← l2UdpReadShim (slice packet encStart l2UdpShimSize)
      let etOff ← cryptoEthInnerEtOff packet pktLen
      let payloadLen := plain.length - l2UdpShimSize
      let packet := blit packet (etOff + 2) (slice packet (encStart + l2UdpShimSize) payloadLen)
      let packet := if kind = .full then cryptoEthSetIpv4Et packet etOff else packet
      return ⟨packet.take (etOff + 2 + payloadLen), kind, ids⟩

end NeEncryptor
