import NeEncryptor.Crypto.WholeFrames
import NeEncryptor.Dataplane.WanIngress
import NeEncryptor.Db.InboundGate

/-!
# What the receiver makes of a sealed frame

A UDP frame carries its marker in the clear, and the receiver looks for the marker under both
EtherTypes.  A frame of another protocol is restored unless its ciphertext begins with the marker.
-/

namespace NeEncryptor

open Buffer

variable {n : ℕ}

/-- The nonce of a sealed frame. -/
def l2NonceOf (frame : Bytes) : Bytes :=
  slice frame ((l2NonceOff frame frame.length).getD 0) l2NonceSize

/-- What stands behind the nonce of a sealed frame. -/
def l2CipherOf (frame : Bytes) : Bytes :=
  frame.drop ((l2EncStartOff frame frame.length).getD 0)

/-- The receiver has the policy of the wire id, and a context that has the sender's key. -/
structure WanRx.HasKey (rx : WanRx n) (wireId : UInt8) (rctx : PacketCryptoCtx)
    (key : TrafficKey) : Prop where
  policy : (fwdPolicyByWireId rx.cfg wireId).isSome = true
  ctx : rx.ctxFor wireId = some rctx
  initialized : rctx.initialized = true
  loads : (cryptoPqcSessLoad rctx).isSome = true
  held : key ∈ candidates rctx
  profile : 0 < rx.rt.fwdCryptoProfileIdForWireId rx.nowMs wireId

/-- No other key opens the ciphertext of the frame, and no key opens it without its first four
bytes. -/
structure Authentic (aead : Aead) (rctx : PacketCryptoCtx) (key : TrafficKey) (frame : Bytes) :
    Prop where
  others : ∀ k ∈ candidates rctx, k ≠ key →
    aead.decrypt k (l2NonceOf frame) (l2CipherOf frame) = none
  cut : ∀ k ∈ candidates rctx,
    aead.decrypt k (l2NonceOf frame) ((l2CipherOf frame).drop l2UdpMarkerSize) = none

section Headed

variable {hdr nonce body : Bytes} {lo wireId worker : UInt8}

/-- What the receiver reads of a sealed frame. -/
structure Headed (frame hdr nonce body : Bytes) (lo wireId : UInt8) : Prop where
  found : cryptoEthInnerEtOff frame frame.length = some hdr.length
  et : ethReadEt frame hdr.length = 0x1000 + lo.toNat
  length : frame.length = hdr.length + 16 + body.length
  policyId : frame.getD (hdr.length + 2) 0 = wireId
  nonce : slice frame (hdr.length + 4) l2NonceSize = nonce
  body : frame.drop (hdr.length + 16) = body
  sealed : lo = 0x4A ∨ lo = 0x4B

theorem headed_headedFrame {pkt : Bytes} {pktLen etOff : ℕ}
    (found : cryptoEthInnerEtOff pkt pktLen = some etOff) (fits : etOff ≤ pkt.length)
    (sealed : lo = 0x4A ∨ lo = 0x4B) (size : nonce.length = l2NonceSize) :
    Headed (headedFrame lo (pkt.take etOff) wireId worker nonce body) (pkt.take etOff) nonce body lo
      wireId := by
  have length : (pkt.take etOff).length = etOff := by
    rw [List.length_take]
    omega
  have inner : innerEt (0x1000 + lo.toNat) = true := by
    rcases sealed with rfl | rfl
    · decide
    · decide
  have place := @innerEtOff_headedFrame nonce body lo wireId worker pkt pktLen etOff found fits inner
    size
  obtain ⟨policyId, -, atNonce, atBody⟩ :=
    @headedFrame_fields (pkt.take etOff) nonce body lo wireId worker size
  exact ⟨by rw [length]; exact place, ethReadEt_headedFrame _ _ _ _ _ _, length_headedFrame size,
    policyId, atNonce, atBody, sealed⟩

namespace Headed

variable {frame : Bytes} (headed : Headed frame hdr nonce body lo wireId)

include headed

theorem hasMarker : cryptoEthL2HasMarker frame frame.length = true := by
  rw [cryptoEthL2HasMarker, headed.found]
  dsimp only
  rw [headed.et]
  rcases headed.sealed with rfl | rfl
  · decide
  · decide

theorem policyOff : cryptoEthL2PolicyOff frame frame.length = some (hdr.length + 2) := by
  have length := headed.length
  rw [cryptoEthL2PolicyOff, headed.found]
  dsimp only
  rw [if_neg (by omega)]

theorem readPolicyId : cryptoEthL2ReadPolicyId frame frame.length = some wireId := by
  rw [cryptoEthL2ReadPolicyId, headed.policyOff, Option.map_some, headed.policyId]

theorem nonceOff : l2NonceOff frame frame.length = some (hdr.length + 4) := by
  rw [l2NonceOff, headed.policyOff]
  rfl

theorem encStart : l2EncStartOff frame frame.length = some (hdr.length + 16) := by
  have nonceSize : l2NonceSize = 12 := rfl
  have length := headed.length
  rw [l2EncStartOff, headed.nonceOff]
  dsimp only
  rw [if_neg (by omega)]
  rfl

theorem fragMagicOff :
    cryptoEthL2FragMagicOff frame frame.length l2NonceSize = some (hdr.length + 16) := by
  have nonceSize : l2NonceSize = 12 := rfl
  have length := headed.length
  rw [cryptoEthL2FragMagicOff, headed.policyOff]
  dsimp only
  rw [if_neg (by omega)]
  rfl

theorem nonceOf : l2NonceOf frame = nonce := by
  rw [l2NonceOf, headed.nonceOff]
  exact headed.nonce

theorem cipherOf : l2CipherOf frame = body := by
  rw [l2CipherOf, headed.encStart]
  exact headed.body

theorem markerAt : slice frame (hdr.length + 16) l2UdpMarkerSize = body.take l2UdpMarkerSize := by
  rw [slice, headed.body]

/-- A frame with a shim and a tag is tagged where its body begins with the marker. -/
theorem tagged (long : 33 ≤ body.length) :
    wanL2IsUdpTagged frame = (body.take l2UdpMarkerSize == l2UdpMarker) := by
  have length := headed.length
  have room : hdr.length + 16 + l2UdpMarkerSize + l2UdpShimSize + aesGcmTagSize ≤ frame.length := by
    have sizes : l2UdpMarkerSize = 4 ∧ l2UdpShimSize = 13 ∧ aesGcmTagSize = 16 := ⟨rfl, rfl, rfl⟩
    omega
  rw [wanL2IsUdpTagged, headed.hasMarker, headed.fragMagicOff, Option.any_some, headed.markerAt,
    decide_eq_true room, Bool.true_and, Bool.true_and]

/-- Without the marker, the frame is no UDP fragment. -/
theorem not_isFragment (cfg : AppConfig) (unmarked : body.take l2UdpMarkerSize ≠ l2UdpMarker) :
    l2UdpIsFragment cfg frame = false := by
  have no : (body.take l2UdpMarkerSize == l2UdpMarker) = false := beq_false_of_ne unmarked
  rw [l2UdpIsFragment, headed.encStart, Option.any_some, l2UdpMarkerMatch, headed.markerAt, no]
  simp

end Headed

end Headed

section Receive

variable {rx : WanRx n} {aead : Aead} {rctx : PacketCryptoCtx} {key : TrafficKey}
  {wireId lo : UInt8} {frame hdr nonce body : Bytes} {ft : OptTable} {now : BitVec 64}

theorem resilient_none {data : Bytes}
    (rejected : ∀ k ∈ candidates rctx, aead.decrypt k nonce data = none) :
    cryptoPqcDecryptPayloadResilient aead rctx nonce data = none := by
  unfold cryptoPqcDecryptPayloadResilient
  split
  · rfl
  · exact List.findSome?_eq_none_iff.mpr rejected

/-- The first key that opens the data is the sender's. -/
theorem resilient_some {data text : Bytes} (held : key ∈ candidates rctx)
    (others : ∀ k ∈ candidates rctx, k ≠ key → aead.decrypt k nonce data = none)
    (nonempty : data.length ≠ 0) (fits : data.length ≤ 2048)
    (opens : aead.decrypt key nonce data = some text) :
    cryptoPqcDecryptPayloadResilient aead rctx nonce data = some text := by
  rw [cryptoPqcDecryptPayloadResilient, if_neg (by omega)]
  exact findSome?_of_only held opens others

theorem WanRx.wireIsEncrypted (rx : WanRx n)
    (marked : cryptoEthL2HasMarker frame frame.length = true) :
    rx.wanWireIsEncrypted frame = true := by
  rw [wanWireIsEncrypted, marked, Bool.or_true, Bool.true_or]

/-- A tagged frame is opened as a UDP frame. -/
theorem WanRx.HasKey.decryptWan_tagged (has : rx.HasKey wireId rctx key)
    (headed : Headed frame hdr nonce body lo wireId) (tagged : wanL2IsUdpTagged frame = true) :
    rx.decryptWan aead ft now frame = l2UdpReasm aead rctx ft frame now := by
  have tried : rx.wanTryL2PqcUdp aead ft now frame = some (l2UdpReasm aead rctx ft frame now) := by
    have slot : fwdCryptoProfileSlotForId (rx.rt.fwdCryptoProfileIdForWireId rx.nowMs wireId) =
        some 0 := if_pos has.profile
    obtain ⟨cp, policy⟩ := Option.isSome_iff_exists.mp has.policy
    rw [wanTryL2PqcUdp, tagged, headed.readPolicyId]
    dsimp only
    rw [policy, has.ctx, reassembleL2, has.ctx]
    dsimp only
    rw [slot]
    rfl
  rw [decryptWan, rx.wireIsEncrypted headed.hasMarker, tried]
  rfl

/-- A frame that is not tagged is opened as a plain L2 frame, or dropped, or left as it is. -/
theorem WanRx.decryptWan_untagged (rx : WanRx n)
    (headed : Headed frame hdr nonce body lo wireId) (untagged : wanL2IsUdpTagged frame = false)
    (unmarked : body.take l2UdpMarkerSize ≠ l2UdpMarker) :
    rx.decryptWan aead ft now frame =
      match (rx.decryptL2 aead frame).filter wanL2PlainOk with
      | some packet => (ft, .plain packet none)
      | none => if rx.rt.fwdCryptoHasL2Marker frame then (ft, .drop) else (ft, .plain frame none) := by
  have tried : rx.wanTryL2PqcUdp aead ft now frame = none := by
    rw [wanTryL2PqcUdp, untagged]
    rfl
  rw [decryptWan, rx.wireIsEncrypted headed.hasMarker, tried, headed.not_isFragment rx.cfg unmarked,
    untagged, Bool.or_false]
  rfl

theorem WanRx.HasKey.decryptL2_headed (has : rx.HasKey wireId rctx key)
    (headed : Headed frame hdr nonce body lo wireId) :
    rx.decryptL2 aead frame =
      if frame.length > neFrame then none
      else (l2DoDecrypt aead rctx frame frame.length).filter fun plain =>
        cryptoPktIsIpv4 plain plain.length := by
  have opened : l2TcpDecrypt aead rctx frame frame.length =
      l2DoDecrypt aead rctx frame frame.length := by
    simp [l2TcpDecrypt, has.initialized, headed.hasMarker]
  rw [decryptL2, headed.hasMarker, headed.readPolicyId]
  dsimp only
  rw [has.ctx]
  dsimp only
  rw [opened]
  rfl

/-- A marked frame that no key opens behind the marker is no UDP frame. -/
theorem l2DoDecryptUdp_none (headed : Headed frame hdr nonce body lo wireId)
    (rejected : ∀ k ∈ candidates rctx, aead.decrypt k nonce (body.drop l2UdpMarkerSize) = none) :
    l2DoDecryptUdp aead rctx frame frame.length = none := by
  have data : slice frame (hdr.length + 16 + l2UdpMarkerSize)
      (frame.length - (hdr.length + 16 + l2UdpMarkerSize)) = body.drop l2UdpMarkerSize := by
    rw [slice, ← List.drop_drop, headed.body]
    refine List.take_of_length_le ?_
    have length := headed.length
    rw [List.length_drop]
    omega
  unfold l2DoDecryptUdp
  rw [headed.encStart, Option.bind_eq_bind, Option.bind_some]
  dsimp only
  split
  · rfl
  split
  · rfl
  rw [headed.nonceOff, data]
  simp only [Option.bind_eq_bind, Option.bind_some, headed.nonce, resilient_none rejected,
    Option.bind_none, Option.bind_fun_none]

/-- A plain L2 frame whose ciphertext begins with the marker is dropped. -/
theorem WanRx.HasKey.dropped (has : rx.HasKey wireId rctx key)
    (headed : Headed frame hdr nonce body lo wireId) (tagged : wanL2IsUdpTagged frame = true)
    (rejected : ∀ k ∈ candidates rctx, aead.decrypt k nonce (body.drop l2UdpMarkerSize) = none) :
    rx.decryptWan aead ft now frame = (ft, .drop) := by
  rw [has.decryptWan_tagged headed tagged, l2UdpReasm, l2DoDecryptUdp_none headed rejected]

end Receive

/-- The IPv4 packet in the first `pktLen` bytes of a buffer has the version of IPv4. -/
def IsVersion4 (packet : Bytes) (pktLen : ℕ) : Prop :=
  ∀ l3Off ∈ cryptoEthIpv4Offset packet pktLen, (packet.getD l3Off 0).toNat / 16 = 4

section Restore

variable {rx : WanRx n} {aead : Aead} {ctx rctx : PacketCryptoCtx} {worker : UInt8}
  {nonce : Option Nonce} {packet frame : Bytes} {pktLen : ℕ} {ft : OptTable} {now : BitVec 64}

/-- A frame with the marker in the clear is opened as a UDP frame. -/
theorem WanRx.HasKey.decryptWan_wire {key : TrafficKey} {wireId : UInt8} {hdrNonce cipher : Bytes}
    {etOff : ℕ} (has : rx.HasKey wireId rctx key)
    (found : cryptoEthInnerEtOff packet pktLen = some etOff) (inside : etOff ≤ packet.length)
    (size : hdrNonce.length = l2NonceSize) (long : 29 ≤ cipher.length) :
    rx.decryptWan aead ft now (wireFrame (packet.take etOff) wireId worker hdrNonce cipher) =
      l2UdpReasm aead rctx ft (wireFrame (packet.take etOff) wireId worker hdrNonce cipher) now := by
  rw [wireFrame_eq_headed]
  have headed := @headed_headedFrame hdrNonce (l2UdpMarker ++ cipher) 0x4B wireId worker packet pktLen
    etOff found inside (.inr rfl) size
  refine has.decryptWan_tagged headed ?_
  rw [headed.tagged (by rw [List.length_append, length_l2UdpMarker, l2UdpMarkerSize]; omega),
    List.take_left' (length_l2UdpMarker)]
  exact beq_self_eq_true _

/-- A frame of `l2_do_encrypt` is restored if and only if it fits into a frame of the pool and its
ciphertext does not begin with the marker of UDP. -/
theorem plain_restored_iff (has : rx.HasKey ctx.wireId rctx ctx.keys.current)
    (fits : pktLen ≤ packet.length) (version : IsVersion4 packet pktLen)
    (made : l2DoEncrypt aead ctx worker nonce packet pktLen = some frame)
    (authentic : Authentic aead rctx ctx.keys.current frame) :
    (rx.decryptWan aead ft now frame).2 = .plain (packet.take pktLen) none ↔
      frame.length ≤ neFrame ∧ (l2CipherOf frame).take l2UdpMarkerSize ≠ l2UdpMarker := by
  obtain ⟨etOff, n, cipher, found, ip, long, encrypted, rfl⟩ := l2DoEncrypt_some fits made
  have headed := @headed_headedFrame n.toList cipher 0x4A ctx.wireId worker packet pktLen etOff found
    (by omega) (.inl rfl) n.length_toList
  have taken : (packet.take etOff).length = etOff := by
    rw [List.length_take]
    omega
  have payload : (slice packet (etOff + 2) (pktLen - (etOff + 2))).length = pktLen - (etOff + 2) :=
    length_slice (by omega)
  have sealed := aead.length_encrypt encrypted
  have place := headed.found
  have length := headed.length
  obtain ⟨others, cut⟩ := authentic
  rw [headed.nonceOf, headed.cipherOf] at others cut
  rw [headed.cipherOf]
  have tagged := headed.tagged (by omega)
  have first : (slice packet (etOff + 2) (pktLen - (etOff + 2))).getD 0 0 ≠ 0x08 := by
    have byte : (slice packet (etOff + 2) (pktLen - (etOff + 2))).getD 0 0 =
        packet.getD (etOff + 2) 0 := by
      rw [slice, List.getD_eq_getElem?_getD, List.getElem?_take_of_lt (by omega),
        List.getElem?_drop, List.getD_eq_getElem?_getD]
    have four := version (etOff + 2) (by
      rw [Option.mem_def, cryptoEthIpv4Offset, found]
      dsimp only
      rw [if_neg (by simpa using ip), if_neg (by omega)])
    rw [byte]
    intro eight
    rw [eight] at four
    cases four
  have opened (small : cipher.length ≤ 2048) :
      l2DoDecrypt aead rctx (headedFrame 0x4A (packet.take etOff) ctx.wireId worker n.toList cipher)
        (headedFrame 0x4A (packet.take etOff) ctx.wireId worker n.toList cipher).length =
        some (packet.take pktLen) := by
    rw [l2DoDecrypt_headedFrame n.length_toList place has.loads (fun stripped => first stripped.2.1)
      (resilient_some has.held others (by omega) small (aead.decrypt_encrypt encrypted)),
      take_eq_payload ip fits (by omega)]
  generalize made' : headedFrame 0x4A (packet.take etOff) ctx.wireId worker n.toList cipher = frame
    at *
  by_cases marked : cipher.take l2UdpMarkerSize = l2UdpMarker
  · -- The receiver takes the ciphertext behind the marker for a UDP frame.
    rw [has.dropped headed (by rw [tagged, marked]; exact beq_self_eq_true _) cut]
    refine iff_of_false ?_ fun both => both.2 marked
    rintro ⟨⟩
  · have untagged : wanL2IsUdpTagged frame = false := tagged.trans (beq_false_of_ne marked)
    rw [rx.decryptWan_untagged headed untagged marked, has.decryptL2_headed headed]
    by_cases large : frame.length > neFrame
    · rw [if_pos large]
      refine iff_of_false ?_ fun h => absurd h.1 (Nat.not_le.mpr large)
      rw [Option.filter_none]
      dsimp only
      split
      · rintro ⟨⟩
      · intro same
        have short := congrArg List.length (WanResult.plain.inj same).1
        rw [List.length_take] at short
        omega
    · have frameSize : neFrame = 2048 := rfl
      have ipv4 := isIpv4_take found ip long fits
      have plainOk : wanL2PlainOk (packet.take pktLen) = true := by
        rw [wanL2PlainOk, ipv4, Bool.true_or]
      rw [if_neg large, opened (by omega), Option.filter_some_pos (by exact ipv4),
        Option.filter_some_pos plainOk]
      exact iff_of_true rfl ⟨Nat.not_lt.mp large, marked⟩

/-- A full UDP frame is restored, with the numbers of its shim. -/
theorem full_restored {ids : UdpMeta} (has : rx.HasKey ctx.wireId rctx ctx.keys.current)
    (fits : pktLen ≤ packet.length) (pool : packet.length ≤ neFrame)
    (made : l2DoEncryptUdp aead ctx worker nonce (some ids) packet pktLen = some frame)
    (same : SameKey aead rctx ctx.keys.current frame) :
    rx.decryptWan aead ft now frame =
      (ft, .plain (packet.take pktLen) (some (ids.epoch, ids.seq))) := by
  obtain ⟨etOff, n, cipher, found, ip, long, encrypted, room, rfl⟩ := l2DoEncryptUdp_some made
  have frameSize : neFrame = 2048 := rfl
  have sealed := aead.length_encrypt encrypted
  rw [List.length_append, length_l2UdpWriteShim, l2UdpShimSize] at sealed
  have opened := opened_sealed n.length_toList found (by omega) (by omega) encrypted same
  rw [if_pos rfl, take_eq_payload ip fits (by omega)] at opened
  rw [has.decryptWan_wire found (by omega) n.length_toList (by omega), l2UdpReasm, opened]
  dsimp only
  rw [if_pos rfl, isIpv4_take found ip long fits, if_pos rfl]

/-- The two frames of a packet that was split are opened as its fragments. -/
theorem split_opened {nonce1 nonce0 : Option Nonce} {mtu : ℕ} {ids : UdpMeta}
    {tail frame0 frame1 : Bytes} (has : rx.HasKey ctx.wireId rctx ctx.keys.current)
    (fits : pktLen ≤ packet.length) (pool : packet.length ≤ neFrame) (tailPool : tail.length ≤ neFrame)
    (split : l2Split aead ctx worker nonce1 nonce0 mtu (some ids) packet pktLen tail =
      some (frame0, frame1))
    (same0 : SameKey aead rctx ctx.keys.current frame0)
    (same1 : SameKey aead rctx ctx.keys.current frame1) :
    ∃ p0 p1, p0.kind = .frag0 ∧ p1.kind = .frag1 ∧ p0.ids = ids ∧ p1.ids = ids ∧
      l2DoDecryptUdp aead rctx frame0 frame0.length = some p0 ∧
      l2DoDecryptUdp aead rctx frame1 frame1.length = some p1 ∧
      rx.decryptWan aead ft now frame0 = l2UdpReasm aead rctx ft frame0 now ∧
      rx.decryptWan aead ft now frame1 = l2UdpReasm aead rctx ft frame1 now := by
  obtain ⟨etOff, n, n0, n1, cipher0, cipher1, found, ip, point, encrypted0, encrypted1, room0, room1,
    rfl, rfl⟩ := l2Split_some split
  have frameSize : neFrame = 2048 := rfl
  have inside := (innerEtOff_cases found).2.1
  have sealed0 := aead.length_encrypt encrypted0
  have sealed1 := aead.length_encrypt encrypted1
  rw [List.length_append, length_l2UdpWriteShim, l2UdpShimSize] at sealed0 sealed1
  exact ⟨_, _, rfl, rfl, rfl, rfl,
    opened_sealed n0.length_toList found (by omega) (by omega) encrypted0 same0,
    opened_sealed n1.length_toList found (by omega) (by omega) encrypted1 same1,
    has.decryptWan_wire found (by omega) n0.length_toList (by omega),
    has.decryptWan_wire found (by omega) n1.length_toList (by omega)⟩

/-- What the receiver makes of the frames of each encoder, for a packet in a buffer of the pool. -/
theorem receiver_classification (has : rx.HasKey ctx.wireId rctx ctx.keys.current)
    (fits : pktLen ≤ packet.length) (pool : packet.length ≤ neFrame) :
    (∀ frame, IsVersion4 packet pktLen →
      l2DoEncrypt aead ctx worker nonce packet pktLen = some frame →
      Authentic aead rctx ctx.keys.current frame →
      ((rx.decryptWan aead ft now frame).2 = .plain (packet.take pktLen) none ↔
        frame.length ≤ neFrame ∧ (l2CipherOf frame).take l2UdpMarkerSize ≠ l2UdpMarker)) ∧
    (∀ ids frame, l2DoEncryptUdp aead ctx worker nonce (some ids) packet pktLen = some frame →
      SameKey aead rctx ctx.keys.current frame →
      rx.decryptWan aead ft now frame =
        (ft, .plain (packet.take pktLen) (some (ids.epoch, ids.seq)))) ∧
    (∀ nonce1 nonce0 mtu ids tail frame0 frame1, tail.length ≤ neFrame →
      l2Split aead ctx worker nonce1 nonce0 mtu (some ids) packet pktLen tail =
        some (frame0, frame1) →
      SameKey aead rctx ctx.keys.current frame0 → SameKey aead rctx ctx.keys.current frame1 →
      ∃ p0 p1, p0.kind = .frag0 ∧ p1.kind = .frag1 ∧ p0.ids = ids ∧ p1.ids = ids ∧
        l2DoDecryptUdp aead rctx frame0 frame0.length = some p0 ∧
        l2DoDecryptUdp aead rctx frame1 frame1.length = some p1 ∧
        rx.decryptWan aead ft now frame0 = l2UdpReasm aead rctx ft frame0 now ∧
        rx.decryptWan aead ft now frame1 = l2UdpReasm aead rctx ft frame1 now) :=
  ⟨fun _ version made authentic => plain_restored_iff has fits version made authentic,
    fun _ _ made same => full_restored has fits pool made same,
    fun _ _ _ _ _ _ _ tailPool split same0 same1 =>
      split_opened has fits pool tailPool split same0 same1⟩

end Restore

/-- Each byte with a byte of the nonce. -/
def nonceXor (nonce text : Bytes) : Bytes := text.mapIdx fun i b => b ^^^ nonce.getD (i % 12) 0

theorem nonceXor_nonceXor (nonce text : Bytes) : nonceXor nonce (nonceXor nonce text) = text := by
  rw [nonceXor, nonceXor, List.mapIdx_mapIdx]
  refine List.ext_getElem (by rw [List.length_mapIdx]) fun i _ _ => ?_
  rw [List.getElem_mapIdx, Function.comp_apply, UInt8.xor_assoc, UInt8.xor_self, UInt8.xor_zero]

/-- Eight bytes of a key, and the length of the text. -/
def lengthTag (key : TrafficKey) (len : ℕ) : Bytes :=
  (List.range 8).map (fun i => .ofNat (key.toNat / 2 ^ (8 * i))) ++
    (List.range 8).map fun i => .ofNat (len / 2 ^ (8 * i))

/-- A stream cipher that authenticates the key and the length. -/
def streamAead : Aead where
  encrypt key nonce plain := some (nonceXor nonce plain ++ lengthTag key plain.length)
  decrypt key nonce cipher :=
    if cipher.drop (cipher.length - 16) = lengthTag key (cipher.length - 16) then
      some (nonceXor nonce (cipher.take (cipher.length - 16)))
    else none
  length_encrypt := by
    intro key nonce plain cipher made
    obtain rfl := Option.some.inj made
    simp [nonceXor, lengthTag]
  decrypt_encrypt := by
    intro key nonce plain cipher made
    obtain rfl := Option.some.inj made
    have length : (nonceXor nonce plain ++ lengthTag key plain.length).length - 16 =
        (nonceXor nonce plain).length := by
      simp [nonceXor, lengthTag]
    have same : (nonceXor nonce plain).length = plain.length := by simp [nonceXor]
    rw [length, List.drop_left, List.take_left, same, if_pos rfl, nonceXor_nonceXor]

/-- A TCP packet of 54 bytes in its buffer. -/
def tcpPacket : Bytes :=
  .replicate 12 0x22 ++ [0x08, 0x00, 0x45] ++ .replicate 8 0 ++ [6] ++ .replicate 30 0 ++
    .replicate 100 0

def tcpSender : PacketCryptoCtx := { PacketCryptoCtx.zero with keys := ⟨0, 9, 0⟩, wireId := 1 }

/-- A receiver with one policy, whose handshake has yielded the sender's key. -/
def tcpReceiver : WanRx 1 where
  cfg := gateConfig 80 443
  rt := CryptoRuntime.initial.fwdCryptoRebuild 0
    (fun _ _ => some ⟨.wiped, ⟨9, 1, true⟩, .wiped⟩) (gateConfig 80 443)
  worker := 0
  nowMs := 0

def tcpReceiverCtx : PacketCryptoCtx := (tcpReceiver.ctxFor 1).getD .zero

theorem tcpReceiver_hasKey : tcpReceiver.HasKey 1 tcpReceiverCtx 9 where
  policy := by decide
  ctx := by decide +kernel
  initialized := by decide +kernel
  loads := by decide +kernel
  held := by decide +kernel
  profile := by decide +kernel

theorem tcpReceiver_candidates : candidates tcpReceiverCtx = [9] := by decide +kernel

/-- The frame that stands for the packet under a nonce. -/
def tcpFrame (nonce : Nonce) : Bytes :=
  (l2DoEncrypt streamAead tcpSender 0 (some nonce) tcpPacket 54).getD []

theorem tcpFrame_authentic (nonce : Nonce)
    (cut : streamAead.decrypt 9 (l2NonceOf (tcpFrame nonce))
      ((l2CipherOf (tcpFrame nonce)).drop l2UdpMarkerSize) = none) :
    Authentic streamAead tcpReceiverCtx 9 (tcpFrame nonce) where
  others := by
    intro k mem other
    rw [tcpReceiver_candidates, List.mem_singleton] at mem
    exact absurd mem other
  cut := by
    intro k mem
    rw [tcpReceiver_candidates, List.mem_singleton] at mem
    rw [mem]
    exact cut

theorem tcpPacket_version : IsVersion4 tcpPacket 54 := by
  have off : cryptoEthIpv4Offset tcpPacket 54 = some 14 := by decide +kernel
  intro l3Off found
  obtain rfl := Option.some.inj (off.symm.trans found)
  decide +kernel

def plainNonce : Nonce := Vector.replicate 12 0x33

/-- A nonce under which the ciphertext begins with the marker. -/
def markerNonce : Nonce := #v[0x1E, 0x55, 0x44, 0x01, 0, 0, 0, 0, 0, 0, 0, 0]

theorem tcpFrame_restored :
    (tcpReceiver.decryptWan streamAead (fun _ => .zero) 0 (tcpFrame plainNonce)).2 =
      .plain (tcpPacket.take 54) none := by
  have made : l2DoEncrypt streamAead tcpSender 0 (some plainNonce) tcpPacket 54 =
      some (tcpFrame plainNonce) := by decide +kernel
  exact ((receiver_classification tcpReceiver_hasKey (by decide +kernel) (by decide +kernel)).1 _
    tcpPacket_version made (tcpFrame_authentic _ (by decide +kernel))).mpr (by decide +kernel)

/-- A TCP frame whose ciphertext begins with the marker is dropped. -/
theorem tcpFrame_dropped :
    l2DoEncrypt streamAead tcpSender 0 (some markerNonce) tcpPacket 54 =
        some (tcpFrame markerNonce) ∧
      IsVersion4 tcpPacket 54 ∧ tcpReceiver.HasKey 1 tcpReceiverCtx 9 ∧
      Authentic streamAead tcpReceiverCtx 9 (tcpFrame markerNonce) ∧
      (tcpFrame markerNonce).length ≤ neFrame ∧
      (tcpReceiver.decryptWan streamAead (fun _ => .zero) 0 (tcpFrame markerNonce)).2 = .drop :=
  ⟨by decide +kernel, tcpPacket_version, tcpReceiver_hasKey,
    tcpFrame_authentic _ (by decide +kernel), by decide +kernel, by decide +kernel⟩

end NeEncryptor
