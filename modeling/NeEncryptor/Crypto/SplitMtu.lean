import NeEncryptor.Crypto.WholeFrames

/-!
# Wire frames and the MTU

`crypto_option_set_mtu` with the length of the frames of a UDP packet: 47 bytes more than a packet
that is not split, and for a split packet the first frame is made to fit while the second one takes
what is left.
-/

namespace NeEncryptor

open Buffer

/-- `CRYPTO_OPT_FRAG_MTU_DEFAULT`. -/
def cryptoOptFragMtuDefault : UInt32 := 1500

/-- `crypto_option_set_mtu`, with what it stores. -/
def cryptoOptionSetMtu (mtu : UInt32) : UInt32 :=
  let mtu := if mtu < 512 then 512 else mtu
  if UInt32.ofNat neFrame < mtu then UInt32.ofNat neFrame else mtu

/-- `crypto_option_get_mtu`. -/
def cryptoOptionGetMtu (fragMtu : UInt32) : UInt32 :=
  if fragMtu < 512 ∨ UInt32.ofNat neFrame < fragMtu then cryptoOptFragMtuDefault else fragMtu

/-- What is stored is read back: the MTU, brought into the range that is allowed. -/
theorem getMtu_setMtu (mtu : UInt32) :
    (cryptoOptionGetMtu (cryptoOptionSetMtu mtu)).toNat = min 2048 (max 512 mtu.toNat) := by
  have least : (512 : UInt32).toNat = 512 := rfl
  have most : (UInt32.ofNat neFrame).toNat = 2048 := rfl
  have stored : (cryptoOptionSetMtu mtu).toNat = min 2048 (max 512 mtu.toNat) := by
    rw [cryptoOptionSetMtu]
    simp only [UInt32.lt_iff_toNat_lt, apply_ite UInt32.toNat, least, most]
    split <;> split <;> omega
  rw [cryptoOptionGetMtu, if_neg, stored]
  rw [UInt32.lt_iff_toNat_lt, UInt32.lt_iff_toNat_lt, stored, least, most]
  omega

section

variable {aead : Aead} {ctx : PacketCryptoCtx} {worker : UInt8} {mtu pktLen : ℕ} {ids : UdpMeta}
  {pkt frame : Bytes}

/-- The size of a full frame. -/
theorem length_full {nonce : Option Nonce} (fits : pktLen ≤ pkt.length)
    (made : l2DoEncryptUdp aead ctx worker nonce (some ids) pkt pktLen = some frame) :
    frame.length = pktLen + optFragMetaLen ∧ frame.length ≤ pkt.length := by
  obtain ⟨etOff, n, cipher, found, -, long, encrypted, room, rfl⟩ := l2DoEncryptUdp_some made
  have text := aead.length_encrypt encrypted
  have header : (pkt.take etOff).length = etOff := List.length_take_of_le (by omega)
  rw [List.length_append, length_l2UdpWriteShim, length_slice (by omega), l2UdpShimSize] at text
  rw [length_wireFrame n.length_toList, header, optFragMetaLen]
  omega

/-- The sizes of the two frames of a packet. -/
theorem length_split {nonce1 nonce0 : Option Nonce} {tail frame0 frame1 : Bytes}
    (fits : pktLen ≤ pkt.length)
    (split : l2Split aead ctx worker nonce1 nonce0 mtu (some ids) pkt pktLen tail =
      some (frame0, frame1)) :
    ∃ l3Off n, cryptoEthIpv4Offset pkt pktLen = some l3Off ∧
      splitPoint mtu pkt pktLen l3Off = some n ∧ l3Off + n < pktLen ∧
      frame0.length = l3Off + n + optFragMetaLen ∧ frame0.length ≤ pkt.length ∧
      frame1.length = pktLen - n + optFragMetaLen ∧ frame1.length ≤ tail.length := by
  obtain ⟨etOff, n, n0, n1, cipher0, cipher1, found, ip, point, encrypted0, encrypted1, room0, room1,
    rfl, rfl⟩ := l2Split_some split
  have inside := (splitPoint_some point).2.2.2
  have ipv4 : cryptoEthIpv4Offset pkt pktLen = some (etOff + 2) := by
    have header := splitPoint_some point
    rw [cryptoEthIpv4Offset, found]
    dsimp only
    rw [if_neg (not_not.mpr ip), if_neg (by omega)]
  have text0 := aead.length_encrypt encrypted0
  have text1 := aead.length_encrypt encrypted1
  have header : (pkt.take etOff).length = etOff := List.length_take_of_le (by omega)
  rw [List.length_append, length_l2UdpWriteShim, length_slice (by omega), l2UdpShimSize] at text0
  rw [List.length_append, length_l2UdpWriteShim, length_slice (by omega), l2UdpShimSize] at text1
  refine ⟨etOff + 2, n, ipv4, point, inside, ?_⟩
  rw [length_wireFrame n0.length_toList, length_wireFrame n1.length_toList, header, optFragMetaLen]
  omega

/-- Where a packet that must be split is cut: the first part fills the MTU. -/
theorem splitPoint_full {l3Off n : ℕ} (large : mtu < pktLen + optFragMetaLen)
    (point : splitPoint mtu pkt pktLen l3Off = some n) : l3Off + n + optFragMetaLen = mtu := by
  unfold splitPoint at point
  dsimp only at point
  rw [optFragMetaLen] at *
  split at point
  · cases point
  split at point
  · cases point
  split at point
  · cases point
  split at point
  · cases point
  split at point
  · cases point
  split at point
  · cases point
  · cases point
    split <;> omega

/-- Every frame of a UDP packet fits, but for a second fragment of a packet that is too long for two
frames. -/
theorem udp_frames_fit_iff (setting : UInt32) {nonce nonce1 nonce0 : Option Nonce} {tail : Bytes}
    (fits : pktLen ≤ pkt.length) (pool : pkt.length ≤ neFrame) (tailPool : tail.length ≤ neFrame) :
    let mtu := (cryptoOptionGetMtu (cryptoOptionSetMtu setting)).toNat
    (l2UdpNeedSplit mtu pktLen = false → ∀ frame,
      l2UdpEncrypt aead ctx worker nonce pkt pktLen (some ids) = some frame → frame.length ≤ mtu) ∧
    (l2UdpNeedSplit mtu pktLen = true → ∀ frame0 frame1,
      l2Split aead ctx worker nonce1 nonce0 mtu (some ids) pkt pktLen tail =
          some (frame0, frame1) →
        ((frame0.length ≤ mtu ∧ frame0.length ≤ neFrame) ∧
            frame1.length ≤ mtu ∧ frame1.length ≤ neFrame ↔
          ∀ l3Off, cryptoEthIpv4Offset pkt pktLen = some l3Off →
            pktLen + l3Off + 94 ≤ 2 * mtu)) := by
  intro mtu
  constructor
  · intro whole frame made
    rw [l2UdpNeedSplit, decide_eq_false_iff_not, optFragMetaLen] at whole
    unfold l2UdpEncrypt at made
    split at made
    · cases made
    split at made
    · cases made
      rw [List.length_take]
      omega
    · have length := (length_full fits made).1
      rw [optFragMetaLen] at length
      omega
  · intro large frame0 frame1 split
    rw [l2UdpNeedSplit, decide_eq_true_iff] at large
    obtain ⟨l3Off, n, ipv4, point, inside, length0, room0, length1, room1⟩ := length_split fits split
    have full := splitPoint_full large point
    rw [optFragMetaLen] at *
    constructor
    · rintro ⟨-, fit, -⟩ l3Off' found
      obtain rfl := Option.some.inj (ipv4.symm.trans found)
      omega
    · intro enough
      have room := enough l3Off ipv4
      omega

end

/-- A packet of 470 bytes at the least MTU. -/
theorem udp_frames_fit_iff_sample :
    (sampleFrames.1.length ≤ 512 ∧ sampleFrames.1.length ≤ neFrame) ∧
      sampleFrames.2.length ≤ 512 ∧ sampleFrames.2.length ≤ neFrame := by
  have split := sampleSplit_eq
  rw [sampleSplit] at split
  have mtu : (cryptoOptionGetMtu (cryptoOptionSetMtu 0)).toNat = 512 := by decide
  have fit := (@udp_frames_fit_iff sampleAead (ctxWithCurrent 1) 0 470 sampleIds samplePacket 0 none
    (some (Vector.replicate 12 8)) (some (Vector.replicate 12 9)) (.replicate 2048 0)
    (by decide +kernel) (by decide +kernel) (by decide +kernel)).2
    (by decide +kernel) sampleFrames.1 sampleFrames.2
  rw [mtu] at fit
  refine (fit split).mpr fun l3Off found => ?_
  have place : cryptoEthIpv4Offset samplePacket 470 = some 14 := by decide +kernel
  obtain rfl := Option.some.inj (place.symm.trans found)
  decide

/-- A UDP packet of 1000 bytes. -/
def longPacket : Bytes :=
  .replicate 12 0x22 ++ [0x08, 0x00, 0x45] ++ .replicate 8 0 ++ [17] ++ .replicate 976 0x61 ++
    .replicate 1048 0

/-- At the least MTU the second frame of the packet has 596 bytes. -/
theorem not_fit_long :
    l2UdpNeedSplit 512 1000 = true ∧ (cryptoOptionGetMtu (cryptoOptionSetMtu 512)).toNat = 512 ∧
      ∃ frame0 frame1, l2Split sampleAead (ctxWithCurrent 1) 0 (some (Vector.replicate 12 8))
          (some (Vector.replicate 12 9)) 512 (some sampleIds) longPacket 1000 (.replicate 2048 0) =
            some (frame0, frame1) ∧
        512 < frame1.length := by
  have made : (l2Split sampleAead (ctxWithCurrent 1) 0 (some (Vector.replicate 12 8))
      (some (Vector.replicate 12 9)) 512 (some sampleIds) longPacket 1000
        (.replicate 2048 0)).any (fun frames => decide (frames.2.length = 596)) = true := by
    decide +kernel
  obtain ⟨⟨frame0, frame1⟩, split, long⟩ := Option.any_eq_true _ _ |>.mp made
  refine ⟨by decide, by decide, frame0, frame1, split, ?_⟩
  have length : frame1.length = 596 := by simpa using long
  omega

end NeEncryptor
