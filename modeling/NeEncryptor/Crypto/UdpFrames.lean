import NeEncryptor.Crypto.L2Udp

/-!
# Sealed frames

What the encoders leave in a buffer, as a concatenation of fields, and what the decoder makes of it.
-/

namespace NeEncryptor

open Buffer

/-- A sealed frame with the bytes `hdr` before its EtherType. -/
def wireFrame (hdr : Bytes) (wireId worker : UInt8) (nonce cipher : Bytes) : Bytes :=
  hdr ++ ([0x10, 0x4B, wireId, worker] ++ nonce) ++ l2UdpMarker ++ cipher

theorem length_wireFrame {hdr nonce cipher : Bytes} {wireId worker : UInt8}
    (size : nonce.length = l2NonceSize) :
    (wireFrame hdr wireId worker nonce cipher).length = hdr.length + 20 + cipher.length := by
  simp only [wireFrame, List.length_append, size, l2NonceSize, l2UdpMarker, List.length_cons,
    List.length_nil]

@[simp] theorem length_l2UdpWriteShim (kind : L2UdpKind) (ids : UdpMeta) :
    (l2UdpWriteShim kind ids).length = l2UdpShimSize := rfl

@[simp] theorem length_l2UdpMarker : l2UdpMarker.length = l2UdpMarkerSize := rfl

theorem length_header (lo wireId worker : UInt8) (nonce : Nonce) :
    ([0x10, lo, wireId, worker] ++ nonce.toList).length = 4 + l2NonceSize := by
  rw [List.length_append, Vector.length_toList]
  rfl

theorem sessLoad_some {ctx : PacketCryptoCtx} {key : TrafficKey}
    (loaded : cryptoPqcSessLoad ctx = some key) : key = ctx.keys.current ∧ keyNonzero key = true := by
  unfold cryptoPqcSessLoad at loaded
  split at loaded
  · rename_i nonzero
    obtain rfl := Option.some.inj loaded
    exact ⟨rfl, nonzero⟩
  · cases loaded

/-- A fragment that was sealed is the header of its buffer with the ciphertext of shim and payload. -/
theorem sealFragment_some {aead : Aead} {ctx : PacketCryptoCtx} {worker : UInt8}
    {nonce : Option Nonce} {kind : L2UdpKind} {ids : UdpMeta} {buf plain frame : Bytes} {etOff : ℕ}
    (made : sealFragment aead ctx worker nonce kind ids buf plain etOff = some frame) :
    ∃ key n cipher, cryptoPqcSessLoad ctx = some key ∧ nonce = some n ∧
      aead.encrypt key n.toList (l2UdpWriteShim kind ids ++ plain) = some cipher ∧
      etOff + 20 + cipher.length ≤ buf.length ∧
      frame = wireFrame (buf.take etOff) ctx.wireId worker n.toList cipher := by
  unfold sealFragment at made
  dsimp only at made
  split at made
  · cases made
  rename_i room
  simp only [Option.bind_eq_bind, Option.bind_eq_some_iff, Option.pure_def, Option.some.injEq]
    at made
  obtain ⟨key, loaded, n, drawn, cipher, encrypted, rfl⟩ := made
  refine ⟨key, n, cipher, loaded, drawn, and_assoc.mp ⟨?_, ?_⟩⟩
  all_goals
    have header := length_header 0x4B ctx.wireId worker n
    simp only [l2NonceSize, l2UdpMarkerSize, l2UdpShimSize, aesGcmTagSize, l2WriteWireHeader]
      at room encrypted header ⊢
    generalize first : blit buf (etOff + 4 + 12 + 4 + 13) plain = buf₁ at encrypted ⊢
    have length₁ : buf₁.length = buf.length := by
      rw [← first]
      exact length_blit (by omega)
    generalize second : blit buf₁ (etOff + 4 + 12 + 4) (l2UdpWriteShim kind ids) = buf₂
      at encrypted ⊢
    have length₂ : buf₂.length = buf.length := by
      rw [← second, length_blit (by rw [length_l2UdpWriteShim, l2UdpShimSize]; omega), length₁]
    generalize third : blit buf₂ etOff _ = buf₃ at encrypted ⊢
    have length₃ : buf₃.length = buf.length := by
      rw [← third, length_blit (by omega), length₂]
  · -- The header and the marker are written before the text, and the shim before the payload.
    have text : slice (blit buf₃ (etOff + 4 + 12) l2UdpMarker) (etOff + 4 + 12 + 4)
        (13 + plain.length) = l2UdpWriteShim kind ids ++ plain := by
      rw [slice_blit_of_le (by rw [length_l2UdpMarker, l2UdpMarkerSize]) (by omega), ← third,
        slice_blit_of_le (by omega) (by omega), slice_add, ← second]
      congr 1
      · exact slice_blit (by omega)
      · rw [slice_blit_of_le (by rw [length_l2UdpWriteShim, l2UdpShimSize]) (by omega), ← first]
        exact slice_blit (by omega)
    rw [text] at encrypted
    have sealed := aead.length_encrypt encrypted
    rw [List.length_append, length_l2UdpWriteShim, l2UdpShimSize] at sealed
    exact ⟨encrypted, by omega⟩
  · rw [take_blit (by rw [length_blit (by rw [length_l2UdpMarker, l2UdpMarkerSize]; omega)]; omega)]
    have marked : (blit buf₃ (etOff + 4 + 12) l2UdpMarker).take (etOff + 4 + 12 + 4) =
        buf₃.take (etOff + 4 + 12) ++ l2UdpMarker :=
      @take_blit _ buf₃ l2UdpMarker (etOff + 4 + 12) (by omega)
    have headed : buf₃.take (etOff + (4 + 12)) =
        buf₂.take etOff ++ ([0x10, 0x4B, ctx.wireId, worker] ++ n.toList) := by
      rw [← header, ← third]
      exact take_blit (by omega)
    rw [marked, show etOff + 4 + 12 = etOff + (4 + 12) by omega, headed, ← second,
      take_blit_of_le (by omega) (by omega), ← first, take_blit_of_le (by omega) (by omega)]
    rfl

theorem readBe32_be32 (c : BitVec 32) (l m : Bytes) :
    readBe32 (l ++ (be32 c ++ m)) l.length = c := by
  have bound := c.isLt
  have byte (i : ℕ) : (l ++ (be32 c ++ m)).getD (l.length + i) 0 = (be32 c ++ m).getD i 0 := by
    rw [List.getD_eq_getElem?_getD, List.getElem?_append_right (Nat.le_add_right _ _),
      Nat.add_sub_cancel_left, List.getD_eq_getElem?_getD]
  have head := byte 0
  rw [Nat.add_zero] at head
  rw [readBe32, head, byte, byte, byte]
  apply BitVec.eq_of_toNat_eq
  simp only [be32, List.cons_append, List.getD_cons_zero, List.getD_cons_succ,
    UInt8.toNat_ofNat', BitVec.toNat_ofNat]
  omega

/-- A shim is read as it was written. -/
theorem l2UdpReadShim_write (kind : L2UdpKind) (ids : UdpMeta) :
    l2UdpReadShim (l2UdpWriteShim kind ids) = some (kind, ids) := by
  have epoch : readBe32 (l2UdpWriteShim kind ids) 1 = ids.epoch := by
    rw [l2UdpWriteShim, List.append_assoc]
    exact readBe32_be32 ids.epoch [_] _
  have seq : readBe32 (l2UdpWriteShim kind ids) 5 = ids.seq := by
    rw [l2UdpWriteShim, List.append_assoc, ← List.cons_append]
    exact readBe32_be32 ids.seq (_ :: be32 _) _
  have datagramId : readBe32 (l2UdpWriteShim kind ids) 9 = ids.datagramId := by
    rw [l2UdpWriteShim, ← List.cons_append, ← List.append_nil (be32 ids.datagramId)]
    exact readBe32_be32 ids.datagramId (_ :: (be32 _ ++ be32 _)) []
  have head : ((l2UdpWriteShim kind ids).getD 0 0).toNat = 16 + kind.code.toNat := by
    cases kind with
    | frag0 => rfl
    | frag1 => rfl
    | full => rfl
  unfold l2UdpReadShim
  rw [epoch, seq, datagramId, head]
  cases kind with
  | frag0 => rfl
  | frag1 => rfl
  | full => rfl

/-- A region of the second part of a concatenation. -/
theorem slice_append (l m : Bytes) (off n : ℕ) :
    slice (l ++ m) (l.length + off) n = slice m off n := by
  rw [slice, slice, ← List.drop_drop, List.drop_left]

theorem ethReadEt_wireFrame (hdr nonce cipher : Bytes) (wireId worker : UInt8) :
    ethReadEt (wireFrame hdr wireId worker nonce cipher) hdr.length = l2FakeEthertypeUdp := by
  rw [wireFrame, List.append_assoc, List.append_assoc]
  exact ethReadEt_append hdr _ 0x10 0x4B

/-- A sealed frame has its EtherType where the frame had it that it was made from. -/
theorem innerEtOff_wireFrame {pkt nonce cipher : Bytes} {pktLen etOff : ℕ} {wireId worker : UInt8}
    (found : cryptoEthInnerEtOff pkt pktLen = some etOff) (fits : etOff ≤ pkt.length)
    (size : nonce.length = l2NonceSize) :
    cryptoEthInnerEtOff (wireFrame (pkt.take etOff) wireId worker nonce cipher)
      (wireFrame (pkt.take etOff) wireId worker nonce cipher).length = some etOff := by
  have length : (pkt.take etOff).length = etOff := by
    rw [List.length_take]
    omega
  refine innerEtOff_congr found ?_ ?_ ?_
  · rw [wireFrame, List.append_assoc, List.append_assoc]
    exact List.take_left' length
  · have et := ethReadEt_wireFrame (pkt.take etOff) nonce cipher wireId worker
    rw [length] at et
    rw [et]
    rfl
  · rw [length_wireFrame size, length]
    omega

section Open

variable {hdr nonce cipher plain : Bytes} {wireId worker : UInt8}

/-- The fields of a sealed frame. -/
theorem wireFrame_fields (size : nonce.length = l2NonceSize) :
    slice (wireFrame hdr wireId worker nonce cipher) (hdr.length + 4) l2NonceSize = nonce ∧
    slice (wireFrame hdr wireId worker nonce cipher) (hdr.length + 16) l2UdpMarkerSize =
      l2UdpMarker ∧
    (wireFrame hdr wireId worker nonce cipher).drop (hdr.length + 20) = cipher := by
  rw [wireFrame, List.append_assoc, List.append_assoc, slice_append, slice_append,
    ← List.drop_drop, List.drop_left]
  refine ⟨?_, ?_, ?_⟩
  · show (nonce ++ (l2UdpMarker ++ cipher)).take l2NonceSize = nonce
    exact List.take_left' size
  · show slice (nonce ++ (l2UdpMarker ++ cipher)) 12 l2UdpMarkerSize = l2UdpMarker
    have shift := slice_append nonce (l2UdpMarker ++ cipher) 0 l2UdpMarkerSize
    rw [size] at shift
    rw [show 12 = l2NonceSize + 0 from rfl, shift]
    exact List.take_left' rfl
  · show (nonce ++ (l2UdpMarker ++ cipher)).drop 16 = cipher
    rw [show 16 = nonce.length + l2UdpMarker.length by rw [size]; rfl, ← List.drop_drop,
      List.drop_left, List.drop_left]

/-- A write behind the EtherType, and the EtherType of IPv4 over the old one. -/
theorem take_setIpv4Et {buf hdr et plain : Bytes} (two : et.length = 2)
    (start : buf.take (hdr.length + 2) = hdr ++ et) :
    (cryptoEthSetIpv4Et (blit buf (hdr.length + 2) plain) hdr.length).take
      (hdr.length + 2 + plain.length) = hdr ++ [0x08, 0x00] ++ plain := by
  have parts : blit buf (hdr.length + 2) plain =
      hdr ++ et ++ (plain ++ buf.drop (hdr.length + 2 + plain.length)) := by
    rw [blit, start, List.append_assoc (hdr ++ et)]
  have swapped : blit (hdr ++ et ++ (plain ++ buf.drop (hdr.length + 2 + plain.length)))
      hdr.length [0x08, 0x00] =
      hdr ++ [0x08, 0x00] ++ (plain ++ buf.drop (hdr.length + 2 + plain.length)) :=
    blit_append two.symm
  rw [cryptoEthSetIpv4Et, parts, swapped, ← List.append_assoc]
  refine List.take_left' ?_
  simp only [List.length_append, List.length_cons, List.length_nil]

/-- A sealed payload is opened to the payload behind the header.  The EtherType of a fragment is left
as it is. -/
theorem l2DoDecryptUdp_sealed {aead : Aead} {ctx : PacketCryptoCtx} {kind : L2UdpKind}
    {ids : UdpMeta} (size : nonce.length = l2NonceSize)
    (found : cryptoEthInnerEtOff (wireFrame hdr wireId worker nonce cipher)
      (wireFrame hdr wireId worker nonce cipher).length = some hdr.length)
    (loaded : (cryptoPqcSessLoad ctx).isSome = true)
    (long : cipher.length = l2UdpShimSize + plain.length + aesGcmTagSize)
    (opens : cryptoPqcDecryptPayloadResilient aead ctx nonce cipher =
      some (l2UdpWriteShim kind ids ++ plain)) :
    l2DoDecryptUdp aead ctx (wireFrame hdr wireId worker nonce cipher)
      (wireFrame hdr wireId worker nonce cipher).length =
        some ⟨hdr ++ (if kind = .full then [0x08, 0x00] else [0x10, 0x4B]) ++ plain, kind, ids⟩ := by
  have nonceSize : l2NonceSize = 12 := rfl
  have markerSize : l2UdpMarkerSize = 4 := rfl
  have shimSize : l2UdpShimSize = 13 := rfl
  have tagSize : aesGcmTagSize = 16 := rfl
  obtain ⟨atNonce, atMarker, atCipher⟩ :
      slice (wireFrame hdr wireId worker nonce cipher) (hdr.length + 4) l2NonceSize = nonce ∧
      slice (wireFrame hdr wireId worker nonce cipher) (hdr.length + 16) l2UdpMarkerSize =
        l2UdpMarker ∧
      (wireFrame hdr wireId worker nonce cipher).drop (hdr.length + 16 + l2UdpMarkerSize) =
        cipher :=
    wireFrame_fields size
  have length : (wireFrame hdr wireId worker nonce cipher).length =
      hdr.length + 20 + cipher.length := length_wireFrame size
  have et : ethReadEt (wireFrame hdr wireId worker nonce cipher) hdr.length =
      l2FakeEthertypeUdp := ethReadEt_wireFrame hdr nonce cipher wireId worker
  have start : (wireFrame hdr wireId worker nonce cipher).take (hdr.length + 2) =
      hdr ++ [0x10, 0x4B] := by
    rw [wireFrame, List.append_assoc, List.append_assoc, List.take_length_add_append]
    rfl
  generalize wireFrame hdr wireId worker nonce cipher = frame at *
  have nonceOff : l2NonceOff frame frame.length = some (hdr.length + 4) := by
    rw [l2NonceOff, cryptoEthL2PolicyOff, found]
    dsimp only
    rw [if_neg (by omega)]
    rfl
  have encStart : l2EncStartOff frame frame.length = some (hdr.length + 16) := by
    rw [l2EncStartOff, nonceOff]
    dsimp only
    rw [if_neg (by omega)]
    rfl
  have marker : l2UdpMarkerMatch frame frame.length (hdr.length + 16) = true := by
    rw [l2UdpMarkerMatch, atMarker]
    simp only [BEq.rfl, Bool.and_true, decide_eq_true_eq]
    omega
  obtain ⟨key, loaded⟩ := Option.isSome_iff_exists.mp loaded
  have text : (l2UdpWriteShim kind ids ++ plain).length = l2UdpShimSize + plain.length := by
    rw [List.length_append, length_l2UdpWriteShim]
  have data : slice frame (hdr.length + 16 + l2UdpMarkerSize)
      (frame.length - (hdr.length + 16 + l2UdpMarkerSize)) = cipher := by
    rw [slice, atCipher]
    exact List.take_of_length_le (by omega)
  -- The text replaces the ciphertext behind the marker.
  generalize off : hdr.length + 16 + l2UdpMarkerSize = encOff at data
  have opened : slice (blit frame encOff (l2UdpWriteShim kind ids ++ plain)) encOff
      (l2UdpShimSize + plain.length) = l2UdpWriteShim kind ids ++ plain := by
    rw [← text]
    exact slice_blit (by omega)
  generalize written : blit frame encOff (l2UdpWriteShim kind ids ++ plain) = packet at opened
  have before (n : ℕ) (inside : n ≤ encOff) : packet.take n = frame.take n := by
    rw [← written]
    exact take_blit_of_le inside (by omega)
  have packet_length : packet.length = frame.length := by
    rw [← written]
    exact length_blit (by omega)
  have parts : slice packet encOff l2UdpShimSize = l2UdpWriteShim kind ids ∧
      slice packet (encOff + l2UdpShimSize) plain.length = plain := by
    rw [slice_add] at opened
    refine List.append_inj opened ?_
    rw [length_slice (by omega), length_l2UdpWriteShim]
  have inner : cryptoEthInnerEtOff packet frame.length = some hdr.length := by
    refine innerEtOff_congr found (before _ (by omega)) ?_ (by omega)
    rw [ethReadEt_congr (before (hdr.length + 2) (by omega)) le_rfl, et]
    rfl
  unfold l2DoDecryptUdp
  simp only [encStart, Option.bind_eq_bind, Option.bind_some, marker, Bool.not_true,
    Bool.false_eq_true, if_false]
  rw [off, if_neg (by omega), loaded, Option.bind_some, nonceOff, Option.bind_some, atNonce,
    data, opens, Option.bind_some, written, if_neg (by omega), text, Nat.add_sub_cancel_left,
    parts.1, l2UdpReadShim_write, Option.bind_some, inner, Option.bind_some, parts.2]
  have kept : packet.take (hdr.length + 2) = hdr ++ [0x10, 0x4B] := by
    rw [before _ (by omega), start]
  by_cases full : kind = .full
  · rw [if_pos full, if_pos full, take_setIpv4Et rfl kept]
    rfl
  · rw [if_neg full, if_neg full, take_blit (by omega), kept]
    rfl

end Open

end NeEncryptor
