import NeEncryptor.Crypto.UdpFrames

/-!
# Plain L2 frames

The encoders of `pqc_l2_option.c` for a whole packet: `l2_do_encrypt` for every protocol but UDP, under
the EtherType 0x104A and without a marker, and `l2_do_encrypt_udp`, with their decoders.
-/

namespace NeEncryptor

open Buffer

/-- `l2_do_encrypt`, with the frame it leaves; `packet` is the whole buffer. -/
def l2DoEncrypt (aead : Aead) (ctx : PacketCryptoCtx) (worker : UInt8) (nonce : Option Nonce)
    (packet : Bytes) (pktLen : ℕ) : Option Bytes := do
  let l3Off ← cryptoEthIpv4Offset packet pktLen
  let etOff ← cryptoEthInnerEtOff packet pktLen
  let payloadLen := pktLen - l3Off
  let encStart := etOff + 4 + l2NonceSize
  if pktLen < encStart then none
  else do
    let packet := blit packet encStart (slice packet l3Off payloadLen)
    let key ← cryptoPqcSessLoad ctx
    let nonce ← nonce
    let packet := blit packet etOff ([0x10, 0x4A, ctx.wireId, worker] ++ nonce.toList)
    let cipher ← aead.encrypt key nonce.toList (slice packet encStart payloadLen)
    return (blit packet encStart cipher).take (encStart + cipher.length)

/-- `l2_do_encrypt_udp`; `ids` are what `crypto_option_udp_tx_meta` returns. -/
def l2DoEncryptUdp (aead : Aead) (ctx : PacketCryptoCtx) (worker : UInt8) (nonce : Option Nonce)
    (ids : Option UdpMeta) (packet : Bytes) (pktLen : ℕ) : Option Bytes := do
  let l3Off ← cryptoEthIpv4Offset packet pktLen
  let etOff ← cryptoEthInnerEtOff packet pktLen
  let ids ← ids
  sealFragment aead ctx worker nonce .full ids packet (slice packet l3Off (pktLen - l3Off)) etOff

/-- `crypto_eth_l2_has_marker`. -/
def cryptoEthL2HasMarker (pkt : Bytes) (pktLen : ℕ) : Bool :=
  match cryptoEthInnerEtOff pkt pktLen with
  | none => false
  | some etOff =>
    ethReadEt pkt etOff == l2FakeEthertype || ethReadEt pkt etOff == l2FakeEthertypeUdp

/-- `crypto_eth_l2_read_policy_id`. -/
def cryptoEthL2ReadPolicyId (pkt : Bytes) (pktLen : ℕ) : Option UInt8 :=
  (cryptoEthL2PolicyOff pkt pktLen).map fun off => pkt.getD off 0

/-- `crypto_pkt_is_ipv4`. -/
def cryptoPktIsIpv4 (pkt : Bytes) (pktLen : ℕ) : Bool := (cryptoEthIpv4Offset pkt pktLen).isSome

/-- `l2_restore_plain_packet`, with the packet cut to its length. -/
def l2RestorePlainPacket (packet : Bytes) (pktLen : ℕ) (payload : Bytes) : Option Bytes :=
  (cryptoEthInnerEtOff packet pktLen).map fun etOff =>
    let payload :=
      if 2 ≤ payload.length ∧ payload.getD 0 0 = 0x08 ∧ payload.getD 1 0 = 0x00 then payload.drop 2
      else payload
    (blit (cryptoEthSetIpv4Et packet etOff) (etOff + 2) payload).take (etOff + 2 + payload.length)

/-- `l2_do_decrypt`. -/
def l2DoDecrypt (aead : Aead) (ctx : PacketCryptoCtx) (packet : Bytes) (pktLen : ℕ) :
    Option Bytes := do
  let encStart ← l2EncStartOff packet pktLen
  let _ ← cryptoPqcSessLoad ctx
  let nonceOff ← l2NonceOff packet pktLen
  let plain ← cryptoPqcDecryptPayloadResilient aead ctx (slice packet nonceOff l2NonceSize)
    (slice packet encStart (pktLen - encStart))
  l2RestorePlainPacket (blit packet encStart plain) pktLen plain

/-- `l2_tcp_decrypt`; a frame without a marker is left as it is. -/
def l2TcpDecrypt (aead : Aead) (ctx : PacketCryptoCtx) (packet : Bytes) (pktLen : ℕ) :
    Option Bytes :=
  if !ctx.initialized then none
  else if !cryptoEthL2HasMarker packet pktLen then some (packet.take pktLen)
  else l2DoDecrypt aead ctx packet pktLen

/-- A frame with a wire header under the EtherType `0x10 lo`. -/
def headedFrame (lo : UInt8) (hdr : Bytes) (wireId worker : UInt8) (nonce body : Bytes) : Bytes :=
  hdr ++ ([0x10, lo, wireId, worker] ++ nonce) ++ body

theorem wireFrame_eq_headed (hdr nonce cipher : Bytes) (wireId worker : UInt8) :
    wireFrame hdr wireId worker nonce cipher =
      headedFrame 0x4B hdr wireId worker nonce (l2UdpMarker ++ cipher) := by
  rw [wireFrame, headedFrame, List.append_assoc]

section Fields

variable {hdr nonce body : Bytes} {lo wireId worker : UInt8}

theorem length_headedFrame (size : nonce.length = l2NonceSize) :
    (headedFrame lo hdr wireId worker nonce body).length = hdr.length + 16 + body.length := by
  simp only [headedFrame, List.length_append, size, l2NonceSize, List.length_cons, List.length_nil]

theorem ethReadEt_headedFrame (hdr nonce body : Bytes) (lo wireId worker : UInt8) :
    ethReadEt (headedFrame lo hdr wireId worker nonce body) hdr.length = 0x1000 + lo.toNat := by
  rw [headedFrame, List.append_assoc]
  exact ethReadEt_append hdr _ 0x10 lo

/-- The fields behind the EtherType. -/
theorem headedFrame_fields (size : nonce.length = l2NonceSize) :
    (headedFrame lo hdr wireId worker nonce body).getD (hdr.length + 2) 0 = wireId ∧
      (headedFrame lo hdr wireId worker nonce body).getD (hdr.length + 3) 0 = worker ∧
      slice (headedFrame lo hdr wireId worker nonce body) (hdr.length + 4) l2NonceSize = nonce ∧
      (headedFrame lo hdr wireId worker nonce body).drop (hdr.length + 16) = body := by
  have byte (i : ℕ) (l : Bytes) : (hdr ++ l).getD (hdr.length + i) 0 = l.getD i 0 := by
    rw [List.getD_eq_getElem?_getD, List.getElem?_append_right (Nat.le_add_right _ _),
      Nat.add_sub_cancel_left, List.getD_eq_getElem?_getD]
  rw [headedFrame, List.append_assoc, byte, byte, slice_append, ← List.drop_drop, List.drop_left]
  refine ⟨rfl, rfl, ?_, ?_⟩
  · show (nonce ++ body).take l2NonceSize = nonce
    exact List.take_left' size
  · show (nonce ++ body).drop 12 = body
    exact List.drop_left' size

/-- The EtherType stays where the frame had it that it was made from. -/
theorem innerEtOff_headedFrame {pkt : Bytes} {pktLen etOff : ℕ}
    (found : cryptoEthInnerEtOff pkt pktLen = some etOff) (fits : etOff ≤ pkt.length)
    (inner : innerEt (0x1000 + lo.toNat) = true) (size : nonce.length = l2NonceSize) :
    cryptoEthInnerEtOff (headedFrame lo (pkt.take etOff) wireId worker nonce body)
      (headedFrame lo (pkt.take etOff) wireId worker nonce body).length = some etOff := by
  have length : (pkt.take etOff).length = etOff := by
    rw [List.length_take]
    omega
  have et := ethReadEt_headedFrame (pkt.take etOff) nonce body lo wireId worker
  rw [length] at et
  refine innerEtOff_congr found ?_ ?_ ?_
  · rw [headedFrame, List.append_assoc]
    exact List.take_left' length
  · rw [et]
    exact inner
  · rw [length_headedFrame size, length]
    omega

end Fields

/-- The writes of a plain encoder: the payload is moved behind the wire header, the header is
written, and the ciphertext replaces the payload. -/
theorem plain_writes {packet : Bytes} {etOff len : ℕ} (lo wireId worker : UInt8) (n : Nonce)
    (room : etOff + 4 + l2NonceSize ≤ packet.length) (fits : etOff + 2 + len ≤ packet.length) :
    let moved := blit packet (etOff + 4 + l2NonceSize) (slice packet (etOff + 2) len)
    let headed := blit moved etOff ([0x10, lo, wireId, worker] ++ n.toList)
    slice headed (etOff + 4 + l2NonceSize) len = slice packet (etOff + 2) len ∧
      ∀ cipher, (blit headed (etOff + 4 + l2NonceSize) cipher).take
          (etOff + 4 + l2NonceSize + cipher.length) =
        headedFrame lo (packet.take etOff) wireId worker n.toList cipher := by
  intro moved headed
  have header := length_header lo wireId worker n
  have payload : (slice packet (etOff + 2) len).length = len := length_slice fits
  have same : slice moved (etOff + 4 + l2NonceSize) len = slice packet (etOff + 2) len := by
    have moved' := @slice_blit _ packet (slice packet (etOff + 2) len) (etOff + 4 + l2NonceSize) room
    rwa [payload] at moved'
  have before : moved.take etOff = packet.take etOff := take_blit_of_le (by omega) room
  have etInside : etOff ≤ moved.length := by
    have long := @le_length_blit _ packet (slice packet (etOff + 2) len) (etOff + 4 + l2NonceSize)
      room
    change _ ≤ moved.length at long
    omega
  have start : headed.take (etOff + 4 + l2NonceSize) =
      packet.take etOff ++ ([0x10, lo, wireId, worker] ++ n.toList) := by
    rw [← before, Nat.add_assoc, ← header]
    exact take_blit etInside
  have inside : etOff + 4 + l2NonceSize ≤ headed.length := by
    rw [Nat.add_assoc, ← header]
    exact le_length_blit etInside
  refine ⟨?_, fun cipher => ?_⟩
  · rw [← same]
    exact slice_blit_of_le (by rw [header]; omega) etInside
  · rw [take_blit inside, start, headedFrame]

/-- A plain L2 frame is the header of its buffer with the ciphertext of the payload. -/
theorem l2DoEncrypt_some {aead : Aead} {ctx : PacketCryptoCtx} {worker : UInt8}
    {nonce : Option Nonce} {packet frame : Bytes} {pktLen : ℕ} (fits : pktLen ≤ packet.length)
    (made : l2DoEncrypt aead ctx worker nonce packet pktLen = some frame) :
    ∃ (etOff : ℕ) (n : Nonce) (cipher : Bytes), cryptoEthInnerEtOff packet pktLen = some etOff ∧
      ethReadEt packet etOff = ethPIp ∧ etOff + 22 ≤ pktLen ∧
      aead.encrypt ctx.keys.current n.toList (slice packet (etOff + 2) (pktLen - (etOff + 2))) =
        some cipher ∧
      frame = headedFrame 0x4A (packet.take etOff) ctx.wireId worker n.toList cipher := by
  simp only [l2DoEncrypt, Option.bind_eq_bind, Option.bind_eq_some_iff] at made
  obtain ⟨l3Off, ip, etOff, found, made⟩ := made
  obtain ⟨_, rfl, found', et, long⟩ := ipv4Offset_some ip
  obtain rfl := Option.some.inj (found.symm.trans found')
  split at made
  · cases made
  rename_i room
  simp only [Option.bind_eq_some_iff, Option.pure_def, Option.some.injEq] at made
  obtain ⟨key, loaded, n, -, cipher, encrypted, rfl⟩ := made
  obtain ⟨read, written⟩ := @plain_writes packet etOff (pktLen - (etOff + 2)) 0x4A ctx.wireId worker
    n (by omega) (by omega)
  rw [read, (sessLoad_some loaded).1] at encrypted
  exact ⟨etOff, n, cipher, found, et, by omega, encrypted, written cipher⟩

/-- A full UDP frame is the header of its buffer with the ciphertext of shim and payload. -/
theorem l2DoEncryptUdp_some {aead : Aead} {ctx : PacketCryptoCtx} {worker : UInt8}
    {nonce : Option Nonce} {ids : UdpMeta} {packet frame : Bytes} {pktLen : ℕ}
    (made : l2DoEncryptUdp aead ctx worker nonce (some ids) packet pktLen = some frame) :
    ∃ (etOff : ℕ) (n : Nonce) (cipher : Bytes), cryptoEthInnerEtOff packet pktLen = some etOff ∧
      ethReadEt packet etOff = ethPIp ∧ etOff + 22 ≤ pktLen ∧
      aead.encrypt ctx.keys.current n.toList (l2UdpWriteShim .full ids ++
        slice packet (etOff + 2) (pktLen - (etOff + 2))) = some cipher ∧
      etOff + 20 + cipher.length ≤ packet.length ∧
      frame = wireFrame (packet.take etOff) ctx.wireId worker n.toList cipher := by
  simp only [l2DoEncryptUdp, Option.bind_eq_bind, Option.bind_eq_some_iff] at made
  obtain ⟨l3Off, ip, etOff, found, _, same, made⟩ := made
  obtain rfl := Option.some.inj same
  obtain ⟨_, rfl, found', et, long⟩ := ipv4Offset_some ip
  obtain rfl := Option.some.inj (found.symm.trans found')
  obtain ⟨key, n, cipher, loaded, -, encrypted, room, rfl⟩ := sealFragment_some made
  rw [(sessLoad_some loaded).1] at encrypted
  exact ⟨etOff, n, cipher, found, et, by omega, encrypted, room, rfl⟩

/-- A plain L2 frame is opened to the payload behind the header. -/
theorem l2DoDecrypt_headedFrame {aead : Aead} {ctx : PacketCryptoCtx}
    {hdr nonce cipher plain : Bytes} {wireId worker : UInt8} (size : nonce.length = l2NonceSize)
    (found : cryptoEthInnerEtOff (headedFrame 0x4A hdr wireId worker nonce cipher)
      (headedFrame 0x4A hdr wireId worker nonce cipher).length = some hdr.length)
    (loaded : (cryptoPqcSessLoad ctx).isSome = true)
    (other : ¬(2 ≤ plain.length ∧ plain.getD 0 0 = 0x08 ∧ plain.getD 1 0 = 0x00))
    (opens : cryptoPqcDecryptPayloadResilient aead ctx nonce cipher = some plain) :
    l2DoDecrypt aead ctx (headedFrame 0x4A hdr wireId worker nonce cipher)
      (headedFrame 0x4A hdr wireId worker nonce cipher).length =
        some (hdr ++ [0x08, 0x00] ++ plain) := by
  obtain ⟨-, -, atNonce, atCipher⟩ := @headedFrame_fields hdr nonce cipher 0x4A wireId worker size
  have length : (headedFrame 0x4A hdr wireId worker nonce cipher).length =
      hdr.length + 16 + cipher.length := length_headedFrame size
  have et : ethReadEt (headedFrame 0x4A hdr wireId worker nonce cipher) hdr.length =
      l2FakeEthertype := ethReadEt_headedFrame hdr nonce cipher 0x4A wireId worker
  have start : (headedFrame 0x4A hdr wireId worker nonce cipher).take (hdr.length + 2) =
      hdr ++ [0x10, 0x4A] := by
    rw [headedFrame, List.append_assoc, List.take_length_add_append]
    rfl
  have nonceSize : l2NonceSize = 12 := rfl
  generalize headedFrame 0x4A hdr wireId worker nonce cipher = frame at *
  have nonceOff : l2NonceOff frame frame.length = some (hdr.length + 4) := by
    rw [l2NonceOff, cryptoEthL2PolicyOff, found]
    dsimp only
    rw [if_neg (by omega)]
    rfl
  have encStart : l2EncStartOff frame frame.length = some (hdr.length + 16) := by
    rw [l2EncStartOff, nonceOff]
    dsimp only
    rw [if_neg (by omega)]
    rfl
  have data : slice frame (hdr.length + 16) (frame.length - (hdr.length + 16)) = cipher := by
    rw [slice, atCipher]
    exact List.take_of_length_le (by omega)
  obtain ⟨key, loaded⟩ := Option.isSome_iff_exists.mp loaded
  have before (n : ℕ) (inside : n ≤ hdr.length + 16) :
      (blit frame (hdr.length + 16) plain).take n = frame.take n :=
    take_blit_of_le inside (by omega)
  have inner : cryptoEthInnerEtOff (blit frame (hdr.length + 16) plain) frame.length =
      some hdr.length := by
    refine innerEtOff_congr found (before _ (by omega)) ?_ (by omega)
    rw [ethReadEt_congr (before (hdr.length + 2) (by omega)) le_rfl, et]
    rfl
  -- The EtherType of IPv4 is written before the payload that is moved behind it.
  generalize opened : blit frame (hdr.length + 16) plain = packet at before inner
  have inside : hdr.length ≤ packet.length := by
    have long := @le_length_blit _ frame plain (hdr.length + 16) (by omega)
    rw [opened] at long
    omega
  have swapped : (cryptoEthSetIpv4Et packet hdr.length).take (hdr.length + 2) =
      hdr ++ [0x08, 0x00] := by
    have kept : frame.take hdr.length = hdr := by
      have shorter := congrArg (List.take hdr.length) start
      rwa [List.take_take, Nat.min_eq_left (by omega), List.take_left] at shorter
    have taken := @take_blit _ packet [0x08, 0x00] hdr.length inside
    rw [before _ (by omega), kept] at taken
    exact taken
  have long : hdr.length + 2 ≤ (cryptoEthSetIpv4Et packet hdr.length).length :=
    @le_length_blit _ packet [0x08, 0x00] hdr.length inside
  simp only [l2DoDecrypt, encStart, loaded, nonceOff, Option.bind_eq_bind, Option.bind_some, atNonce,
    data, opens, opened, l2RestorePlainPacket, inner, Option.map_some, if_neg other]
  rw [take_blit long, swapped]

end NeEncryptor
