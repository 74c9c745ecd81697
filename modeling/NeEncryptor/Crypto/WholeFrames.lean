import NeEncryptor.Crypto.L2Plain
import NeEncryptor.Crypto.SplitRoundTrip

/-!
# Whole frames

The entry points of the encoders of `pqc_l2_option.c` and their decoders, ARP among them, and the
round trip: a decoder that has the key gives back the frame that was encrypted.
-/

namespace NeEncryptor

open Buffer

/-- `MIN_ETH_PKT`. -/
def minEthPkt : ℕ := 22

section Encoders

variable (aead : Aead) (ctx : PacketCryptoCtx) (worker : UInt8) (nonce : Option Nonce)
  (pkt : Bytes) (pktLen : ℕ)

/-- What `l2_tcp_encrypt`, `l2_icmp_encrypt` and `l2_ospf_encrypt` have in common; a frame that is
not IPv4 is left as it is. -/
def l2PlainEncrypt : Option Bytes :=
  if !ctx.initialized || decide (pktLen < minEthPkt) then none
  else if !cryptoPktIsIpv4 pkt pktLen then some (pkt.take pktLen)
  else l2DoEncrypt aead ctx worker nonce pkt pktLen

/-- `l2_tcp_encrypt`. -/
def l2TcpEncrypt : Option Bytes := l2PlainEncrypt aead ctx worker nonce pkt pktLen

/-- `l2_icmp_encrypt`. -/
def l2IcmpEncrypt : Option Bytes := l2PlainEncrypt aead ctx worker nonce pkt pktLen

/-- `l2_ospf_encrypt`. -/
def l2OspfEncrypt : Option Bytes := l2PlainEncrypt aead ctx worker nonce pkt pktLen

/-- `l2_icmp_decrypt`. -/
def l2IcmpDecrypt : Option Bytes := l2TcpDecrypt aead ctx pkt pktLen

/-- `l2_ospf_decrypt`. -/
def l2OspfDecrypt : Option Bytes := l2TcpDecrypt aead ctx pkt pktLen

/-- `l2_udp_encrypt`; `ids` are what `crypto_option_udp_tx_meta` returns. -/
def l2UdpEncrypt (ids : Option UdpMeta) : Option Bytes :=
  if !ctx.initialized || decide (pktLen < minEthPkt) then none
  else if !cryptoPktIsIpv4 pkt pktLen then some (pkt.take pktLen)
  else l2DoEncryptUdp aead ctx worker nonce ids pkt pktLen

/-- `l2_udp_decrypt`, with the epoch and the number that `crypto_option_udp_set_rx_meta` stores. -/
def l2UdpDecrypt : Option (Bytes × Option (BitVec 32 × BitVec 32)) :=
  if !ctx.initialized then none
  else if !cryptoEthL2HasMarker pkt pktLen then some (pkt.take pktLen, none)
  else
    match l2DoDecryptUdp aead ctx pkt pktLen with
    | none => none
    | some p =>
      if p.kind ≠ .full || !cryptoPktIsIpv4 p.packet p.packet.length then none
      else some (p.packet, some (p.ids.epoch, p.ids.seq))

/-- `ARP_ETH_IPV4_PAYLOAD`. -/
def arpEthIpv4Payload : ℕ := 28

/-- `crypto_pkt_is_arp`. -/
def cryptoPktIsArp : Bool := (cryptoEthArpOffset pkt pktLen).isSome

/-- `crypto_eth_set_arp_et`. -/
def cryptoEthSetArpEt (innerEtOff : ℕ) : Bytes := blit pkt innerEtOff [0x08, 0x06]

/-- `l2_do_encrypt_arp`. -/
def l2DoEncryptArp : Option Bytes := do
  let arpOff ← cryptoEthArpOffset pkt pktLen
  if pktLen < arpOff + arpEthIpv4Payload then none
  else do
    let etOff := arpOff - 2
    let encStart := etOff + 4 + l2NonceSize
    let pkt := blit pkt encStart (slice pkt arpOff arpEthIpv4Payload)
    let key ← cryptoPqcSessLoad ctx
    let nonce ← nonce
    let pkt := blit pkt etOff ([0x10, 0x48, ctx.wireId, worker] ++ nonce.toList)
    let cipher ← aead.encrypt key nonce.toList (slice pkt encStart arpEthIpv4Payload)
    return (blit pkt encStart cipher).take (encStart + cipher.length)

/-- `l2_arp_encrypt`; a frame that is not ARP is left as it is. -/
def l2ArpEncrypt : Option Bytes :=
  if !ctx.initialized || decide (pktLen < minEthPkt) then none
  else if !cryptoPktIsArp pkt pktLen then some (pkt.take pktLen)
  else l2DoEncryptArp aead ctx worker nonce pkt pktLen

/-- `l2_do_decrypt_arp`. -/
def l2DoDecryptArp : Option Bytes := do
  let etOff ← cryptoEthInnerEtOff pkt pktLen
  let encStart := etOff + 4 + l2NonceSize
  if pktLen < encStart then none
  else do
    let _ ← cryptoPqcSessLoad ctx
    let plain ← cryptoPqcDecryptPayloadResilient aead ctx (slice pkt (etOff + 4) l2NonceSize)
      (slice pkt encStart (pktLen - encStart))
    let pkt := blit pkt encStart plain
    if plain.length < arpEthIpv4Payload then none
    else do
      let pkt := cryptoEthSetArpEt pkt etOff
      let pkt := blit pkt (etOff + 2) (slice pkt encStart plain.length)
      return pkt.take (etOff + 2 + plain.length)

/-- `l2_arp_decrypt`; a frame without the marker of ARP is left as it is. -/
def l2ArpDecrypt : Option Bytes :=
  if !ctx.initialized then none
  else if !cryptoEthL2HasArpMarker pkt then some pkt
  else l2DoDecryptArp aead ctx pkt pkt.length

end Encoders

/-- The context has the key, and no key that it tries before opens what was sealed under it. -/
structure SharesKey (aead : Aead) (ctx : PacketCryptoCtx) (key : TrafficKey) : Prop where
  initialized : ctx.initialized = true
  loads : (cryptoPqcSessLoad ctx).isSome = true
  held : key ∈ candidates ctx
  earlier : ∀ k ∈ (candidates ctx).takeWhile (· ≠ key), ∀ nonce plain cipher,
    aead.encrypt key nonce plain = some cipher → aead.decrypt k nonce cipher = none

/-- A context shares the CURRENT key with itself. -/
theorem sharesKey_self {aead : Aead} {ctx : PacketCryptoCtx} (ready : ctx.initialized = true)
    (loads : (cryptoPqcSessLoad ctx).isSome = true) :
    SharesKey aead ctx ctx.keys.current := by
  obtain ⟨key, loaded⟩ := Option.isSome_iff_exists.mp loads
  obtain ⟨-, nonzero⟩ := sessLoad_some loaded
  obtain rfl := (sessLoad_some loaded).1
  have first : ∃ keys, candidates ctx = ctx.keys.current :: keys := by
    rw [candidates, List.append_assoc, List.singleton_append, List.filter_cons_of_pos nonzero]
    exact ⟨_, rfl⟩
  obtain ⟨keys, first⟩ := first
  refine ⟨ready, loads, ?_, fun k mem => ?_⟩
  · rw [first]
    exact List.mem_cons_self
  · rw [first, List.takeWhile_cons_of_neg (by simp)] at mem
    cases mem

/-- A search finds the first hit. -/
theorem findSome?_of_earlier {α β : Type*} [DecidableEq α] {f : α → Option β} {a : α} {b : β}
    {l : List α} (mem : a ∈ l) (hit : f a = some b)
    (earlier : ∀ x ∈ l.takeWhile (· ≠ a), f x = none) : l.findSome? f = some b := by
  induction l with
  | nil => cases mem
  | cons x l ih =>
    rw [List.findSome?_cons]
    by_cases here : x = a
    · rw [here, hit]
    · rw [List.takeWhile_cons_of_pos (by simpa using here)] at earlier
      rw [earlier x List.mem_cons_self]
      exact ih ((List.mem_cons.mp mem).resolve_left fun h => here h.symm)
        fun y later => earlier y (List.mem_cons_of_mem x later)

theorem SharesKey.opens {aead : Aead} {ctx : PacketCryptoCtx} {key : TrafficKey}
    {nonce plain cipher : Bytes} (shares : SharesKey aead ctx key)
    (encrypted : aead.encrypt key nonce plain = some cipher) (small : cipher.length ≤ 2048) :
    cryptoPqcDecryptPayloadResilient aead ctx nonce cipher = some plain := by
  have text := aead.length_encrypt encrypted
  rw [cryptoPqcDecryptPayloadResilient, if_neg (by omega)]
  exact findSome?_of_earlier shares.held (aead.decrypt_encrypt encrypted)
    fun k mem => shares.earlier k mem nonce plain cipher encrypted

/-! ### Frames before and after -/

/-- A packet is its header with the EtherType of IPv4 and the rest. -/
theorem take_eq_payload {packet : Bytes} {pktLen etOff : ℕ} (ip : ethReadEt packet etOff = ethPIp)
    (fits : pktLen ≤ packet.length) (inside : etOff + 2 ≤ pktLen) :
    packet.take etOff ++ [0x08, 0x00] ++ slice packet (etOff + 2) (pktLen - (etOff + 2)) =
      packet.take pktLen := by
  have parts := @take_eq_parts packet pktLen etOff 0 ip fits inside
  rwa [slice_zero, List.nil_append, Nat.add_zero, Nat.sub_zero] at parts

theorem isIpv4_take {packet : Bytes} {pktLen etOff : ℕ} (found : cryptoEthInnerEtOff packet pktLen = some etOff)
    (ip : ethReadEt packet etOff = ethPIp) (long : etOff + 22 ≤ pktLen)
    (fits : pktLen ≤ packet.length) :
    cryptoPktIsIpv4 (packet.take pktLen) (packet.take pktLen).length = true := by
  have length : (packet.take pktLen).length = pktLen := by
    rw [List.length_take]
    omega
  have et : ethReadEt (packet.take pktLen) etOff = ethPIp := by
    rw [← ip]
    exact ethReadEt_congr (n := pktLen) (by rw [List.take_take, Nat.min_self]) (by omega)
  have inner : cryptoEthInnerEtOff (packet.take pktLen) pktLen = some etOff := by
    refine innerEtOff_congr found ?_ (by rw [et]; rfl) (by omega)
    rw [List.take_take, Nat.min_eq_left (by omega)]
  rw [length, cryptoPktIsIpv4, cryptoEthIpv4Offset, inner]
  dsimp only
  rw [et, if_neg (by simp), if_neg (by omega)]
  rfl

/-- Where the EtherType stands. -/
def EtPlace (pkt : Bytes) (etOff : ℕ) : Prop :=
  etOff = 12 ∨ etOff = 16 ∧ ethReadEt pkt 12 = ethP8021q

theorem innerEtOff_of_place {pkt : Bytes} {pktLen etOff : ℕ} (place : EtPlace pkt etOff)
    (inner : innerEt (ethReadEt pkt etOff) = true) (fits : etOff + 2 ≤ pktLen) :
    cryptoEthInnerEtOff pkt pktLen = some etOff := by
  rcases place with rfl | ⟨rfl, tagged⟩
  · rw [cryptoEthInnerEtOff, if_neg (by omega), if_pos inner]
  · rw [cryptoEthInnerEtOff, if_neg (by omega), tagged, if_neg (by decide), if_neg (by simp),
      if_neg (by omega), if_pos inner]

/-- A wire frame made from a packet has its EtherType where the packet had it. -/
theorem innerEtOff_headed {pkt nonce body : Bytes} {lo wireId worker : UInt8} {etOff : ℕ}
    (place : EtPlace pkt etOff) (fits : etOff ≤ pkt.length)
    (inner : innerEt (0x1000 + lo.toNat) = true) (size : nonce.length = l2NonceSize) :
    cryptoEthInnerEtOff (headedFrame lo (pkt.take etOff) wireId worker nonce body)
      (headedFrame lo (pkt.take etOff) wireId worker nonce body).length = some etOff := by
  have length : (pkt.take etOff).length = etOff := List.length_take_of_le fits
  have et := ethReadEt_headedFrame (pkt.take etOff) nonce body lo wireId worker
  rw [length] at et
  have same : (headedFrame lo (pkt.take etOff) wireId worker nonce body).take etOff =
      pkt.take etOff := by
    rw [headedFrame, List.append_assoc]
    exact List.take_left' length
  refine innerEtOff_of_place ?_ (by rw [et]; exact inner) ?_
  · exact place.imp id fun h => ⟨h.1, (ethReadEt_congr same (by omega)).trans h.2⟩
  · rw [length_headedFrame size, length]
    omega

theorem arpOffset_some {pkt : Bytes} {pktLen arpOff : ℕ}
    (found : cryptoEthArpOffset pkt pktLen = some arpOff) :
    ∃ etOff, arpOff = etOff + 2 ∧ EtPlace pkt etOff ∧ ethReadEt pkt etOff = ethPArp ∧
      etOff + 30 ≤ pktLen := by
  have place : EtPlace pkt (if ethReadEt pkt 12 = ethP8021q then 16 else 12) := by
    split
    · rename_i tagged
      exact .inr ⟨rfl, tagged⟩
    · exact .inl rfl
  unfold cryptoEthArpOffset at found
  generalize (if ethReadEt pkt 12 = ethP8021q then 16 else 12) = etOff at *
  dsimp only at found
  split at found
  · cases found
  split at found
  · cases found
  split at found
  · cases found
  split at found
  · cases found
  · rename_i et long
    cases found
    exact ⟨etOff, rfl, place, not_not.mp et, by omega⟩

/-- A sealed ARP frame is the header of its buffer with the ciphertext of the ARP bytes. -/
theorem l2DoEncryptArp_some {aead : Aead} {ctx : PacketCryptoCtx} {worker : UInt8}
    {nonce : Option Nonce} {pkt frame : Bytes} {pktLen : ℕ} (fits : pktLen ≤ pkt.length)
    (made : l2DoEncryptArp aead ctx worker nonce pkt pktLen = some frame) :
    ∃ (etOff : ℕ) (n : Nonce) (cipher : Bytes), cryptoEthArpOffset pkt pktLen = some (etOff + 2) ∧
      EtPlace pkt etOff ∧ ethReadEt pkt etOff = ethPArp ∧ etOff + 30 ≤ pktLen ∧
      aead.encrypt ctx.keys.current n.toList (slice pkt (etOff + 2) arpEthIpv4Payload) =
        some cipher ∧
      frame = headedFrame 0x48 (pkt.take etOff) ctx.wireId worker n.toList cipher := by
  have arpLen : arpEthIpv4Payload = 28 := rfl
  have nonceSize : l2NonceSize = 12 := rfl
  simp only [l2DoEncryptArp, Option.bind_eq_bind, Option.bind_eq_some_iff] at made
  obtain ⟨arpOff, arp, made⟩ := made
  obtain ⟨etOff, rfl, place, et, long⟩ := arpOffset_some arp
  split at made
  · cases made
  simp only [Option.bind_eq_some_iff, Option.pure_def, Option.some.injEq] at made
  obtain ⟨key, loaded, n, -, cipher, encrypted, rfl⟩ := made
  obtain ⟨read, written⟩ := @plain_writes pkt etOff arpEthIpv4Payload 0x48 ctx.wireId worker n
    (by omega) (by omega)
  rw [Nat.add_sub_cancel] at encrypted ⊢
  rw [read, (sessLoad_some loaded).1] at encrypted
  exact ⟨etOff, n, cipher, arp, place, et, long, encrypted, written cipher⟩

/-- The EtherType is written before the payload that is moved behind it. -/
theorem take_restored {packet hdr plain : Bytes} {hi lo : UInt8}
    (start : packet.take hdr.length = hdr) (inside : hdr.length ≤ packet.length) :
    (blit (blit packet hdr.length [hi, lo]) (hdr.length + 2) plain).take
      (hdr.length + 2 + plain.length) = hdr ++ [hi, lo] ++ plain := by
  have swapped : (blit packet hdr.length [hi, lo]).take (hdr.length + 2) = hdr ++ [hi, lo] := by
    have taken := @take_blit _ packet [hi, lo] hdr.length inside
    rwa [start] at taken
  have long : hdr.length + 2 ≤ (blit packet hdr.length [hi, lo]).length :=
    @le_length_blit _ packet [hi, lo] hdr.length inside
  rw [take_blit long, swapped]

section

variable {aead : Aead} {ctx rctx : PacketCryptoCtx} {worker : UInt8} {nonce : Option Nonce}
  {pkt frame : Bytes} {pktLen : ℕ}

theorem plain_round_trip (fits : pktLen ≤ pkt.length) (short : pktLen ≤ 2018)
    (shares : SharesKey aead rctx ctx.keys.current) (ipv4 : cryptoPktIsIpv4 pkt pktLen = true)
    (plainHead : ∀ l3Off, cryptoEthIpv4Offset pkt pktLen = some l3Off → ethReadEt pkt l3Off ≠ ethPIp)
    (made : l2PlainEncrypt aead ctx worker nonce pkt pktLen = some frame) :
    l2TcpDecrypt aead rctx frame frame.length = some (pkt.take pktLen) := by
  unfold l2PlainEncrypt at made
  split at made
  · cases made
  rw [if_neg (by simpa using ipv4)] at made
  obtain ⟨etOff, n, cipher, found, ip, long, encrypted, rfl⟩ := l2DoEncrypt_some fits made
  have length : (pkt.take etOff).length = etOff := List.length_take_of_le (by omega)
  have payload : (slice pkt (etOff + 2) (pktLen - (etOff + 2))).length = pktLen - (etOff + 2) :=
    length_slice (by omega)
  have text := aead.length_encrypt encrypted
  have place := @innerEtOff_headedFrame n.toList cipher 0x4A ctx.wireId worker pkt pktLen etOff found
    (by omega) rfl n.length_toList
  have et := ethReadEt_headedFrame (pkt.take etOff) n.toList cipher 0x4A ctx.wireId worker
  have opens := shares.opens encrypted (by omega)
  have kept : ¬(2 ≤ (slice pkt (etOff + 2) (pktLen - (etOff + 2))).length ∧
      (slice pkt (etOff + 2) (pktLen - (etOff + 2))).getD 0 0 = 0x08 ∧
      (slice pkt (etOff + 2) (pktLen - (etOff + 2))).getD 1 0 = 0x00) := by
    rintro ⟨-, first, second⟩
    have byte (i : ℕ) (inside : i < pktLen - (etOff + 2)) :
        (slice pkt (etOff + 2) (pktLen - (etOff + 2))).getD i 0 = pkt.getD (etOff + 2 + i) 0 := by
      rw [slice, List.getD_eq_getElem?_getD, List.getElem?_take_of_lt inside, List.getElem?_drop,
        List.getD_eq_getElem?_getD]
    rw [byte 0 (by omega)] at first
    rw [byte 1 (by omega)] at second
    refine plainHead (etOff + 2) ?_ ?_
    · rw [cryptoEthIpv4Offset, found]
      dsimp only
      rw [if_neg (not_not.mpr ip), if_neg (by omega)]
    · rw [ethReadEt, second]
      rw [Nat.add_zero] at first
      rw [first]
      rfl
  have marked : cryptoEthL2HasMarker
      (headedFrame 0x4A (pkt.take etOff) ctx.wireId worker n.toList cipher)
      (headedFrame 0x4A (pkt.take etOff) ctx.wireId worker n.toList cipher).length = true := by
    rw [cryptoEthL2HasMarker, place]
    rw [length] at et
    dsimp only
    rw [et]
    rfl
  rw [l2TcpDecrypt, shares.initialized, marked]
  have opened := @l2DoDecrypt_headedFrame aead rctx (pkt.take etOff) n.toList cipher _ ctx.wireId
    worker n.length_toList (by simpa only [length] using place) shares.loads kept opens
  rw [take_eq_payload ip fits (by omega)] at opened
  exact opened

theorem udp_round_trip {ids : Option UdpMeta} (fits : pktLen ≤ pkt.length) (short : pktLen ≤ 2018)
    (shares : SharesKey aead rctx ctx.keys.current) (ipv4 : cryptoPktIsIpv4 pkt pktLen = true)
    (made : l2UdpEncrypt aead ctx worker nonce pkt pktLen ids = some frame) :
    l2UdpDecrypt aead rctx frame frame.length =
      some (pkt.take pktLen, ids.map fun m => (m.epoch, m.seq)) := by
  unfold l2UdpEncrypt at made
  split at made
  · cases made
  rw [if_neg (by simpa using ipv4)] at made
  cases ids with
  | none =>
    simp [l2DoEncryptUdp] at made
  | some ids =>
    obtain ⟨etOff, n, cipher, found, ip, long, encrypted, room, rfl⟩ := l2DoEncryptUdp_some made
    have length : (pkt.take etOff).length = etOff := List.length_take_of_le (by omega)
    have payload : (slice pkt (etOff + 2) (pktLen - (etOff + 2))).length = pktLen - (etOff + 2) :=
      length_slice (by omega)
    have text := aead.length_encrypt encrypted
    rw [List.length_append, length_l2UdpWriteShim, l2UdpShimSize] at text
    have place := @innerEtOff_wireFrame pkt n.toList cipher pktLen etOff ctx.wireId worker found
      (by omega) n.length_toList
    have et := ethReadEt_wireFrame (pkt.take etOff) n.toList cipher ctx.wireId worker
    have opens := shares.opens encrypted (by omega)
    have opened := @l2DoDecryptUdp_sealed (pkt.take etOff) n.toList cipher _ ctx.wireId worker aead rctx
      .full ids n.length_toList (by simpa only [length] using place) shares.loads
      (by rw [text, aesGcmTagSize, l2UdpShimSize]) opens
    rw [if_pos rfl, take_eq_payload ip fits (by omega)] at opened
    have marked : cryptoEthL2HasMarker
        (wireFrame (pkt.take etOff) ctx.wireId worker n.toList cipher)
        (wireFrame (pkt.take etOff) ctx.wireId worker n.toList cipher).length = true := by
      rw [cryptoEthL2HasMarker, place]
      rw [length] at et
      dsimp only
      rw [et]
      rfl
    rw [l2UdpDecrypt, shares.initialized, marked, opened]
    dsimp only
    rw [isIpv4_take found ip long fits]
    rfl

/-- An ARP frame comes back without what follows the ARP bytes. -/
theorem arp_round_trip (fits : pktLen ≤ pkt.length)
    (shares : SharesKey aead rctx ctx.keys.current) (arp : cryptoPktIsArp pkt pktLen = true)
    (made : l2ArpEncrypt aead ctx worker nonce pkt pktLen = some frame) :
    ∃ arpOff, cryptoEthArpOffset pkt pktLen = some arpOff ∧
      l2ArpDecrypt aead rctx frame = some (pkt.take (arpOff + arpEthIpv4Payload)) := by
  unfold l2ArpEncrypt at made
  split at made
  · cases made
  rw [if_neg (by simpa using arp)] at made
  obtain ⟨etOff, n, cipher, found, place, et, long, encrypted, rfl⟩ := l2DoEncryptArp_some fits made
  refine ⟨etOff + 2, found, ?_⟩
  have arpLen : arpEthIpv4Payload = 28 := rfl
  have nonceSize : l2NonceSize = 12 := rfl
  have length : (pkt.take etOff).length = etOff := List.length_take_of_le (by omega)
  have payload : (slice pkt (etOff + 2) arpEthIpv4Payload).length = 28 := length_slice (by omega)
  have text := aead.length_encrypt encrypted
  have inner := @innerEtOff_headed pkt n.toList cipher 0x48 ctx.wireId worker etOff place (by omega)
    rfl n.length_toList
  have marker := ethReadEt_headedFrame (pkt.take etOff) n.toList cipher 0x48 ctx.wireId worker
  have size := @length_headedFrame (pkt.take etOff) n.toList cipher 0x48 ctx.wireId worker
    n.length_toList
  obtain ⟨-, -, atNonce, atCipher⟩ := @headedFrame_fields (pkt.take etOff) n.toList cipher 0x48
    ctx.wireId worker n.length_toList
  have opens := shares.opens encrypted (by omega)
  have start : (headedFrame 0x48 (pkt.take etOff) ctx.wireId worker n.toList cipher).take etOff =
      pkt.take etOff := by
    rw [headedFrame, List.append_assoc]
    exact List.take_left' length
  rw [length] at marker size atNonce atCipher
  generalize headedFrame 0x48 (pkt.take etOff) ctx.wireId worker n.toList cipher = frame at *
  have marked : cryptoEthL2HasArpMarker frame = true := by
    rw [cryptoEthL2HasArpMarker, inner, Option.any_some, marker]
    rfl
  have data : slice frame (etOff + 4 + l2NonceSize) (frame.length - (etOff + 4 + l2NonceSize)) =
      cipher := by
    rw [slice, nonceSize, atCipher]
    exact List.take_of_length_le (by omega)
  obtain ⟨key, loaded⟩ := Option.isSome_iff_exists.mp shares.loads
  generalize plainEq : slice pkt (etOff + 2) arpEthIpv4Payload = plain at *
  generalize opened : blit frame (etOff + 4 + l2NonceSize) plain = packet
  have packetLen : packet.length = frame.length := by
    rw [← opened]
    exact length_blit (by omega)
  have kept : packet.take etOff = pkt.take etOff := by
    rw [← opened, ← start]
    exact take_blit_of_le (by omega) (by omega)
  have read : slice (cryptoEthSetArpEt packet etOff) (etOff + 4 + l2NonceSize) plain.length =
      plain := by
    have behind := @slice_blit_of_le _ packet [0x08, 0x06] etOff (etOff + 4 + l2NonceSize)
      plain.length (show etOff + 2 ≤ _ by omega) (by omega)
    rw [cryptoEthSetArpEt, behind, ← opened]
    exact slice_blit (by omega)
  have restored := @take_restored packet (pkt.take etOff) plain 0x08 0x06
    (by rw [length, kept]) (by omega)
  have whole : pkt.take etOff ++ [0x08, 0x06] ++ plain =
      pkt.take (etOff + 2 + arpEthIpv4Payload) := by
    have bytes : ethReadEt pkt etOff = (0x08 : UInt8).toNat * 256 + (0x06 : UInt8).toNat := et
    rw [take_add_slice, take_add_slice, slice_of_ethReadEt_eq bytes (by omega), plainEq]
  rw [l2ArpDecrypt, shares.initialized, marked]
  simp only [l2DoDecryptArp, inner, loaded, Option.bind_eq_bind, Option.bind_some, atNonce, data,
    opens, opened, Bool.not_true, Bool.false_eq_true, if_false]
  rw [if_neg (by omega), if_neg (by omega), read]
  rw [length, whole] at restored
  exact congrArg some restored

/-- Every encoder's frame is opened to the frame it was made from.  The plain encoders need a payload
that does not begin with `08 00`, which no IPv4 header does. -/
theorem whole_frame_round_trip (fits : pktLen ≤ pkt.length) (short : pktLen ≤ 2018)
    (shares : SharesKey aead rctx ctx.keys.current) :
    (cryptoPktIsIpv4 pkt pktLen = true →
      (∀ l3Off, cryptoEthIpv4Offset pkt pktLen = some l3Off → ethReadEt pkt l3Off ≠ 0x0800) →
        (l2TcpEncrypt aead ctx worker nonce pkt pktLen = some frame →
          l2TcpDecrypt aead rctx frame frame.length = some (pkt.take pktLen)) ∧
        (l2IcmpEncrypt aead ctx worker nonce pkt pktLen = some frame →
          l2IcmpDecrypt aead rctx frame frame.length = some (pkt.take pktLen)) ∧
        (l2OspfEncrypt aead ctx worker nonce pkt pktLen = some frame →
          l2OspfDecrypt aead rctx frame frame.length = some (pkt.take pktLen))) ∧
    (cryptoPktIsIpv4 pkt pktLen = true → ∀ ids,
      l2UdpEncrypt aead ctx worker nonce pkt pktLen ids = some frame →
        l2UdpDecrypt aead rctx frame frame.length =
          some (pkt.take pktLen, ids.map fun m => (m.epoch, m.seq))) ∧
    (cryptoPktIsArp pkt pktLen = true →
      l2ArpEncrypt aead ctx worker nonce pkt pktLen = some frame →
        ∃ arpOff, cryptoEthArpOffset pkt pktLen = some arpOff ∧
          l2ArpDecrypt aead rctx frame =
            some (pkt.take (arpOff + arpEthIpv4Payload))) := by
  refine ⟨fun ipv4 plainHead => ?_, fun ipv4 ids made => ?_, fun arp made => ?_⟩
  · exact ⟨plain_round_trip fits short shares ipv4 plainHead,
      plain_round_trip fits short shares ipv4 plainHead,
      plain_round_trip fits short shares ipv4 plainHead⟩
  · exact udp_round_trip fits short shares ipv4 made
  · exact arp_round_trip fits shares arp made

end

/-- A context that is initialized and has a key. -/
def sampleReady : PacketCryptoCtx := { ctxWithCurrent 1 with initialized := true }

theorem whole_frame_round_trip_sample :
    ∃ frame, l2TcpEncrypt sampleAead sampleReady 0 (some (Vector.replicate 12 8)) samplePacket 470 =
        some frame ∧
      l2TcpDecrypt sampleAead sampleReady frame frame.length = some (samplePacket.take 470) := by
  have made : (l2TcpEncrypt sampleAead sampleReady 0 (some (Vector.replicate 12 8)) samplePacket
      470).isSome = true := by decide +kernel
  obtain ⟨frame, made⟩ := Option.isSome_iff_exists.mp made
  have shares : SharesKey sampleAead sampleReady sampleReady.keys.current :=
    sharesKey_self rfl (by decide)
  refine ⟨frame, made, ((whole_frame_round_trip (by decide +kernel) (by decide) shares).1
    (by decide +kernel) (fun l3Off found => ?_)).1 made⟩
  have place : cryptoEthIpv4Offset samplePacket 470 = some 14 := by decide +kernel
  obtain rfl := Option.some.inj (place.symm.trans found)
  decide +kernel

/-- A frame with the EtherType of IPv4 whose payload begins with `08 00` comes back without these
two bytes. -/
theorem not_restored_0800 :
    let pkt : Bytes := .replicate 12 0x22 ++ [0x08, 0x00, 0x08, 0x00] ++ .replicate 18 0x61
    cryptoPktIsIpv4 pkt 34 = true ∧ SharesKey sampleAead sampleReady sampleReady.keys.current ∧
      ∃ frame, l2TcpEncrypt sampleAead sampleReady 0 (some (Vector.replicate 12 8)) pkt 34 =
          some frame ∧
        l2TcpDecrypt sampleAead sampleReady frame frame.length ≠ some pkt := by
  intro pkt
  refine ⟨by decide +kernel, sharesKey_self rfl (by decide), ?_⟩
  have made : (l2TcpEncrypt sampleAead sampleReady 0 (some (Vector.replicate 12 8)) pkt
      34).isSome = true := by decide +kernel
  have opened : ((l2TcpEncrypt sampleAead sampleReady 0 (some (Vector.replicate 12 8)) pkt
      34).bind fun frame => l2TcpDecrypt sampleAead sampleReady frame frame.length) ≠ some pkt := by
    decide +kernel
  obtain ⟨frame, made⟩ := Option.isSome_iff_exists.mp made
  rw [made] at opened
  exact ⟨frame, made, opened⟩

end NeEncryptor
