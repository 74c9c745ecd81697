import NeEncryptor.Lib.Buffer

/-!
# Ethernet headers

`eth_parse.c`: where the EtherType of a frame and its IPv4 header are, without a VLAN tag or behind
one.
-/

namespace NeEncryptor

open Buffer

/-- The bytes of a frame. -/
abbrev Bytes := List UInt8

/-- `eth_read_et`. -/
def ethReadEt (pkt : Bytes) (off : ℕ) : ℕ :=
  (pkt.getD off 0).toNat * 256 + (pkt.getD (off + 1) 0).toNat

/-- `ETH_P_8021Q`. -/
def ethP8021q : ℕ := 0x8100

/-- `ETH_P_IP`. -/
def ethPIp : ℕ := 0x0800

/-- `ETH_P_ARP`. -/
def ethPArp : ℕ := 0x0806

/-- `NE_L2_FAKE_ETHERTYPE`. -/
def l2FakeEthertype : ℕ := 0x104A

/-- `NE_L2_FAKE_ETHERTYPE_UDP`. -/
def l2FakeEthertypeUdp : ℕ := 0x104B

/-- `NE_L2_FAKE_ETHERTYPE_ARP`. -/
def l2FakeEthertypeArp : ℕ := 0x1048

/-- The EtherTypes that `crypto_eth_inner_et_off` looks for. -/
def innerEt (et : ℕ) : Bool :=
  et == ethPIp || et == l2FakeEthertype || et == l2FakeEthertypeUdp || et == l2FakeEthertypeArp

/-- `crypto_eth_inner_et_off`, and `crypto_eth_l2_prefix_len`. -/
def cryptoEthInnerEtOff (pkt : Bytes) (pktLen : ℕ) : Option ℕ :=
  if pktLen < 14 then none
  else if innerEt (ethReadEt pkt 12) then some 12
  else if ethReadEt pkt 12 ≠ ethP8021q then none
  else if pktLen < 18 then none
  else if innerEt (ethReadEt pkt 16) then some 16
  else none

/-- `crypto_eth_ipv4_offset`. -/
def cryptoEthIpv4Offset (pkt : Bytes) (pktLen : ℕ) : Option ℕ :=
  match cryptoEthInnerEtOff pkt pktLen with
  | none => none
  | some etOff =>
    if ethReadEt pkt etOff ≠ ethPIp then none
    else if pktLen < etOff + 2 + 20 then none
    else some (etOff + 2)

/-- `crypto_eth_arp_offset`. -/
def cryptoEthArpOffset (pkt : Bytes) (pktLen : ℕ) : Option ℕ :=
  let etOff := if ethReadEt pkt 12 = ethP8021q then 16 else 12
  if pktLen < 14 then none
  else if pktLen < etOff + 2 then none
  else if ethReadEt pkt etOff ≠ ethPArp then none
  else if pktLen < etOff + 2 + 28 then none
  else some (etOff + 2)

/-- `crypto_eth_set_ipv4_et`. -/
def cryptoEthSetIpv4Et (pkt : Bytes) (innerEtOff : ℕ) : Bytes := blit pkt innerEtOff [0x08, 0x00]

/-- `crypto_eth_l2_policy_off`. -/
def cryptoEthL2PolicyOff (pkt : Bytes) (pktLen : ℕ) : Option ℕ :=
  match cryptoEthInnerEtOff pkt pktLen with
  | none => none
  | some etOff => if pktLen < etOff + 3 then none else some (etOff + 2)

/-- `crypto_eth_l2_has_arp_marker`. -/
def cryptoEthL2HasArpMarker (pkt : Bytes) : Bool :=
  (cryptoEthInnerEtOff pkt pkt.length).any fun etOff => ethReadEt pkt etOff == l2FakeEthertypeArp

theorem innerEtOff_cases {pkt : Bytes} {pktLen etOff : ℕ}
    (found : cryptoEthInnerEtOff pkt pktLen = some etOff) :
    innerEt (ethReadEt pkt etOff) = true ∧ etOff + 2 ≤ pktLen ∧
      (etOff = 12 ∨ etOff = 16 ∧ ethReadEt pkt 12 = ethP8021q) := by
  unfold cryptoEthInnerEtOff at found
  split at found
  · cases found
  split at found
  · rename_i inner
    cases found
    exact ⟨inner, by omega, .inl rfl⟩
  split at found
  · cases found
  split at found
  · cases found
  split at found
  · rename_i tagged _ inner
    cases found
    exact ⟨inner, by omega, .inr ⟨rfl, not_not.mp tagged⟩⟩
  · cases found

/-- An EtherType is read from the bytes up to its end. -/
theorem ethReadEt_congr {pkt frame : Bytes} {off n : ℕ} (same : frame.take n = pkt.take n)
    (fits : off + 2 ≤ n) : ethReadEt frame off = ethReadEt pkt off := by
  have byte (i : ℕ) (before : i < n) : frame.getD i 0 = pkt.getD i 0 := by
    have taken (l : Bytes) : (l.take n).getD i 0 = l.getD i 0 := by
      rw [List.getD_eq_getElem?_getD, List.getElem?_take_of_lt before,
        List.getD_eq_getElem?_getD]
    rw [← taken frame, same, taken]
  rw [ethReadEt, byte off (by omega), byte (off + 1) (by omega), ethReadEt]

theorem ethReadEt_append (hdr rest : Bytes) (hi lo : UInt8) :
    ethReadEt (hdr ++ hi :: lo :: rest) hdr.length = hi.toNat * 256 + lo.toNat := by
  have byte (i : ℕ) : (hdr ++ hi :: lo :: rest).getD (hdr.length + i) 0 =
      (hi :: lo :: rest).getD i 0 := by
    rw [List.getD_eq_getElem?_getD, List.getElem?_append_right (Nat.le_add_right _ _),
      Nat.add_sub_cancel_left, List.getD_eq_getElem?_getD]
  have first := byte 0
  rw [Nat.add_zero] at first
  rw [ethReadEt, first, byte 1]
  rfl

/-- The two bytes of an EtherType. -/
theorem slice_of_ethReadEt_eq {pkt : Bytes} {off : ℕ} {hi lo : UInt8}
    (et : ethReadEt pkt off = hi.toNat * 256 + lo.toNat) (fits : off + 2 ≤ pkt.length) :
    slice pkt off 2 = [hi, lo] := by
  have two : pkt.drop off = pkt[off] :: pkt[off + 1] :: pkt.drop (off + 2) := by
    rw [List.drop_eq_getElem_cons (by omega), List.drop_eq_getElem_cons (by omega)]
  have length : (pkt.take off).length = off := by
    rw [List.length_take]
    omega
  have read := ethReadEt_append (pkt.take off) (pkt.drop (off + 2)) pkt[off] pkt[off + 1]
  rw [← two, List.take_append_drop, length, et] at read
  have low := pkt[off + 1].toNat_lt
  have low' := lo.toNat_lt
  have first : pkt[off] = hi := UInt8.toNat_inj.mp (by omega)
  have second : pkt[off + 1] = lo := UInt8.toNat_inj.mp (by omega)
  rw [slice, two, first, second]
  rfl

theorem slice_of_ethReadEt {pkt : Bytes} {off : ℕ} (ip : ethReadEt pkt off = ethPIp)
    (fits : off + 2 ≤ pkt.length) : slice pkt off 2 = [0x08, 0x00] :=
  slice_of_ethReadEt_eq ip fits

/-- A frame with the same bytes before its EtherType keeps the place of it. -/
theorem innerEtOff_congr {pkt frame : Bytes} {pktLen frameLen etOff : ℕ}
    (found : cryptoEthInnerEtOff pkt pktLen = some etOff) (same : frame.take etOff = pkt.take etOff)
    (inner : innerEt (ethReadEt frame etOff) = true) (fits : etOff + 2 ≤ frameLen) :
    cryptoEthInnerEtOff frame frameLen = some etOff := by
  rcases (innerEtOff_cases found).2.2 with rfl | ⟨rfl, tagged⟩
  · rw [cryptoEthInnerEtOff, if_neg (by omega), if_pos inner]
  · have tag : ethReadEt frame 12 = ethP8021q :=
      (ethReadEt_congr same (by decide)).trans tagged
    rw [cryptoEthInnerEtOff, if_neg (by omega), tag, if_neg (by decide), if_neg (by simp),
      if_neg (by omega), if_pos inner]

theorem ipv4Offset_some {pkt : Bytes} {pktLen l3Off : ℕ}
    (found : cryptoEthIpv4Offset pkt pktLen = some l3Off) :
    ∃ etOff, l3Off = etOff + 2 ∧ cryptoEthInnerEtOff pkt pktLen = some etOff ∧
      ethReadEt pkt etOff = ethPIp ∧ l3Off + 20 ≤ pktLen := by
  unfold cryptoEthIpv4Offset at found
  split at found
  · cases found
  · rename_i etOff inner
    split at found
    · cases found
    split at found
    · cases found
    · rename_i ip long
      cases found
      exact ⟨etOff, rfl, inner, not_not.mp ip, by omega⟩

end NeEncryptor
