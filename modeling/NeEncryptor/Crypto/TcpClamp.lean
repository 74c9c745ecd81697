import NeEncryptor.Crypto.EthParse
import NeEncryptor.Lib.OnesComplement

/-!
# The clamp of the TCP segment size

`crypto_tcp_clamp_mss` lowers the MSS option of a SYN and updates the TCP checksum in place.
-/

namespace NeEncryptor

open Buffer OnesComplement

/-- A 16-bit number, high byte first. -/
def be16 (v : ℕ) : Bytes := [UInt8.ofNat (v / 256), UInt8.ofNat (v % 256)]

/-- What `crypto_tcp_clamp_mss` knows of a SYN: where the IPv4 header is, and the lengths of the
headers. -/
structure SynHeader where
  l3Off : ℕ
  ihl : ℕ
  dataOff : ℕ
  deriving DecidableEq, Repr

/-- The place of the TCP header. -/
def SynHeader.tcp (h : SynHeader) : ℕ := h.l3Off + h.ihl

/-- The checks of `crypto_tcp_clamp_mss` on the frame; the error is what it returns. -/
def synHeader (pkt : Bytes) (pktLen : ℕ) : Except ℤ SynHeader :=
  match cryptoEthIpv4Offset pkt pktLen with
  | none => .error (-1)
  | some l3Off =>
    if pktLen < l3Off + 20 then .error (-1)
    else if pkt.getD l3Off 0 &&& 0xF0 ≠ 0x40 then .error (-1)
    else if pkt.getD (l3Off + 9) 0 ≠ 6 then .error (-1)
    else
      let ihl := (pkt.getD l3Off 0 &&& 0x0F).toNat * 4
      if ihl < 20 ∨ pktLen < l3Off + ihl + 20 then .error (-1)
      else if pkt.getD (l3Off + ihl + 13) 0 &&& 0x02 = 0 then .error 0
      else
        let dataOff := (pkt.getD (l3Off + ihl + 12) 0 >>> 4).toNat * 4
        if dataOff < 20 ∨ pktLen < l3Off + ihl + dataOff then .error (-1)
        else .ok ⟨l3Off, ihl, dataOff⟩

/-- The loop over the options: the offset of the MSS option that it stops at. -/
def mssOption (pkt : Bytes) (tcp optEnd : ℕ) : ℕ → ℕ → Option ℕ
  | 0, _ => none
  | fuel + 1, optOff =>
    if optOff + 1 < optEnd then
      let kind := pkt.getD (tcp + optOff) 0
      let olen := (pkt.getD (tcp + optOff + 1) 0).toNat
      if kind = 0 then none
      else if kind = 1 then mssOption pkt tcp optEnd fuel (optOff + 1)
      else if olen < 2 ∨ optEnd < optOff + olen then none
      else if kind = 2 ∧ olen = 4 ∧ optOff + 4 ≤ optEnd then some optOff
      else mssOption pkt tcp optEnd fuel (optOff + olen)
    else none

/-- The MSS option of a SYN. -/
def SynHeader.mss (h : SynHeader) (pkt : Bytes) : Option ℕ :=
  mssOption pkt h.tcp h.dataOff h.dataOff 20

/-- `tcp_checksum_replace_word`. -/
def tcpChecksumReplaceWord (pkt : Bytes) (tcp oldWord newWord : ℕ) : Bytes :=
  if oldWord = newWord then pkt
  else blit pkt (tcp + 16) (be16 (replaceWord (ethReadEt pkt (tcp + 16)) oldWord newWord))

/-- What `crypto_tcp_clamp_mss` takes off the path MTU, in 32 bits. -/
def SynHeader.wire (h : SynHeader) (wireOverhead : UInt32) : UInt32 :=
  UInt32.ofNat h.ihl + 20 + wireOverhead

/-- `mss_cap`. -/
def SynHeader.mssCap (h : SynHeader) (pathMtu wireOverhead : UInt32) : ℕ :=
  let mssCap := pathMtu - UInt32.ofNat h.ihl - 20 - wireOverhead
  let mssCap := if mssCap < 536 then 536 else mssCap
  if 0xFFFF < mssCap then 0xFFFF else mssCap.toNat

/-- `crypto_tcp_clamp_mss`, and what it returns. -/
def cryptoTcpClampMss (pkt : Bytes) (pktLen : ℕ) (pathMtu wireOverhead : UInt32) : Bytes × ℤ :=
  if pathMtu < 576 then (pkt, -1)
  else
    match synHeader pkt pktLen with
    | .error code => (pkt, code)
    | .ok h =>
      if pathMtu ≤ h.wire wireOverhead then (pkt, -1)
      else
        match h.mss pkt with
        | none => (pkt, 0)
        | some optOff =>
          let oldMss := ethReadEt pkt (h.tcp + optOff + 2)
          let newMss := min oldMss (h.mssCap pathMtu wireOverhead)
          if newMss = oldMss then (pkt, 0)
          else
            (tcpChecksumReplaceWord (blit pkt (h.tcp + optOff + 2) (be16 newMss)) h.tcp oldMss
              newMss, 1)

/-! ### What the clamp should do -/

namespace SynHeader

variable (h : SynHeader) (pkt : Bytes)

/-- The total length of the IPv4 packet. -/
def totalLen : ℕ := ethReadEt pkt (h.l3Off + 2)

/-- The length of the TCP segment. -/
def tcpLen : ℕ := h.totalLen pkt - h.ihl

/-- What the TCP checksum covers: the pseudo header and the segment. -/
def covered : Bytes :=
  slice pkt (h.l3Off + 12) 8 ++ [0, 6] ++ be16 (h.tcpLen pkt) ++ slice pkt h.tcp (h.tcpLen pkt)

/-- The segment holds its header, the frame holds the segment, and the checksum is correct. -/
structure Valid (pktLen : ℕ) : Prop where
  header : h.ihl + h.dataOff ≤ h.totalLen pkt
  inside : h.l3Off + h.totalLen pkt ≤ pktLen
  accepted : Accepts (h.covered pkt)

/-- The value of the MSS option at an offset. -/
def mssValue (optOff : ℕ) : ℕ := ethReadEt pkt (h.tcp + optOff + 2)

/-- What a frame with a correct checksum should be after the clamp. -/
structure Clamped (pktLen : ℕ) (pathMtu wireOverhead : UInt32) (pkt' : Bytes) : Prop where
  valid : h.Valid pkt' pktLen
  length : pkt'.length = pkt.length
  others : ∀ i, i ≠ h.tcp + 16 → i ≠ h.tcp + 17 →
    (∀ optOff, h.mss pkt = some optOff → i ≠ h.tcp + optOff + 2 ∧ i ≠ h.tcp + optOff + 3) →
    pkt'.getD i 0 = pkt.getD i 0
  lowered : ∀ optOff, h.mss pkt = some optOff → h.mssValue pkt' optOff ≤ h.mssValue pkt optOff
  capped : 576 ≤ pathMtu.toNat → h.ihl + 20 + wireOverhead.toNat < pathMtu.toNat →
    ∀ optOff, h.mss pkt = some optOff →
      h.mssValue pkt' optOff ≤ max 536 (pathMtu.toNat - h.ihl - 20 - wireOverhead.toNat)
  kept : ¬(576 ≤ pathMtu.toNat ∧ h.ihl + 20 + wireOverhead.toNat < pathMtu.toNat) → pkt' = pkt

/-- The MSS option that the code lowers. -/
structure Lowers (pathMtu wireOverhead : UInt32) (optOff : ℕ) : Prop where
  large : 576 ≤ pathMtu
  room : h.wire wireOverhead < pathMtu
  found : h.mss pkt = some optOff
  above : h.mssCap pathMtu wireOverhead < h.mssValue pkt optOff

end SynHeader

/-! ### Words of a frame -/

theorem slice_two {pkt : Bytes} {off : ℕ} (inside : off + 2 ≤ pkt.length) :
    slice pkt off 2 = [pkt.getD off 0, pkt.getD (off + 1) 0] := by
  rw [slice, List.drop_eq_getElem_cons (by omega), List.drop_eq_getElem_cons (by omega),
    List.getD_eq_getElem?_getD, List.getD_eq_getElem?_getD, List.getElem?_eq_getElem (by omega),
    List.getElem?_eq_getElem (by omega)]
  rfl

theorem length_be16 (v : ℕ) : (be16 v).length = 2 := rfl

theorem be16_toNat {v : ℕ} (small : v < 65536) :
    (UInt8.ofNat (v / 256)).toNat = v / 256 ∧ (UInt8.ofNat (v % 256)).toNat = v % 256 := by
  rw [UInt8.toNat_ofNat', UInt8.toNat_ofNat']
  omega

theorem ethReadEt_lt (pkt : Bytes) (off : ℕ) : ethReadEt pkt off < 65536 := by
  have high := (pkt.getD off 0).toNat_lt
  have low := (pkt.getD (off + 1) 0).toNat_lt
  rw [ethReadEt]
  omega

/-- The bytes outside of a write. -/
theorem getD_blit_of_ne {pkt data : Bytes} {off i : ℕ} (inside : off + data.length ≤ pkt.length)
    (outside : i < off ∨ off + data.length ≤ i) : (blit pkt off data).getD i 0 = pkt.getD i 0 := by
  have first : (pkt.take off).length = off := List.length_take_of_le (by omega)
  rw [List.getD_eq_getElem?_getD, List.getD_eq_getElem?_getD, blit]
  rcases outside with before | behind
  · rw [List.append_assoc, List.getElem?_append_left (by omega), List.getElem?_take_of_lt before]
  · rw [List.getElem?_append_right (by rw [List.length_append]; omega), List.length_append, first,
      List.getElem?_drop]
    congr 2
    omega

theorem ethReadEt_blit_of_ne {pkt data : Bytes} {off i : ℕ}
    (inside : off + data.length ≤ pkt.length) (outside : i + 2 ≤ off ∨ off + data.length ≤ i) :
    ethReadEt (blit pkt off data) i = ethReadEt pkt i := by
  rw [ethReadEt, ethReadEt, getD_blit_of_ne inside (by omega), getD_blit_of_ne inside (by omega)]

theorem ethReadEt_blit {pkt : Bytes} {off v : ℕ} (inside : off + 2 ≤ pkt.length)
    (small : v < 65536) : ethReadEt (blit pkt off (be16 v)) off = v := by
  have length : (pkt.take off).length = off := List.length_take_of_le (by omega)
  have read := ethReadEt_append (pkt.take off) (pkt.drop (off + 2)) (UInt8.ofNat (v / 256))
    (UInt8.ofNat (v % 256))
  rw [length, (be16_toNat small).1, (be16_toNat small).2] at read
  rw [blit, List.append_assoc, length_be16, be16, List.cons_append, List.cons_append,
    List.nil_append, read]
  omega

/-! ### The header and the option -/

theorem synHeader_ok {pkt : Bytes} {pktLen : ℕ} {h : SynHeader}
    (syn : synHeader pkt pktLen = .ok h) :
    20 ≤ h.ihl ∧ h.ihl ≤ 1020 ∧ 20 ≤ h.dataOff ∧ h.tcp + h.dataOff ≤ pktLen := by
  unfold synHeader at syn
  split at syn
  · cases syn
  · rename_i l3Off found
    have low := (pkt.getD l3Off 0 &&& 0x0F).toNat_lt
    split at syn
    · cases syn
    split at syn
    · cases syn
    split at syn
    · cases syn
    dsimp only at syn
    split at syn
    · cases syn
    split at syn
    · cases syn
    split at syn
    · cases syn
    · cases syn
      simp only [SynHeader.tcp]
      omega

theorem synHeader_l3Off {pkt : Bytes} {pktLen : ℕ} {h : SynHeader}
    (syn : synHeader pkt pktLen = .ok h) : cryptoEthIpv4Offset pkt pktLen = some h.l3Off := by
  unfold synHeader at syn
  split at syn
  · cases syn
  · rename_i l3Off found
    split at syn
    · cases syn
    split at syn
    · cases syn
    split at syn
    · cases syn
    dsimp only at syn
    split at syn
    · cases syn
    split at syn
    · cases syn
    split at syn
    · cases syn
    · cases syn
      exact found

theorem mssOption_some {pkt : Bytes} {tcp optEnd fuel off optOff : ℕ}
    (found : mssOption pkt tcp optEnd fuel off = some optOff) :
    off ≤ optOff ∧ optOff + 4 ≤ optEnd := by
  induction fuel generalizing off with
  | zero => cases found
  | succ fuel ih =>
    rw [mssOption] at found
    split at found
    · dsimp only at found
      split at found
      · cases found
      split at found
      · have later := ih found
        omega
      split at found
      · cases found
      split at found
      · cases found
        omega
      · have later := ih found
        omega
    · cases found

/-- The loop has rounds for all options. -/
theorem mssOption_enough {pkt : Bytes} {tcp optEnd fuel off : ℕ} (enough : optEnd ≤ off + fuel) :
    mssOption pkt tcp optEnd (fuel + 1) off = mssOption pkt tcp optEnd fuel off := by
  induction fuel generalizing off with
  | zero =>
    unfold mssOption
    rw [if_neg (by omega)]
  | succ fuel ih =>
    conv_lhs => unfold mssOption
    conv_rhs => unfold mssOption
    dsimp only
    split
    · rename_i inside
      split
      · rfl
      split
      · exact ih (by omega)
      split
      · rfl
      split
      · rfl
      · rename_i fits _
        exact ih (by omega)
    · rfl

/-! ### What the clamp does -/

theorem clamp_of_error {pkt : Bytes} {pktLen : ℕ} {code : ℤ} (pathMtu wireOverhead : UInt32)
    (refused : synHeader pkt pktLen = .error code) :
    (cryptoTcpClampMss pkt pktLen pathMtu wireOverhead).1 = pkt := by
  unfold cryptoTcpClampMss
  rw [refused]
  split <;> rfl

section

variable {pkt : Bytes} {pktLen : ℕ} {h : SynHeader} {pathMtu wireOverhead : UInt32}

theorem wire_toNat (h : SynHeader) (wireOverhead : UInt32) :
    (h.wire wireOverhead).toNat = (h.ihl + 20 + wireOverhead.toNat) % 2 ^ 32 := by
  have twenty : (20 : UInt32).toNat = 20 := rfl
  rw [SynHeader.wire, UInt32.toNat_add, UInt32.toNat_add, UInt32.toNat_ofNat', twenty]
  omega

theorem mssCap_eq (room : h.wire wireOverhead < pathMtu) :
    h.mssCap pathMtu wireOverhead =
      min 65535 (max 536 (pathMtu.toNat - (h.wire wireOverhead).toNat)) := by
  have together : pathMtu - UInt32.ofNat h.ihl - 20 - wireOverhead =
      pathMtu - h.wire wireOverhead := by
    have header := (UInt32.ofNat h.ihl).toNat_lt
    have overhead := wireOverhead.toNat_lt
    have twenty : (20 : UInt32).toNat = 20 := rfl
    refine UInt32.toNat_inj.mp ?_
    rw [SynHeader.wire]
    simp only [UInt32.toNat_sub, UInt32.toNat_add, twenty]
    omega
  have value := UInt32.toNat_sub_of_le _ _ (UInt32.le_of_lt room)
  have least : (536 : UInt32).toNat = 536 := rfl
  have most : (0xFFFF : UInt32).toNat = 65535 := rfl
  rw [SynHeader.mssCap, together]
  split
  · rename_i below
    rw [UInt32.lt_iff_toNat_lt, least, value] at below
    rw [if_neg (by decide), least]
    omega
  · rename_i above
    rw [UInt32.lt_iff_toNat_lt, least, value] at above
    split
    · rename_i beyond
      rw [UInt32.lt_iff_toNat_lt, most, value] at beyond
      omega
    · rename_i within
      rw [UInt32.lt_iff_toNat_lt, most, value] at within
      omega

/-- The two writes of the clamp. -/
def clampWrites (pkt : Bytes) (tcp optOff oldMss newMss : ℕ) : Bytes :=
  blit (blit pkt (tcp + optOff + 2) (be16 newMss)) (tcp + 16)
    (be16 (replaceWord (ethReadEt pkt (tcp + 16)) oldMss newMss))

theorem clamp_of_not_lowers (syn : synHeader pkt pktLen = .ok h)
    (none_above : ∀ optOff, ¬h.Lowers pkt pathMtu wireOverhead optOff) :
    (cryptoTcpClampMss pkt pktLen pathMtu wireOverhead).1 = pkt := by
  unfold cryptoTcpClampMss
  split
  · rfl
  · rename_i large
    rw [syn]
    dsimp only
    split
    · rfl
    · rename_i room
      split
      · rfl
      · rename_i optOff found
        split
        · rfl
        · rename_i changed
          refine absurd ⟨UInt32.not_lt.mp large, UInt32.not_le.mp room, found, ?_⟩ (none_above optOff)
          rw [SynHeader.mssValue]
          omega

theorem clamp_of_lowers (fits : pktLen ≤ pkt.length) (syn : synHeader pkt pktLen = .ok h)
    {optOff : ℕ} (lowers : h.Lowers pkt pathMtu wireOverhead optOff) :
    (cryptoTcpClampMss pkt pktLen pathMtu wireOverhead).1 =
      clampWrites pkt h.tcp optOff (h.mssValue pkt optOff) (h.mssCap pathMtu wireOverhead) := by
  obtain ⟨-, -, -, inside⟩ := synHeader_ok syn
  obtain ⟨low, high⟩ := mssOption_some lowers.found
  have above : h.mssCap pathMtu wireOverhead < ethReadEt pkt (h.tcp + optOff + 2) := lowers.above
  have least : min (ethReadEt pkt (h.tcp + optOff + 2)) (h.mssCap pathMtu wireOverhead) =
      h.mssCap pathMtu wireOverhead := by omega
  rw [cryptoTcpClampMss, if_neg (UInt32.not_lt.mpr lowers.large), syn]
  dsimp only
  rw [if_neg (UInt32.not_le.mpr lowers.room), lowers.found]
  dsimp only
  rw [least, if_neg (by omega), tcpChecksumReplaceWord, if_neg (by omega),
    ethReadEt_blit_of_ne (by rw [length_be16]; omega) (by omega)]
  rfl

/-- What the writes are made in. -/
structure Room (pkt : Bytes) (tcp optOff : ℕ) : Prop where
  behind : 20 ≤ optOff
  inside : tcp + optOff + 4 ≤ pkt.length

variable {tcp optOff oldMss newMss : ℕ}

theorem length_clampWrites (room : Room pkt tcp optOff) :
    (clampWrites pkt tcp optOff oldMss newMss).length = pkt.length := by
  have inside := room.inside
  have behind := room.behind
  rw [clampWrites, length_blit, length_blit (by rw [length_be16]; omega)]
  rw [length_blit (by rw [length_be16]; omega), length_be16]
  omega

theorem getD_clampWrites_of_ne (room : Room pkt tcp optOff) {i : ℕ}
    (outside : i ≠ tcp + 16 ∧ i ≠ tcp + 17 ∧ i ≠ tcp + optOff + 2 ∧ i ≠ tcp + optOff + 3) :
    (clampWrites pkt tcp optOff oldMss newMss).getD i 0 = pkt.getD i 0 := by
  have inside := room.inside
  have behind := room.behind
  have first : (blit pkt (tcp + optOff + 2) (be16 newMss)).length = pkt.length :=
    length_blit (by rw [length_be16]; omega)
  rw [clampWrites, getD_blit_of_ne (by rw [first, length_be16]; omega) (by rw [length_be16]; omega),
    getD_blit_of_ne (by rw [length_be16]; omega) (by rw [length_be16]; omega)]

theorem ethReadEt_clampWrites_mss (oldMss : ℕ) (room : Room pkt tcp optOff) (small : newMss < 65536) :
    ethReadEt (clampWrites pkt tcp optOff oldMss newMss) (tcp + optOff + 2) = newMss := by
  have inside := room.inside
  have behind := room.behind
  have first : (blit pkt (tcp + optOff + 2) (be16 newMss)).length = pkt.length :=
    length_blit (by rw [length_be16]; omega)
  rw [clampWrites, ethReadEt_blit_of_ne (by rw [first, length_be16]; omega)
    (by rw [length_be16]; omega), ethReadEt_blit (by omega) small]

/-- The headers before the TCP header stay. -/
theorem slice_clampWrites_before (room : Room pkt tcp optOff) {a n : ℕ} (before : a + n ≤ tcp) :
    slice (clampWrites pkt tcp optOff oldMss newMss) a n = slice pkt a n := by
  have inside := room.inside
  have behind := room.behind
  have first : (blit pkt (tcp + optOff + 2) (be16 newMss)).length = pkt.length :=
    length_blit (by rw [length_be16]; omega)
  rw [clampWrites, slice_blit_before (by omega) (by omega),
    slice_blit_before (by omega) (by omega)]

/-- The clamp leaves the packet as it is, or writes behind its IPv4 header. -/
theorem clamp_cases (pathMtu wireOverhead : UInt32) (fits : pktLen ≤ pkt.length) :
    (cryptoTcpClampMss pkt pktLen pathMtu wireOverhead).1 = pkt ∨
      ∃ tcp optOff oldMss newMss, 34 ≤ tcp ∧ Room pkt tcp optOff ∧
        (cryptoTcpClampMss pkt pktLen pathMtu wireOverhead).1 =
          clampWrites pkt tcp optOff oldMss newMss := by
  cases syn : synHeader pkt pktLen with
  | error code => exact .inl (clamp_of_error pathMtu wireOverhead syn)
  | ok h =>
    by_cases lowered : ∃ optOff, h.Lowers pkt pathMtu wireOverhead optOff
    · obtain ⟨optOff, lowers⟩ := lowered
      obtain ⟨ihlLow, -, dataLow, inside⟩ := synHeader_ok syn
      obtain ⟨low, high⟩ := mssOption_some lowers.found
      obtain ⟨etOff, behind, found, -, -⟩ := ipv4Offset_some (synHeader_l3Off syn)
      have place := (innerEtOff_cases found).2.2
      exact .inr ⟨h.tcp, optOff, _, _, by rw [SynHeader.tcp]; omega, ⟨low, by omega⟩,
        clamp_of_lowers fits syn lowers⟩
    · exact .inl (clamp_of_not_lowers syn fun optOff h => lowered ⟨optOff, h⟩)

theorem length_clamp (pathMtu wireOverhead : UInt32) (fits : pktLen ≤ pkt.length) :
    (cryptoTcpClampMss pkt pktLen pathMtu wireOverhead).1.length = pkt.length := by
  rcases clamp_cases pathMtu wireOverhead fits with same | ⟨tcp, optOff, old, new, -, room, writes⟩
  · rw [same]
  · rw [writes, length_clampWrites room]

/-- The Ethernet header and the fixed part of the IPv4 header stay. -/
theorem take_clamp (pathMtu wireOverhead : UInt32) (fits : pktLen ≤ pkt.length) :
    (cryptoTcpClampMss pkt pktLen pathMtu wireOverhead).1.take 34 = pkt.take 34 := by
  rcases clamp_cases pathMtu wireOverhead fits with
    same | ⟨tcp, optOff, old, new, behind, room, writes⟩
  · rw [same]
  · rw [writes]
    exact @slice_clampWrites_before _ _ _ old new room 0 34 (by omega)

/-- The writes as seen in the segment. -/
theorem slice_clampWrites (room : Room pkt tcp optOff) {n : ℕ} (segment : optOff + 4 ≤ n)
    (fits : tcp + n ≤ pkt.length) :
    slice (clampWrites pkt tcp optOff oldMss newMss) tcp n =
      blit (blit (slice pkt tcp n) (optOff + 2) (be16 newMss)) 16
        (be16 (replaceWord (ethReadEt pkt (tcp + 16)) oldMss newMss)) := by
  have behind := room.behind
  have first : (blit pkt (tcp + optOff + 2) (be16 newMss)).length = pkt.length :=
    length_blit (by rw [length_be16]; omega)
  rw [clampWrites, slice_blit_inside (by rw [length_be16]; omega) (by omega), Nat.add_assoc,
    slice_blit_inside (by rw [length_be16]; omega) fits]

theorem slice_segment {n off : ℕ} (inside : off + 2 ≤ n) (fits : tcp + n ≤ pkt.length) :
    slice (slice pkt tcp n) off 2 = [pkt.getD (tcp + off) 0, pkt.getD (tcp + off + 1) 0] := by
  rw [slice_slice inside, slice_two (by omega)]

/-- The write of the checksum, as the sum of the segment sees it. -/
theorem wordSum_clampWrites (oldMss newMss : ℕ) (room : Room pkt tcp optOff) {n : ℕ} (segment : optOff + 4 ≤ n)
    (fits : tcp + n ≤ pkt.length) :
    wordSum (slice (clampWrites pkt tcp optOff oldMss newMss) tcp n) + ethReadEt pkt (tcp + 16) =
      wordSum (blit (slice pkt tcp n) (optOff + 2) (be16 newMss)) +
        replaceWord (ethReadEt pkt (tcp + 16)) oldMss newMss := by
  have behind := room.behind
  have length := length_slice fits
  have check := be16_toNat (replaceWord_lt (ethReadEt pkt (tcp + 16)) oldMss newMss)
  have old : slice (blit (slice pkt tcp n) (optOff + 2) (be16 newMss)) 16 2 = _ :=
    (slice_blit_before (by omega) (by omega)).trans (slice_segment (by omega) fits)
  have sum := wordSum_blit_even
    (c := UInt8.ofNat (replaceWord (ethReadEt pkt (tcp + 16)) oldMss newMss / 256))
    (d := UInt8.ofNat (replaceWord (ethReadEt pkt (tcp + 16)) oldMss newMss % 256))
    (by decide) (by rw [length_blit (by rw [length_be16]; omega)]; omega) old
  rw [check.1, check.2] at sum
  change wordSum (blit _ 16 (be16 _)) + _ = _ at sum
  have read : ethReadEt pkt (tcp + 16) = (pkt.getD (tcp + 16) 0).toNat * 256 +
    (pkt.getD (tcp + 16 + 1) 0).toNat := rfl
  rw [slice_clampWrites room segment fits]
  omega

theorem wordSum_option_even {n : ℕ} (segment : optOff + 4 ≤ n) (fits : tcp + n ≤ pkt.length)
    (small : newMss < 65536) (even : optOff % 2 = 0) :
    wordSum (blit (slice pkt tcp n) (optOff + 2) (be16 newMss)) +
        ((pkt.getD (tcp + optOff + 2) 0).toNat * 256 +
          (pkt.getD (tcp + optOff + 2 + 1) 0).toNat) =
      wordSum (slice pkt tcp n) + (newMss / 256 * 256 + newMss % 256) := by
  have length := length_slice fits
  have value := be16_toNat small
  have sum := wordSum_blit_even (c := UInt8.ofNat (newMss / 256)) (d := UInt8.ofNat (newMss % 256))
    (by omega) (by omega) (slice_segment (by omega : optOff + 2 + 2 ≤ n) fits)
  rwa [value.1, value.2] at sum

theorem wordSum_option_odd {n : ℕ} (segment : optOff + 4 ≤ n) (fits : tcp + n ≤ pkt.length)
    (small : newMss < 65536) (odd : optOff % 2 = 1) :
    wordSum (blit (slice pkt tcp n) (optOff + 2) (be16 newMss)) +
        ((pkt.getD (tcp + optOff + 2) 0).toNat +
          (pkt.getD (tcp + optOff + 2 + 1) 0).toNat * 256) =
      wordSum (slice pkt tcp n) + (newMss / 256 + newMss % 256 * 256) := by
  have length := length_slice fits
  have value := be16_toNat small
  have sum := wordSum_blit_odd (c := UInt8.ofNat (newMss / 256)) (d := UInt8.ofNat (newMss % 256))
    (by omega) (by omega) (slice_segment (by omega : optOff + 2 + 2 ≤ n) fits)
  rwa [value.1, value.2] at sum

theorem totalLen_clampWrites (oldMss newMss : ℕ) (room : Room pkt h.tcp optOff) (behind : 20 ≤ h.ihl) :
    h.totalLen (clampWrites pkt h.tcp optOff oldMss newMss) = h.totalLen pkt := by
  have place : h.tcp = h.l3Off + h.ihl := rfl
  rw [SynHeader.totalLen, ethReadEt, getD_clampWrites_of_ne room (by omega),
    getD_clampWrites_of_ne room (by omega)]
  rfl

/-- The pseudo header stays. -/
theorem covered_clampWrites (room : Room pkt h.tcp optOff) (behind : 20 ≤ h.ihl) :
    h.covered (clampWrites pkt h.tcp optOff oldMss newMss) =
      slice pkt (h.l3Off + 12) 8 ++ [0, 6] ++ be16 (h.tcpLen pkt) ++
        slice (clampWrites pkt h.tcp optOff oldMss newMss) h.tcp (h.tcpLen pkt) := by
  have place : h.tcp = h.l3Off + h.ihl := rfl
  rw [SynHeader.covered, slice_clampWrites_before room (by omega), SynHeader.tcpLen,
    totalLen_clampWrites oldMss newMss room behind]
  rfl

theorem wordSum_covered (pkt' : Bytes) (pseudo : h.l3Off + 20 ≤ pkt.length) :
    wordSum (slice pkt (h.l3Off + 12) 8 ++ [0, 6] ++ be16 (h.tcpLen pkt) ++ pkt') =
      wordSum (slice pkt (h.l3Off + 12) 8 ++ [0, 6] ++ be16 (h.tcpLen pkt)) + wordSum pkt' := by
  have length : (slice pkt (h.l3Off + 12) 8 ++ [0, 6] ++ be16 (h.tcpLen pkt)).length = 12 := by
    rw [List.length_append, List.length_append, length_slice (by omega)]
    rfl
  rw [wordSum_append, length, if_pos (by decide)]

theorem wordSum_pseudo_pos (pseudo : h.l3Off + 20 ≤ pkt.length) :
    0 < wordSum (slice pkt (h.l3Off + 12) 8 ++ [0, 6] ++ be16 (h.tcpLen pkt)) := by
  have length : (slice pkt (h.l3Off + 12) 8).length = 8 := length_slice (by omega)
  rw [List.append_assoc, wordSum_append, length, if_pos (by decide)]
  simp only [List.cons_append, wordSum]
  have six : (6 : UInt8).toNat = 6 := rfl
  omega

/-- Where the option stands on a word the checksum stays correct; where it does not, only a
difference that 257 divides leaves it correct. -/
theorem accepts_clampWrites (room : Room pkt h.tcp optOff) (behind : 20 ≤ h.ihl)
    (valid : h.Valid pkt pktLen) (fits : pktLen ≤ pkt.length) (inside : optOff + 4 ≤ h.dataOff)
    (lower : newMss ≤ h.mssValue pkt optOff) :
    Accepts (h.covered (clampWrites pkt h.tcp optOff (h.mssValue pkt optOff) newMss)) ↔
      optOff % 2 = 0 ∨ 257 ∣ h.mssValue pkt optOff - newMss := by
  have place : h.tcp = h.l3Off + h.ihl := rfl
  have header := valid.header
  have within := valid.inside
  have length : h.tcpLen pkt = h.totalLen pkt - h.ihl := rfl
  have segment : optOff + 4 ≤ h.tcpLen pkt := by omega
  have frame : h.tcp + h.tcpLen pkt ≤ pkt.length := by omega
  have small : newMss < 65536 := lower.trans_lt (ethReadEt_lt pkt _)
  have checkLt := ethReadEt_lt pkt (h.tcp + 16)
  have oldLt := ethReadEt_lt pkt (h.tcp + optOff + 2)
  have halves : newMss / 256 * 256 + newMss % 256 = newMss := by omega
  have pseudo : h.l3Off + 20 ≤ pkt.length := by omega
  have written := wordSum_clampWrites (h.mssValue pkt optOff) newMss room segment frame
  have covered := wordSum_covered
    (slice (clampWrites pkt h.tcp optOff (h.mssValue pkt optOff) newMss) h.tcp (h.tcpLen pkt))
    pseudo
  have original : wordSum (h.covered pkt) = _ :=
    wordSum_covered (slice pkt h.tcp (h.tcpLen pkt)) pseudo
  have positive := wordSum_pseudo_pos pseudo
  rw [← covered_clampWrites room behind] at covered
  have nonzero : wordSum (h.covered
      (clampWrites pkt h.tcp optOff (h.mssValue pkt optOff) newMss)) ≠ 0 := by omega
  have value : h.mssValue pkt optOff = (pkt.getD (h.tcp + optOff + 2) 0).toNat * 256 +
    (pkt.getD (h.tcp + optOff + 2 + 1) 0).toNat := rfl
  rcases Nat.mod_two_eq_zero_or_one optOff with even | odd
  · have option := wordSum_option_even segment frame small even
    refine iff_of_true (accepts_of_word valid.accepted nonzero checkLt oldLt
      (c := newMss / 256) (d := newMss % 256) ?_) (.inl even)
    rw [← value, halves] at option ⊢
    omega
  · have option := wordSum_option_odd segment frame small odd
    have chance := accepts_of_swapped valid.accepted nonzero checkLt oldLt
      (c := newMss / 256) (d := newMss % 256) (by rw [halves]; exact lower) (by
        rw [← value, halves]
        omega)
    rw [← value, halves] at chance
    rw [chance]
    exact ⟨.inr, fun either => either.resolve_left (by omega)⟩

/-- A frame is clamped as it should be just when the option that is lowered stands on a word of the
segment, or 257 divides the difference, and the overhead does not overflow. -/
theorem clamped_iff (fits : pktLen ≤ pkt.length) (syn : synHeader pkt pktLen = .ok h)
    (valid : h.Valid pkt pktLen) :
    h.Clamped pkt pktLen pathMtu wireOverhead
        (cryptoTcpClampMss pkt pktLen pathMtu wireOverhead).1 ↔
      ∀ optOff, h.Lowers pkt pathMtu wireOverhead optOff →
        h.ihl + 20 + wireOverhead.toNat < 2 ^ 32 ∧
          (optOff % 2 = 0 ∨ 257 ∣ h.mssValue pkt optOff - h.mssCap pathMtu wireOverhead) := by
  obtain ⟨ihlLow, ihlHigh, dataLow, inside⟩ := synHeader_ok syn
  have wire := wire_toNat h wireOverhead
  by_cases lowered : ∃ optOff, h.Lowers pkt pathMtu wireOverhead optOff
  · obtain ⟨optOff, lowers⟩ := lowered
    obtain ⟨low, high⟩ := mssOption_some lowers.found
    have mtuLt := pathMtu.toNat_lt
    have above : h.mssCap pathMtu wireOverhead < h.mssValue pkt optOff := lowers.above
    have capLt : h.mssCap pathMtu wireOverhead < 65536 := above.trans (ethReadEt_lt pkt _)
    have room : Room pkt h.tcp optOff := ⟨low, by omega⟩
    have only (o : ℕ) (found : h.mss pkt = some o) : o = optOff := by
      rw [lowers.found] at found
      exact (Option.some.inj found).symm
    have parity := accepts_clampWrites room ihlLow valid fits high above.le
    have written := ethReadEt_clampWrites_mss (h.mssValue pkt optOff) room capLt
    have total := totalLen_clampWrites (h.mssValue pkt optOff) (h.mssCap pathMtu wireOverhead) room
      ihlLow
    rw [clamp_of_lowers fits syn lowers]
    constructor
    · intro clamped o lowers'
      obtain rfl := only o lowers'.found
      refine ⟨?_, parity.mp clamped.valid.accepted⟩
      by_contra overflow
      rw [clamped.kept (by omega)] at written
      exact absurd written above.ne'
    · intro when
      obtain ⟨noOverflow, aligned⟩ := when optOff lowers
      have large := UInt32.le_iff_toNat_le.mp lowers.large
      have under := UInt32.lt_iff_toNat_lt.mp lowers.room
      refine ⟨⟨?_, ?_, parity.mpr aligned⟩, length_clampWrites room, ?_, ?_, ?_, ?_⟩
      · rw [total]
        exact valid.header
      · rw [total]
        exact valid.inside
      · intro i high low option
        exact getD_clampWrites_of_ne room ⟨high, low, option optOff lowers.found⟩
      · intro o found
        obtain rfl := only o found
        exact written.trans_le above.le
      · intro _ _ o found
        obtain rfl := only o found
        refine written.trans_le ?_
        rw [mssCap_eq lowers.room]
        omega
      · intro small
        exact absurd ⟨large, by omega⟩ small
  · push Not at lowered
    rw [clamp_of_not_lowers syn lowered]
    refine iff_of_true ⟨valid, rfl, fun _ _ _ _ => rfl, fun _ _ => le_rfl, ?_, fun _ => rfl⟩
      fun optOff lowers => absurd lowers (lowered optOff)
    intro large room optOff found
    have mtuLt := pathMtu.toNat_lt
    have under : (h.wire wireOverhead).toNat < pathMtu.toNat := by omega
    by_contra above
    refine lowered optOff ⟨UInt32.le_iff_toNat_le.mpr large, UInt32.lt_iff_toNat_lt.mpr under, found,
      ?_⟩
    rw [mssCap_eq (UInt32.lt_iff_toNat_lt.mpr under)]
    omega

/-- The option that a word holds: a SYN with one MSS option of 1460, as both callers clamp it. -/
theorem clamped_iff_aligned :
    let pkt : Bytes := [2, 0, 0, 0, 0, 1, 2, 0, 0, 0, 0, 2, 8, 0, 69, 0, 0, 44, 0, 0, 64, 0, 64, 6,
      0, 0, 10, 0, 0, 1, 192, 168, 0, 2, 156, 64, 0, 80, 0, 0, 0, 1, 0, 0, 0, 0, 96, 2, 250, 240,
      53, 249, 0, 0, 2, 4, 5, 180]
    SynHeader.Clamped ⟨14, 20, 24⟩ pkt 58 1500 30 (cryptoTcpClampMss pkt 58 1500 30).1 ↔
      ∀ optOff, SynHeader.Lowers ⟨14, 20, 24⟩ pkt 1500 30 optOff →
        20 + 20 + (30 : UInt32).toNat < 2 ^ 32 ∧ (optOff % 2 = 0 ∨
          257 ∣ SynHeader.mssValue ⟨14, 20, 24⟩ pkt optOff -
            SynHeader.mssCap ⟨14, 20, 24⟩ 1500 30) := by
  intro pkt
  exact clamped_iff (by decide) (by decide) ⟨by decide, by decide, by decide +kernel⟩

/-- An MSS option behind one NOP: the checksum of the clamped SYN is wrong. -/
theorem not_clamped_odd :
    let pkt : Bytes := [2, 0, 0, 0, 0, 1, 2, 0, 0, 0, 0, 2, 8, 0, 69, 0, 0, 48, 0, 0, 64, 0, 64, 6,
      0, 0, 10, 0, 0, 1, 192, 168, 0, 2, 156, 64, 0, 80, 0, 0, 0, 1, 0, 0, 0, 0, 112, 2, 250, 240,
      115, 163, 0, 0, 1, 2, 4, 5, 180, 1, 1, 1]
    synHeader pkt 62 = .ok ⟨14, 20, 28⟩ ∧ SynHeader.Valid ⟨14, 20, 28⟩ pkt 62 ∧
      ¬SynHeader.Clamped ⟨14, 20, 28⟩ pkt 62 1500 30 (cryptoTcpClampMss pkt 62 1500 30).1 := by
  intro pkt
  refine ⟨by decide, ⟨by decide, by decide, by decide +kernel⟩, fun clamped => ?_⟩
  have wrong : ¬Accepts (SynHeader.covered ⟨14, 20, 28⟩ (cryptoTcpClampMss pkt 62 1500 30).1) := by
    decide +kernel
  exact wrong clamped.valid.accepted

end

end NeEncryptor
