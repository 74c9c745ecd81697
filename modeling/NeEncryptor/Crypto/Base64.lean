import Mathlib.Data.BitVec
import Mathlib.Data.List.GetD
import Mathlib.Tactic.IntervalCases
import NeEncryptor.Crypto.EthParse

/-!
# The text form of the keys

The base64 encoder and decoders of `traffic_crypto.c`. A decoder walks the text four characters at a
time; what it reads of the text and of its inverse table is logged, since nothing checks either.
-/

namespace NeEncryptor

/-! ## Texts -/

/-- A NUL-terminated text, and the memory behind its terminator. -/
structure CString where
  chars : Bytes
  behind : ℕ → UInt8
  text : ∀ c ∈ chars, c ≠ 0

/-- `strlen`. -/
def CString.strlen (s : CString) : ℕ := s.chars.length

/-- The character at a position. -/
def CString.char (s : CString) (i : ℕ) : UInt8 :=
  if i < s.chars.length then s.chars.getD i 0
  else if i = s.chars.length then 0
  else s.behind (i - s.chars.length - 1)

variable {s : CString} {n i : ℕ}

theorem CString.char_strlen : s.char s.strlen = 0 := by
  rw [CString.char, CString.strlen, if_neg (Nat.lt_irrefl _), if_pos rfl]

theorem CString.char_ne_zero (inside : i < s.strlen) : s.char i ≠ 0 := by
  have inside : i < s.chars.length := inside
  rw [CString.char, if_pos inside, List.getD_eq_getElem _ _ inside]
  exact s.text _ (List.getElem_mem inside)

/-- A character of a stretch of the text. -/
theorem CString.char_append {before stretch after : Bytes} {k : ℕ}
    (chars : s.chars = before ++ stretch ++ after) (inside : k < stretch.length) :
    s.char (before.length + k) = stretch.getD k 0 := by
  have length : before.length + k < (before ++ stretch).length := by
    rw [List.length_append]
    omega
  have text : before.length + k < s.chars.length := by
    rw [chars, List.length_append]
    omega
  rw [CString.char, if_pos text, chars, List.getD_append _ _ _ _ length,
    List.getD_append_right _ _ _ _ (Nat.le_add_right ..), Nat.add_sub_cancel_left]

/-! ## The encoder -/

/-- `base64_chars`. -/
def base64Chars (k : BitVec 32) : UInt8 :=
  let k := k.toNat
  if k < 26 then UInt8.ofNat (65 + k)
  else if k < 52 then UInt8.ofNat (97 + (k - 26))
  else if k < 62 then UInt8.ofNat (48 + (k - 52))
  else if k = 62 then 43
  else 47

/-- A byte as the 32-bit number that the shifts work on. -/
def word (b : UInt8) : BitVec 32 := b.toBitVec.setWidth 32

/-- The character `=`. -/
def pad : UInt8 := 61

/-- The number of one turn of the encoder, from the bytes that are left of its three. -/
def encodeWord (b₀ : UInt8) (b₁ b₂ : Option UInt8) : BitVec 32 :=
  let v := word b₀ <<< 16
  let v : BitVec 32 := match b₁ with
    | some b₁ => v ||| word b₁ <<< 8
    | none => v
  match b₂ with
    | some b₂ => v ||| word b₂
    | none => v

/-- The four characters of one turn. -/
def encodeGroup (b₀ : UInt8) (b₁ b₂ : Option UInt8) : Bytes :=
  let v := encodeWord b₀ b₁ b₂
  [base64Chars (v >>> 18 &&& 0x3F), base64Chars (v >>> 12 &&& 0x3F),
    if b₁.isSome then base64Chars (v >>> 6 &&& 0x3F) else pad,
    if b₂.isSome then base64Chars (v &&& 0x3F) else pad]

/-- `trf_base64_encode`, without its terminator. -/
def trfBase64Encode : Bytes → Bytes
  | [] => []
  | [b₀] => encodeGroup b₀ none none
  | [b₀, b₁] => encodeGroup b₀ (some b₁) none
  | b₀ :: b₁ :: b₂ :: rest => encodeGroup b₀ (some b₁) (some b₂) ++ trfBase64Encode rest

/-- The XOR with the seed, over and over. -/
def xorSeed (seed : CString) (bytes : Bytes) : Bytes :=
  bytes.mapIdx fun i b => b ^^^ seed.char (i % seed.strlen)

/-- `trf_base64_encode_obfuscated`. -/
def trfBase64EncodeObfuscated (src : Bytes) (seed : CString) : Bytes :=
  trfBase64Encode (xorSeed seed src)

/-! ## The decoders -/

/-- `b64_inv` at its 256 indices. -/
def b64Inv (c : ℕ) : BitVec 32 :=
  if 65 ≤ c ∧ c ≤ 90 then BitVec.ofNat 32 (c - 65)
  else if 97 ≤ c ∧ c ≤ 122 then BitVec.ofNat 32 (c - 97 + 26)
  else if 48 ≤ c ∧ c ≤ 57 then BitVec.ofNat 32 (c - 48 + 52)
  else if c = 43 then 62
  else if c = 47 then 63
  else -1

/-- `(int)src[i]`: `char` is signed. -/
def charIndex (c : UInt8) : ℤ := c.toBitVec.toInt

/-- What a decoder wrote, the positions of the text it read, and the indices of the table that it
used. -/
structure DecodeRun where
  out : Bytes
  reads : List ℕ
  lookups : List ℤ
  deriving DecidableEq, Repr

/-- `*out_len`. -/
def DecodeRun.outLen (run : DecodeRun) : ℕ := run.out.length

def DecodeRun.append (run next : DecodeRun) : DecodeRun :=
  ⟨run.out ++ next.out, run.reads ++ next.reads, run.lookups ++ next.lookups⟩

/-- A byte of the assembled number. -/
def octet (v : BitVec 32) (shift : ℕ) : UInt8 := ⟨(v >>> shift &&& 0xFF).setWidth 8⟩

section Decoder

variable (outside : ℤ → BitVec 32) (s : CString)

/-- A lookup in `b64_inv`: what memory around the table holds is not the table's. -/
def b64Lookup (index : ℤ) : BitVec 32 :=
  if 0 ≤ index ∧ index ≤ 255 then b64Inv index.toNat else outside index

/-- One turn of a decoder. -/
def decodeGroup (i : ℕ) : DecodeRun :=
  let inv (c : UInt8) := b64Lookup outside (charIndex c)
  let v := inv (s.char i) <<< 18 ||| inv (s.char (i + 1)) <<< 12
  let first : DecodeRun :=
    ⟨[octet v 16], [i, i + 1], [charIndex (s.char i), charIndex (s.char (i + 1))]⟩
  let (v, second) : BitVec 32 × DecodeRun :=
    if s.char (i + 2) ≠ pad then
      let v := v ||| inv (s.char (i + 2)) <<< 6
      (v, ⟨[octet v 8], [i + 2], [charIndex (s.char (i + 2))]⟩)
    else (v, ⟨[], [i + 2], []⟩)
  let third : DecodeRun :=
    if s.char (i + 3) ≠ pad then
      let v := v ||| inv (s.char (i + 3))
      ⟨[octet v 0], [i + 3], [charIndex (s.char (i + 3))]⟩
    else ⟨[], [i + 3], []⟩
  (first.append second).append third

/-- The loop of a decoder from `i` on, where it leaves the loop at a character that `stop` names. -/
def decodeLoop (stop : UInt8 → Bool) : ℕ → ℕ → DecodeRun
  | 0, _ => ⟨[], [], []⟩
  | fuel + 1, i =>
    if i < s.strlen then
      if stop (s.char i) then ⟨[], [i], []⟩
      else (decodeGroup outside s i).append (decodeLoop stop fuel (i + 4))
    else ⟨[], [], []⟩

/-- `trf_base64_decode`. -/
def trfBase64Decode : DecodeRun :=
  decodeLoop outside s (fun c => c == 0) s.strlen 0

/-- `trf_base64_decode_obfuscated`: its loop does not look for the terminator. -/
def trfBase64DecodeObfuscated (seed : CString) : DecodeRun :=
  let run := decodeLoop outside s (fun _ => false) s.strlen 0
  { run with out := xorSeed seed run.out }

end Decoder

/-! ## What a decoder touches -/

section Safety

variable {outside : ℤ → BitVec 32} {s : CString} {stop : UInt8 → Bool} {fuel i : ℕ}

/-- The accesses are inside the text with its terminator, inside the table, and inside a buffer of
three bytes for each four characters. -/
structure Inside (s : CString) (run : DecodeRun) : Prop where
  reads : ∀ pos ∈ run.reads, pos ≤ s.strlen
  lookups : ∀ index ∈ run.lookups, 0 ≤ index ∧ index ≤ 255
  writes : run.out.length ≤ 3 * ((s.strlen + 3) / 4)

theorem charIndex_inside (c : UInt8) : (0 ≤ charIndex c ∧ charIndex c ≤ 255) ↔ c < 128 := by
  have size : c.toBitVec.toNat < 256 := c.toBitVec.isLt
  have small : c < 128 ↔ c.toBitVec.toNat < 128 := Iff.rfl
  rw [charIndex, BitVec.toInt_eq_toNat_cond, small]
  split <;> omega

theorem decodeGroup_reads : (∀ pos ∈ (decodeGroup outside s i).reads, pos ≤ n) ↔ i + 3 ≤ n := by
  have reads : (decodeGroup outside s i).reads = [i, i + 1, i + 2, i + 3] := by
    unfold decodeGroup DecodeRun.append
    split_ifs <;> rfl
  rw [reads]
  constructor
  · intro inside
    exact inside (i + 3) (by simp)
  · intro last pos mem
    simp only [List.mem_cons, List.not_mem_nil, or_false] at mem
    omega

/-- A padding character is in the table, so that its lookup may be taken for made. -/
theorem decodeGroup_lookups :
    (∀ index ∈ (decodeGroup outside s i).lookups, 0 ≤ index ∧ index ≤ 255) ↔
      ∀ k < 4, s.char (i + k) < 128 := by
  have padded {c : UInt8} (same : ¬ c ≠ pad) : c < 128 := by
    rw [not_not.mp same]
    decide
  have four : (∀ k < 4, s.char (i + k) < 128) ↔ s.char i < 128 ∧ s.char (i + 1) < 128 ∧
      s.char (i + 2) < 128 ∧ s.char (i + 3) < 128 := by
    constructor
    · intro all
      exact ⟨all 0 (by omega), all 1 (by omega), all 2 (by omega), all 3 (by omega)⟩
    · rintro ⟨first, second, third, fourth⟩ k small
      interval_cases k <;> assumption
  rw [four]
  unfold decodeGroup DecodeRun.append
  split_ifs with third fourth fourth <;>
    simp only [List.cons_append, List.nil_append, List.append_nil, List.forall_mem_cons,
      charIndex_inside, List.not_mem_nil, false_implies, implies_true, and_true]
  · rw [and_iff_left (padded fourth)]
  · rw [and_iff_right (padded third)]
  · exact ⟨fun ⟨first, second⟩ => ⟨first, second, padded third, padded fourth⟩,
      fun ⟨first, second, _⟩ => ⟨first, second⟩⟩

theorem decodeGroup_writes (outside : ℤ → BitVec 32) (s : CString) (i : ℕ) :
    (decodeGroup outside s i).out.length ≤ 3 := by
  unfold decodeGroup DecodeRun.append
  split_ifs <;> simp

/-- A loop that stops at the terminator alone goes on at every character of the text. -/
theorem decodeLoop_succ (terminator : ∀ c, stop c = true → c = 0) (more : i < s.strlen) :
    decodeLoop outside s stop (fuel + 1) i =
      (decodeGroup outside s i).append (decodeLoop outside s stop fuel (i + 4)) := by
  rw [decodeLoop, if_pos more, if_neg]
  intro stopped
  exact CString.char_ne_zero more (terminator _ stopped)

theorem decodeLoop_done (done : s.strlen ≤ i) :
    decodeLoop outside s stop fuel i = ⟨[], [], []⟩ := by
  cases fuel with
  | zero => rfl
  | succ fuel => rw [decodeLoop, if_neg (by omega)]

theorem decodeLoop_reads (terminator : ∀ c, stop c = true → c = 0) (enough : s.strlen ≤ i + fuel) :
    (∀ pos ∈ (decodeLoop outside s stop fuel i).reads, pos ≤ s.strlen) ↔
      (i < s.strlen → i + 4 * ((s.strlen - i + 3) / 4) ≤ s.strlen + 1) := by
  induction fuel generalizing i with
  | zero =>
    rw [decodeLoop_done (by omega)]
    exact ⟨fun _ more => absurd more (by omega), fun _ => nofun⟩
  | succ fuel ih =>
    by_cases more : i < s.strlen
    · rw [decodeLoop_succ terminator more, DecodeRun.append, List.forall_mem_append,
        decodeGroup_reads, ih (by omega)]
      omega
    · rw [decodeLoop_done (by omega)]
      exact ⟨fun _ more => absurd more (by omega), fun _ => nofun⟩

theorem decodeLoop_lookups (terminator : ∀ c, stop c = true → c = 0)
    (enough : s.strlen ≤ i + fuel) :
    (∀ index ∈ (decodeLoop outside s stop fuel i).lookups, 0 ≤ index ∧ index ≤ 255) ↔
      ∀ pos, i ≤ pos → pos < i + 4 * ((s.strlen - i + 3) / 4) → s.char pos < 128 := by
  induction fuel generalizing i with
  | zero =>
    rw [decodeLoop_done (by omega)]
    exact ⟨fun _ pos low high => absurd high (by omega), fun _ => nofun⟩
  | succ fuel ih =>
    by_cases more : i < s.strlen
    · have turns : 4 * ((s.strlen - i + 3) / 4) = 4 + 4 * ((s.strlen - (i + 4) + 3) / 4) := by omega
      rw [decodeLoop_succ terminator more, DecodeRun.append, List.forall_mem_append,
        decodeGroup_lookups, ih (by omega), turns]
      constructor
      · rintro ⟨here, later⟩ pos low high
        by_cases near : pos < i + 4
        · obtain ⟨k, rfl⟩ := Nat.exists_eq_add_of_le low
          exact here k (by omega)
        · exact later pos (by omega) (by omega)
      · intro all
        exact ⟨fun k small => all (i + k) (by omega) (by omega),
          fun pos low high => all pos (by omega) (by omega)⟩
    · rw [decodeLoop_done (by omega)]
      exact ⟨fun _ pos low high => absurd high (by omega), fun _ => nofun⟩

theorem decodeLoop_writes :
    (decodeLoop outside s stop fuel i).out.length ≤ 3 * ((s.strlen - i + 3) / 4) := by
  induction fuel generalizing i with
  | zero => exact Nat.zero_le _
  | succ fuel ih =>
    unfold decodeLoop
    split_ifs with more stopped
    · exact Nat.zero_le _
    · have group := decodeGroup_writes outside s i
      have later := ih (i := i + 4)
      rw [DecodeRun.append, List.length_append]
      omega
    · exact Nat.zero_le _

/-- A decoder stays inside exactly on the texts of seven-bit characters with a length that fills its
last turn, up to the terminator. -/
theorem decodeLoop_inside (terminator : ∀ c, stop c = true → c = 0) :
    Inside s (decodeLoop outside s stop s.strlen 0) ↔
      (s.strlen % 4 = 0 ∨ s.strlen % 4 = 3) ∧ ∀ c ∈ s.chars, c < 128 := by
  have ascii : (∀ c ∈ s.chars, c < 128) ↔ ∀ pos < s.strlen, s.char pos < 128 := by
    rw [List.forall_mem_iff_forall_getElem]
    refine forall₂_congr fun pos inside => ?_
    have inside : pos < s.chars.length := inside
    rw [CString.char, if_pos inside, List.getD_eq_getElem _ _ inside]
  rw [ascii]
  constructor
  · intro inside
    have reads := (decodeLoop_reads terminator (by omega)).mp inside.reads
    have lookups := (decodeLoop_lookups terminator (by omega)).mp inside.lookups
    exact ⟨by omega, fun pos small => lookups pos (by omega) (by omega)⟩
  · rintro ⟨length, small⟩
    refine ⟨(decodeLoop_reads terminator (by omega)).mpr fun _ => by omega,
      (decodeLoop_lookups terminator (by omega)).mpr fun pos _ high => ?_,
      decodeLoop_writes⟩
    by_cases last : pos < s.strlen
    · exact small pos last
    · obtain rfl : pos = s.strlen := by omega
      rw [CString.char_strlen]
      decide

end Safety

/-! ## The round trip -/

section RoundTrip

variable {outside : ℤ → BitVec 32} {s : CString} {stop : UInt8 → Bool} {fuel i : ℕ}

/-- Six bits of the assembled number. -/
theorem getLsbD_low (v : BitVec 32) (j : ℕ) :
    (v &&& 0x3F).getLsbD j = (decide (j < 6) && v.getLsbD j) := by
  have mask : (0x3F : BitVec 32) = BitVec.ofNat 32 (2 ^ 6 - 1) := rfl
  rw [BitVec.getLsbD_and, mask, BitVec.getLsbD_ofNat, Nat.testBit_two_pow_sub_one]
  by_cases inside : j < 6
  · simp [inside, show j < 32 by omega]
  · simp [inside]

theorem getLsbD_octet (v : BitVec 32) (shift j : ℕ) :
    (octet v shift).toBitVec.getLsbD j = (decide (j < 8) && v.getLsbD (shift + j)) := by
  have mask : (0xFF : BitVec 32) = BitVec.ofNat 32 (2 ^ 8 - 1) := rfl
  rw [octet, BitVec.getLsbD_setWidth, BitVec.getLsbD_and, BitVec.getLsbD_ushiftRight, mask,
    BitVec.getLsbD_ofNat, Nat.testBit_two_pow_sub_one]
  by_cases inside : j < 8
  · simp [inside, show j < 32 by omega]
  · simp [inside]

/-- Two bytes that agree in their eight bits. -/
theorem octet_ext {a b : UInt8}
    (bits : ∀ j < 8, a.toBitVec.getLsbD j = b.toBitVec.getLsbD j) : a = b :=
  UInt8.eq_of_toBitVec_eq (BitVec.eq_of_getLsbD_eq bits)

/-- The number of a group is put together again from its sextets. -/
theorem octet_sextets (v : BitVec 32) :
    octet ((v >>> 18 &&& 0x3F) <<< 18 ||| (v >>> 12 &&& 0x3F) <<< 12) 16 = octet v 16 ∧
    octet ((v >>> 18 &&& 0x3F) <<< 18 ||| (v >>> 12 &&& 0x3F) <<< 12 |||
      (v >>> 6 &&& 0x3F) <<< 6) 8 = octet v 8 ∧
    octet ((v >>> 18 &&& 0x3F) <<< 18 ||| (v >>> 12 &&& 0x3F) <<< 12 |||
      (v >>> 6 &&& 0x3F) <<< 6 ||| (v &&& 0x3F)) 0 = octet v 0 := by
  refine ⟨octet_ext fun j small => ?_, octet_ext fun j small => ?_, octet_ext fun j small => ?_⟩
  all_goals
    simp only [getLsbD_octet, BitVec.getLsbD_or, BitVec.getLsbD_shiftLeft, getLsbD_low]
    interval_cases j <;> simp

theorem octet_word (b₀ : UInt8) (b₁ b₂ : Option UInt8) :
    octet (encodeWord b₀ b₁ b₂) 16 = b₀ ∧ (∀ b ∈ b₁, octet (encodeWord b₀ b₁ b₂) 8 = b) ∧
      ∀ b ∈ b₂, octet (encodeWord b₀ b₁ b₂) 0 = b := by
  have filled : encodeWord b₀ b₁ b₂ =
      word b₀ <<< 16 ||| word (b₁.getD 0) <<< 8 ||| word (b₂.getD 0) := by
    have zero : word 0 = 0 := rfl
    cases b₁ <;> cases b₂ <;> simp [encodeWord, zero]
  have parts (b₀ b₁ b₂ : UInt8) : let v := word b₀ <<< 16 ||| word b₁ <<< 8 ||| word b₂
      octet v 16 = b₀ ∧ octet v 8 = b₁ ∧ octet v 0 = b₂ := by
    refine ⟨octet_ext fun j small => ?_, octet_ext fun j small => ?_, octet_ext fun j small => ?_⟩
    all_goals
      simp only [getLsbD_octet, BitVec.getLsbD_or, BitVec.getLsbD_shiftLeft, word,
        BitVec.getLsbD_setWidth]
      interval_cases j <;> simp
  obtain ⟨first, second, third⟩ := parts b₀ (b₁.getD 0) (b₂.getD 0)
  rw [filled]
  refine ⟨first, fun b here => ?_, fun b here => ?_⟩
  · rw [second, here]
    rfl
  · rw [third, here]
    rfl

theorem sextet_lt (v : BitVec 32) : (v &&& 0x3F).toNat < 64 := by
  have mask : (v &&& 0x3F).toNat = v.toNat &&& 63 := BitVec.toNat_and ..
  exact mask ▸ Nat.lt_succ_of_le Nat.and_le_right

/-- The table holds the place of every character of the alphabet. -/
theorem base64Chars_spec (outside : ℤ → BitVec 32) {k : BitVec 32} (small : k.toNat < 64) :
    base64Chars k ≠ pad ∧ base64Chars k ≠ 0 ∧
      b64Lookup outside (charIndex (base64Chars k)) = k := by
  have table : ∀ j : Fin 64, let c := base64Chars (BitVec.ofNat 32 j)
      c ≠ pad ∧ c ≠ 0 ∧ (0 ≤ charIndex c ∧ charIndex c ≤ 255) ∧
        b64Inv (charIndex c).toNat = BitVec.ofNat 32 j := by
    decide +kernel
  obtain ⟨unpadded, text, inside, place⟩ := table ⟨k.toNat, small⟩
  rw [BitVec.ofNat_toNat, BitVec.setWidth_eq] at unpadded text inside place
  exact ⟨unpadded, text, by rw [b64Lookup, if_pos inside, place]⟩

/-- The lookup of an encoded sextet. -/
theorem lookup_sextet (outside : ℤ → BitVec 32) {v : BitVec 32} {c : UInt8}
    (encoded : c = base64Chars (v &&& 0x3F)) :
    c ≠ pad ∧ b64Lookup outside (charIndex c) = v &&& 0x3F := by
  obtain ⟨unpadded, -, place⟩ := base64Chars_spec outside (sextet_lt v)
  exact encoded ▸ ⟨unpadded, place⟩

/-- The characters of a group decode to the bytes that it was made of. -/
theorem decodeGroup_encodeGroup {b₀ : UInt8} {b₁ b₂ : Option UInt8}
    (whole : b₂.isSome → b₁.isSome)
    (chars : [s.char i, s.char (i + 1), s.char (i + 2), s.char (i + 3)] = encodeGroup b₀ b₁ b₂) :
    (decodeGroup outside s i).out = b₀ :: (b₁.toList ++ b₂.toList) := by
  simp only [encodeGroup, List.cons.injEq, and_true] at chars
  obtain ⟨first, second, third, fourth⟩ := chars
  have first := (lookup_sextet outside first).2
  have second := (lookup_sextet outside second).2
  obtain ⟨high, middle, low⟩ := octet_sextets (encodeWord b₀ b₁ b₂)
  obtain ⟨octet₀, octet₁, octet₂⟩ := octet_word b₀ b₁ b₂
  unfold decodeGroup DecodeRun.append
  dsimp only
  rw [first, second]
  cases b₁ with
  | none =>
    cases b₂ with
    | some b₂ => exact absurd (whole rfl) (by decide)
    | none =>
      have third : s.char (i + 2) = pad := third
      have fourth : s.char (i + 3) = pad := fourth
      rw [if_neg (not_not.mpr third), if_neg (not_not.mpr fourth), high, octet₀]
      rfl
  | some b₁ =>
    obtain ⟨unpadded, third⟩ := lookup_sextet outside third
    rw [if_pos unpadded, third]
    dsimp only
    cases b₂ with
    | none =>
      have fourth : s.char (i + 3) = pad := fourth
      rw [if_neg (not_not.mpr fourth), high, middle, octet₀, octet₁ b₁ rfl]
      rfl
    | some b₂ =>
      obtain ⟨unpadded, fourth⟩ := lookup_sextet outside fourth
      rw [if_pos unpadded, fourth, high, middle, low, octet₀, octet₁ b₁ rfl, octet₂ b₂ rfl]
      rfl

theorem length_encodeGroup (b₀ : UInt8) (b₁ b₂ : Option UInt8) :
    (encodeGroup b₀ b₁ b₂).length = 4 := rfl

theorem text_encodeGroup (b₀ : UInt8) (b₁ b₂ : Option UInt8) :
    ∀ c ∈ encodeGroup b₀ b₁ b₂, c ≠ 0 := by
  have alphabet (v : BitVec 32) : base64Chars (v &&& 0x3F) ≠ 0 :=
    (base64Chars_spec 0 (sextet_lt v)).2.1
  intro c mem
  simp only [encodeGroup, List.mem_cons, List.not_mem_nil, or_false] at mem
  rcases mem with rfl | rfl | rfl | rfl
  · exact alphabet _
  · exact alphabet _
  · split_ifs
    · exact alphabet _
    · decide
  · split_ifs
    · exact alphabet _
    · decide

theorem text_encode (src : Bytes) : ∀ c ∈ trfBase64Encode src, c ≠ 0 := by
  fun_induction trfBase64Encode src with
  | case1 => exact nofun
  | case2 b₀ => exact text_encodeGroup b₀ none none
  | case3 b₀ b₁ => exact text_encodeGroup b₀ (some b₁) none
  | case4 b₀ b₁ b₂ rest ih =>
    exact List.forall_mem_append.mpr ⟨text_encodeGroup b₀ (some b₁) (some b₂), ih⟩

/-- The text that an encoder leaves in its buffer. -/
def encodedText (src : Bytes) (behind : ℕ → UInt8) : CString :=
  ⟨trfBase64Encode src, behind, text_encode src⟩

@[inherit_doc encodedText]
def obfuscatedText (src : Bytes) (seed : CString) (behind : ℕ → UInt8) : CString :=
  ⟨trfBase64EncodeObfuscated src seed, behind, text_encode (xorSeed seed src)⟩

variable {before : Bytes}

/-- A turn on the characters of a group that the text goes on with. -/
theorem decodeLoop_encodeGroup {b₀ : UInt8} {b₁ b₂ : Option UInt8} {after : Bytes}
    (terminator : ∀ c, stop c = true → c = 0) (whole : b₂.isSome → b₁.isSome)
    (chars : s.chars = before ++ encodeGroup b₀ b₁ b₂ ++ after) :
    (decodeLoop outside s stop (fuel + 1) before.length).out =
      b₀ :: (b₁.toList ++ b₂.toList) ++
        (decodeLoop outside s stop fuel (before ++ encodeGroup b₀ b₁ b₂).length).out := by
  have length : before.length + 4 ≤ s.strlen := by
    rw [CString.strlen, chars]
    simp [length_encodeGroup]
  have group : [s.char before.length, s.char (before.length + 1), s.char (before.length + 2),
      s.char (before.length + 3)] = encodeGroup b₀ b₁ b₂ := by
    have char (k : ℕ) (inside : k < 4) := s.char_append chars inside
    rw [char 1 (by decide), char 2 (by decide), char 3 (by decide), ← Nat.add_zero before.length,
      char 0 (by decide)]
    rfl
  rw [decodeLoop_succ terminator (by omega), List.length_append, length_encodeGroup]
  exact congrArg (· ++ _) (decodeGroup_encodeGroup whole group)

/-- From the end of a group on, the loop decodes what was encoded behind it. -/
theorem decodeLoop_encode (terminator : ∀ c, stop c = true → c = 0) (src : Bytes)
    (chars : s.chars = before ++ trfBase64Encode src) (enough : s.strlen ≤ before.length + fuel) :
    (decodeLoop outside s stop fuel before.length).out = src := by
  induction src using trfBase64Encode.induct generalizing before fuel with
  | case1 =>
    have done : s.strlen ≤ before.length := by
      rw [CString.strlen, chars, trfBase64Encode, List.append_nil]
    rw [decodeLoop_done done]
  | case2 b₀ =>
    rw [trfBase64Encode] at chars
    have last : s.strlen = (before ++ encodeGroup b₀ none none).length := congrArg _ chars
    rw [List.length_append, length_encodeGroup] at last
    obtain ⟨fuel, rfl⟩ : ∃ f, fuel = f + 1 := ⟨fuel - 1, by omega⟩
    rw [decodeLoop_encodeGroup terminator (fun none => none) (chars.trans (List.append_nil _).symm),
      decodeLoop_done (by rw [List.length_append, length_encodeGroup]; omega)]
    rfl
  | case3 b₀ b₁ =>
    rw [trfBase64Encode] at chars
    have last : s.strlen = (before ++ encodeGroup b₀ (some b₁) none).length := congrArg _ chars
    rw [List.length_append, length_encodeGroup] at last
    obtain ⟨fuel, rfl⟩ : ∃ f, fuel = f + 1 := ⟨fuel - 1, by omega⟩
    rw [decodeLoop_encodeGroup terminator (fun _ => rfl) (chars.trans (List.append_nil _).symm),
      decodeLoop_done (by rw [List.length_append, length_encodeGroup]; omega)]
    rfl
  | case4 b₀ b₁ b₂ rest ih =>
    rw [trfBase64Encode, ← List.append_assoc] at chars
    have more : (before ++ encodeGroup b₀ (some b₁) (some b₂)).length ≤ s.strlen := by
      rw [CString.strlen, chars]
      simp
    rw [List.length_append, length_encodeGroup] at more
    obtain ⟨fuel, rfl⟩ : ∃ f, fuel = f + 1 := ⟨fuel - 1, by omega⟩
    rw [decodeLoop_encodeGroup terminator (fun _ => rfl) chars,
      ih chars (by rw [List.length_append, length_encodeGroup]; omega)]
    rfl

/-- Two loops that stop at nothing but the terminator run the same. -/
theorem decodeLoop_congr {other : UInt8 → Bool} (terminator : ∀ c, stop c = true → c = 0)
    (terminator_other : ∀ c, other c = true → c = 0) :
    decodeLoop outside s stop fuel i = decodeLoop outside s other fuel i := by
  induction fuel generalizing i with
  | zero => rfl
  | succ fuel ih =>
    by_cases more : i < s.strlen
    · rw [decodeLoop_succ terminator more, decodeLoop_succ terminator_other more, ih]
    · rw [decodeLoop_done (by omega), decodeLoop_done (by omega)]

theorem xorSeed_xorSeed (seed : CString) (bytes : Bytes) :
    xorSeed seed (xorSeed seed bytes) = bytes := by
  unfold xorSeed
  refine List.ext_getElem (by simp) fun k _ _ => ?_
  rw [List.getElem_mapIdx, List.getElem_mapIdx, UInt8.xor_assoc, UInt8.xor_self, UInt8.xor_zero]

/-- The decoders differ in the XOR alone: the test for the terminator of one is never met. -/
theorem decodeObfuscated_eq (seed : CString) :
    trfBase64DecodeObfuscated outside s seed =
      { trfBase64Decode outside s with
        out := xorSeed seed (trfBase64Decode outside s).out } := by
  have loops : decodeLoop outside s (fun _ => false) s.strlen 0 = trfBase64Decode outside s :=
    decodeLoop_congr nofun fun c zero => by simpa using zero
  rw [trfBase64DecodeObfuscated, loops]

theorem decode_encode (src : Bytes) (behind : ℕ → UInt8) :
    (trfBase64Decode outside (encodedText src behind)).out = src := by
  have empty : (encodedText src behind).chars = [] ++ trfBase64Encode src := rfl
  exact decodeLoop_encode (fun c zero => by simpa using zero) src empty (Nat.le_add_left ..)

theorem decodeObfuscated_encodeObfuscated (src : Bytes) (seed : CString) (behind : ℕ → UInt8) :
    (trfBase64DecodeObfuscated outside (obfuscatedText src seed behind) seed).out = src := by
  have same : obfuscatedText src seed behind = encodedText (xorSeed seed src) behind := rfl
  rw [decodeObfuscated_eq, same]
  dsimp only
  rw [decode_encode, xorSeed_xorSeed]

end RoundTrip

/-- Seven-bit characters, in a number that fills the last turn of a decoder up to the terminator. -/
def CString.FillsTurns (s : CString) : Prop :=
  (s.strlen % 4 = 0 ∨ s.strlen % 4 = 3) ∧ ∀ c ∈ s.chars, c < 128

/-- Both pairs round trip, and both decoders stay inside exactly on the texts of seven-bit
characters that fill their turns. -/
theorem base64_codec (outside : ℤ → BitVec 32) :
    (∀ src behind, let run := trfBase64Decode outside (encodedText src behind)
      run.out = src ∧ run.outLen = src.length) ∧
    (∀ src seed behind, 0 < seed.strlen →
      let run := trfBase64DecodeObfuscated outside (obfuscatedText src seed behind) seed
      run.out = src ∧ run.outLen = src.length) ∧
    ∀ s : CString, (Inside s (trfBase64Decode outside s) ↔ s.FillsTurns) ∧
      ∀ seed, Inside s (trfBase64DecodeObfuscated outside s seed) ↔ s.FillsTurns := by
  have plain (s : CString) : Inside s (trfBase64Decode outside s) ↔ s.FillsTurns :=
    decodeLoop_inside fun c zero => by simpa using zero
  refine ⟨fun src behind => ⟨decode_encode src behind, ?_⟩, fun src seed behind _ =>
    ⟨decodeObfuscated_encodeObfuscated src seed behind, ?_⟩, fun s => ⟨plain s, fun seed => ?_⟩⟩
  · exact congrArg List.length (decode_encode src behind)
  · exact congrArg List.length (decodeObfuscated_encodeObfuscated src seed behind)
  · rw [← plain s, decodeObfuscated_eq]
    constructor
    · rintro ⟨reads, lookups, writes⟩
      exact ⟨reads, lookups, by simpa [xorSeed] using writes⟩
    · rintro ⟨reads, lookups, writes⟩
      exact ⟨reads, lookups, by simpa [xorSeed] using writes⟩

/-- The text `A`, and a text with a byte above 127. -/
def shortText : CString := ⟨[65], fun _ => 0, by simp⟩

@[inherit_doc shortText]
def accentText : CString := ⟨[65, 195, 169, 65], fun _ => 0, by simp⟩

theorem base64_outside :
    (∃ pos ∈ (trfBase64Decode 0 shortText).reads, shortText.strlen < pos) ∧
      ∃ index ∈ (trfBase64Decode 0 accentText).lookups, index < 0 := by
  decide +kernel

end NeEncryptor
