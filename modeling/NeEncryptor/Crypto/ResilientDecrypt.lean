import NeEncryptor.Crypto.L2Udp

/-!
# Decryption over the three key slots

`crypto_pqc_decrypt_payload_resilient` of `crypto_pqc_layer.h` on the buffer it works in, with
`trf_decrypt_payload_gcm` of `traffic_crypto.c`: an attempt overwrites the buffer whether its key
authenticates the payload or not.
-/

namespace NeEncryptor

/-- AES-256-GCM of the `scrypt` library, as the calls of one decryption find it. -/
structure ScryptGcm where
  /-- `g_pqc_initialized`, and the context of `crypto_pqc_tls_cipher`. -/
  ready : Bool
  /-- `scrypt_CipherInit`. -/
  cipherInit : TrafficKey → Bytes → Bool
  /-- `scrypt_CipherSetTag`. -/
  setTag : Bytes → Bool
  /-- What `scrypt_CipherUpdate` leaves in the buffer, and whether it succeeds. -/
  cipherUpdate : TrafficKey → Bytes → Bytes → Bytes × Bool
  /-- `scrypt_CipherFinal` for a tag and the ciphertext. -/
  cipherFinal : TrafficKey → Bytes → Bytes → Bytes → Bool
  length_update : ∀ {key nonce cipher}, (cipherUpdate key nonce cipher).1.length = cipher.length

variable (s : ScryptGcm) (nonce : Bytes)

/-- `trf_decrypt_payload_gcm`: the buffer it leaves, and the length it returns. -/
def trfDecryptPayloadGcm (key : TrafficKey) (data : Bytes) : Bytes × Option ℕ :=
  if !s.ready || decide (data.length ≤ aesGcmTagSize) then (data, none)
  else if !s.cipherInit key nonce then (data, none)
  else
    let payloadLen := data.length - aesGcmTagSize
    let tag := data.drop payloadLen
    let cipher := data.take payloadLen
    if !s.setTag tag then (data, none)
    else
      let (plain, updated) := s.cipherUpdate key nonce cipher
      let data := plain ++ tag
      if !updated || !s.cipherFinal key nonce tag cipher then (data, none)
      else (data, some plain.length)

/-- What a decryption leaves: the buffer, the length where it succeeded, and the attempts it made,
each with the buffer that it started from. -/
structure ResilientRun where
  data : Bytes
  outLen : Option ℕ
  attempts : List (TrafficKey × Bytes)

/-- The loop over the slots: `prior` are the slots before, `attempted` is the flag of the loop. -/
def tryKeys (saved : Bytes) : List TrafficKey → Bool → Bytes → List TrafficKey → ResilientRun
  | _, _, data, [] => ⟨data, none, []⟩
  | prior, attempted, data, candidate :: rest =>
    if !keyNonzero candidate || prior.contains candidate then
      tryKeys saved (prior ++ [candidate]) attempted data rest
    else
      let data := if attempted then saved else data
      match trfDecryptPayloadGcm s nonce candidate data with
      | (left, some outLen) => ⟨left, some outLen, [(candidate, data)]⟩
      | (left, none) =>
        let run := tryKeys saved (prior ++ [candidate]) true left rest
        { run with attempts := (candidate, data) :: run.attempts }

/-- The slots in the order of the attempts. -/
def PacketCryptoCtx.keyOrder (ctx : PacketCryptoCtx) : List TrafficKey :=
  [ctx.keys.current, ctx.keys.next, ctx.keys.prev]

/-- `crypto_pqc_decrypt_payload_resilient`, in the buffer. -/
def decryptPayloadResilient (ctx : PacketCryptoCtx) (data : Bytes) : ResilientRun :=
  if data.length = 0 ∨ data.length > 2048 then ⟨data, none, []⟩
  else tryKeys s nonce data [] false data ctx.keyOrder

/-! ## The first key that authenticates -/

/-- The key authenticates the payload. -/
def Authenticates (key : TrafficKey) (data : Bytes) : Bool :=
  let cipher := data.take (data.length - aesGcmTagSize)
  let tag := data.drop (data.length - aesGcmTagSize)
  s.ready && decide (aesGcmTagSize < data.length) && s.cipherInit key nonce && s.setTag tag &&
    (s.cipherUpdate key nonce cipher).2 && s.cipherFinal key nonce tag cipher

/-- The plaintext of a payload under a key. -/
def plaintext (key : TrafficKey) (data : Bytes) : Bytes :=
  (s.cipherUpdate key nonce (data.take (data.length - aesGcmTagSize))).1

/-- The slot holds a key that authenticates the payload. -/
def Opens (data : Bytes) (key : TrafficKey) : Bool :=
  keyNonzero key && Authenticates s nonce key data

variable {s nonce} {key : TrafficKey} {data saved : Bytes}

theorem length_plaintext :
    (plaintext s nonce key data).length = data.length - aesGcmTagSize := by
  rw [plaintext, s.length_update, List.length_take]
  omega

/-- A decryption succeeds where the key authenticates the payload, and then it leaves the plaintext
at the start of the buffer. -/
theorem trfDecrypt_of_authenticates (authentic : Authenticates s nonce key data = true) :
    trfDecryptPayloadGcm s nonce key data =
      (plaintext s nonce key data ++ data.drop (data.length - aesGcmTagSize),
        some (data.length - aesGcmTagSize)) := by
  simp only [Authenticates, Bool.and_eq_true, decide_eq_true_eq] at authentic
  obtain ⟨⟨⟨⟨⟨ready, long⟩, init⟩, tagged⟩, updated⟩, final⟩ := authentic
  have longer : ¬ data.length ≤ aesGcmTagSize := by omega
  have length : (plaintext s nonce key data).length = data.length - aesGcmTagSize :=
    length_plaintext
  unfold plaintext at length
  simp only [trfDecryptPayloadGcm, ready, init, tagged, updated, final, longer, plaintext, length,
    decide_false, Bool.not_true, Bool.or_false, Bool.false_eq_true, if_false]

theorem trfDecrypt_of_not_authenticates (forged : Authenticates s nonce key data = false) :
    (trfDecryptPayloadGcm s nonce key data).2 = none := by
  unfold trfDecryptPayloadGcm
  split
  · rfl
  split
  · rfl
  dsimp only
  split
  · rfl
  split
  · rfl
  · rename_i early init tagged final
    refine absurd forged ?_
    have long : aesGcmTagSize < data.length := by
      by_contra shorter
      exact early (by rw [decide_eq_true (by omega)]; exact Bool.or_true _)
    simp_all [Authenticates]

/-- What the loop does from a slot on: every attempt starts from the payload, and the first key that
opens it gives the result. -/
structure Resilient (s : ScryptGcm) (nonce saved : Bytes) (keys : List TrafficKey)
    (run : ResilientRun) : Prop where
  fresh : ∀ attempt ∈ run.attempts, attempt.2 = saved
  opened : ∀ key, keys.find? (Opens s nonce saved) = some key →
    run.outLen = some (saved.length - aesGcmTagSize) ∧
      run.data.take (saved.length - aesGcmTagSize) = plaintext s nonce key saved
  refused : keys.find? (Opens s nonce saved) = none → run.outLen = none

theorem resilient_tryKeys (prior keys : List TrafficKey) (attempted : Bool)
    (untouched : attempted = false → data = saved)
    (failed : ∀ key ∈ prior, Opens s nonce saved key = false) :
    Resilient s nonce saved keys (tryKeys s nonce saved prior attempted data keys) := by
  induction keys generalizing prior attempted data with
  | nil => exact ⟨nofun, nofun, fun _ => rfl⟩
  | cons candidate rest ih =>
    -- the slots before stay useless where this one is
    have useless (forged : Opens s nonce saved candidate = false) :
        ∀ key ∈ prior ++ [candidate], Opens s nonce saved key = false := fun key mem => by
      rcases List.mem_append.mp mem with before | here
      · exact failed key before
      · rwa [List.mem_singleton.mp here]
    unfold tryKeys
    split
    · rename_i skipped
      have forged : Opens s nonce saved candidate = false := by
        rcases Bool.or_eq_true _ _ ▸ skipped with zero | duplicate
        · have zero : keyNonzero candidate = false := by simpa using zero
          rw [Opens, zero, Bool.false_and]
        · exact failed candidate (List.contains_iff_mem.mp duplicate)
      have later := ih (prior ++ [candidate]) attempted untouched (useless forged)
      have rest_find : (candidate :: rest).find? (Opens s nonce saved) =
          rest.find? (Opens s nonce saved) :=
        List.find?_cons_of_neg (by rw [forged]; decide)
      exact ⟨later.fresh, rest_find ▸ later.opened, rest_find ▸ later.refused⟩
    · rename_i tried
      have nonzero : keyNonzero candidate = true := by
        cases nonzero : keyNonzero candidate with
        | true => rfl
        | false => exact absurd (by rw [nonzero]; rfl) tried
      have start : (if attempted = true then saved else data) = saved := by
        cases attempted with
        | true => rfl
        | false => exact untouched rfl
      dsimp only
      rw [start]
      cases authentic : Authenticates s nonce candidate saved with
      | true =>
        have here : (candidate :: rest).find? (Opens s nonce saved) = some candidate :=
          List.find?_cons_of_pos (by rw [Opens, nonzero, authentic]; rfl)
        rw [trfDecrypt_of_authenticates authentic]
        refine ⟨fun attempt mem => ?_, fun key found => ⟨rfl, ?_⟩, fun none => ?_⟩
        · rw [List.mem_singleton.mp mem]
        · obtain rfl := Option.some.inj (here.symm.trans found)
          exact List.take_left' length_plaintext
        · cases here.symm.trans none
      | false =>
        have forged : Opens s nonce saved candidate = false := by
          rw [Opens, authentic, Bool.and_false]
        have failure := trfDecrypt_of_not_authenticates authentic
        generalize trfDecryptPayloadGcm s nonce candidate saved = attempt at failure ⊢
        obtain ⟨left, outLen⟩ := attempt
        obtain rfl : outLen = none := failure
        have later := @ih left (prior ++ [candidate]) true nofun (useless forged)
        have rest_find : (candidate :: rest).find? (Opens s nonce saved) =
            rest.find? (Opens s nonce saved) :=
          List.find?_cons_of_neg (by rw [forged]; decide)
        refine ⟨fun attempt mem => ?_, rest_find ▸ later.opened, rest_find ▸ later.refused⟩
        rcases List.mem_cons.mp mem with here | after
        · rw [here]
        · exact later.fresh attempt after

/-- A payload of a size that the buffer takes goes to the loop. -/
theorem resilient_decrypt (ctx : PacketCryptoCtx) (long : aesGcmTagSize < data.length)
    (short : data.length ≤ 2048) :
    Resilient s nonce data ctx.keyOrder (decryptPayloadResilient s nonce ctx data) := by
  rw [decryptPayloadResilient, if_neg (by omega)]
  exact resilient_tryKeys [] ctx.keyOrder false (fun _ => rfl) nofun

/-- Decryption succeeds where a non-zero slot key authenticates the payload, with the plaintext under
the first of them, and every attempt starts from the payload as it came. -/
theorem resilient_iff (s : ScryptGcm) (nonce : Bytes) (ctx : PacketCryptoCtx) (data : Bytes)
    (long : 17 ≤ data.length) (short : data.length ≤ 2048) :
    let run := decryptPayloadResilient s nonce ctx data
    (run.outLen.isSome = true ↔ ∃ key ∈ [ctx.keys.current, ctx.keys.next, ctx.keys.prev],
      key ≠ 0 ∧ Authenticates s nonce key data = true) ∧
    (∀ before key after,
      [ctx.keys.current, ctx.keys.next, ctx.keys.prev] = before ++ key :: after →
      key ≠ 0 → Authenticates s nonce key data = true →
      (∀ other ∈ before, other ≠ 0 → Authenticates s nonce other data = false) →
      run.outLen = some (plaintext s nonce key data).length ∧
        run.data.take (plaintext s nonce key data).length = plaintext s nonce key data) ∧
    ∀ attempt ∈ run.attempts, attempt.2 = data := by
  intro run
  have done : Resilient s nonce data ctx.keyOrder run := resilient_decrypt ctx long short
  have opens_iff (key : TrafficKey) : Opens s nonce data key = true ↔
      key ≠ 0 ∧ Authenticates s nonce key data = true := by
    rw [Opens, Bool.and_eq_true, keyNonzero_iff]
  refine ⟨⟨fun success => ?_, ?_⟩, fun before key after order nonzero authentic first => ?_,
    done.fresh⟩
  · cases found : ctx.keyOrder.find? (Opens s nonce data) with
    | none => rw [done.refused found] at success; cases success
    | some key =>
      exact ⟨key, List.mem_of_find?_eq_some found, (opens_iff key).mp (List.find?_some found)⟩
  · rintro ⟨key, slot, nonzero, authentic⟩
    obtain ⟨winner, found⟩ := Option.isSome_iff_exists.mp
      (List.find?_isSome.mpr ⟨key, slot, (opens_iff key).mpr ⟨nonzero, authentic⟩⟩)
    rw [(done.opened winner found).1]
    rfl
  · have found : ctx.keyOrder.find? (Opens s nonce data) = some key := by
      refine List.find?_eq_some_iff_append.mpr
        ⟨(opens_iff key).mpr ⟨nonzero, authentic⟩, before, after, order, fun other mem => ?_⟩
      rw [Bool.not_eq_true', Bool.eq_false_iff, Ne, opens_iff]
      rintro ⟨nonzero, authentic⟩
      exact Bool.false_ne_true ((first other mem nonzero).symm.trans authentic)
    rw [length_plaintext]
    exact done.opened key found

/-- The keys `11…11` and `22…22`. -/
def currentPing : TrafficKey := BitVec.ofNat 256 (0x11 * ((256 ^ 32 - 1) / 255))

@[inherit_doc currentPing]
def nextPing : TrafficKey := BitVec.ofNat 256 (0x22 * ((256 ^ 32 - 1) / 255))

/-- `ping` under `22…22` and the nonce `0, 1, …, 11`, with its tag. -/
def pingData : Bytes :=
  [54, 169, 249, 120, 252, 145, 76, 246, 50, 100, 101, 217, 198, 135, 12, 66, 202, 115, 12, 75]

/-- AES-256-GCM at that nonce, under the two keys and on that payload. -/
def pingGcm : ScryptGcm where
  ready := true
  cipherInit _ _ := true
  setTag _ := true
  cipherUpdate key _ cipher :=
    let stream : Bytes := if key = nextPing then [70, 192, 151, 31] else [19, 227, 182, 19]
    (List.zipWith (· ^^^ ·) cipher (stream ++ List.replicate cipher.length 0), true)
  cipherFinal key _ tag cipher := key == nextPing && cipher ++ tag == pingData
  length_update := by
    intro key nonce cipher
    simp

/-- The peer rotated first: CURRENT does not open the payload, and NEXT does. -/
theorem resilient_iff_ping :
    let ctx : PacketCryptoCtx :=
      { PacketCryptoCtx.zero with keys := ⟨0, currentPing, nextPing⟩ }
    let run := decryptPayloadResilient pingGcm ((List.range 12).map UInt8.ofNat) ctx pingData
    run.outLen = some 4 ∧ run.data.take 4 = [112, 105, 110, 103] ∧
      ∀ attempt ∈ run.attempts, attempt.2 = pingData := by
  intro ctx run
  obtain ⟨-, opened, fresh⟩ := resilient_iff pingGcm ((List.range 12).map UInt8.ofNat) ctx pingData
    (by decide) (by decide)
  have text : plaintext pingGcm ((List.range 12).map UInt8.ofNat) nextPing pingData =
      [112, 105, 110, 103] := by
    decide +kernel
  have result := opened [currentPing] nextPing [0] rfl (by decide +kernel) (by decide +kernel)
    fun other mem _ => by
      rw [List.mem_singleton.mp mem]
      decide +kernel
  rw [text] at result
  exact ⟨result.1, result.2, fresh⟩

/-! ## The whole packet -/

/-- The whole-packet cipher opens a payload where the library authenticates it. -/
def ScryptGcm.Models (s : ScryptGcm) (aead : Aead) : Prop :=
  ∀ key nonce data, aead.decrypt key nonce data =
    if Authenticates s nonce key data then some (plaintext s nonce key data) else none

/-- The slots without the repeated ones have the same first key that opens. -/
theorem find_distinct (p : TrafficKey → Bool) (a b c : TrafficKey) :
    ([a] ++ (if b = a then [] else [b]) ++ if c = a ∨ c = b then [] else [c]).find? p =
      [a, b, c].find? p := by
  cases first : p a with
  | true => rw [List.append_assoc, List.singleton_append, List.find?_cons_of_pos first,
      List.find?_cons_of_pos first]
  | false =>
    have skipped : ¬ p a = true := by rw [first]; decide
    rw [List.append_assoc, List.singleton_append, List.find?_cons_of_neg skipped,
      List.find?_cons_of_neg skipped]
    by_cases duplicate : c = a ∨ c = b
    · have useless (found : p c = true) : p b = true := by
        rcases duplicate with rfl | rfl
        · exact absurd found skipped
        · exact found
      cases second : p b <;> cases third : p c <;> split_ifs <;> simp_all
    · cases second : p b <;> split_ifs <;> simp_all

theorem find_candidates (ctx : PacketCryptoCtx) :
    (candidates ctx).find? (Opens s nonce data) = ctx.keyOrder.find? (Opens s nonce data) := by
  rw [candidates, List.find?_filter, PacketCryptoCtx.keyOrder, ← find_distinct]
  congr 1
  funext key
  simp only [Opens, Bool.and_eq_true]
  cases keyNonzero key with
  | true => simp
  | false => simp

/-- What the buffer holds after the call is what the whole-packet model returns. -/
theorem resilient_eq_run {aead : Aead} (models : s.Models aead) (ctx : PacketCryptoCtx)
    (long : aesGcmTagSize < data.length) :
    let run := decryptPayloadResilient s nonce ctx data
    cryptoPqcDecryptPayloadResilient aead ctx nonce data = run.outLen.map run.data.take := by
  intro run
  rw [cryptoPqcDecryptPayloadResilient]
  by_cases short : data.length ≤ 2048
  · have done : Resilient s nonce data ctx.keyOrder run := resilient_decrypt ctx long short
    have opened (keys : List TrafficKey) (nonzero : ∀ key ∈ keys, keyNonzero key = true) :
        (keys.findSome? fun key => aead.decrypt key nonce data) =
          (keys.find? (Opens s nonce data)).map fun key => plaintext s nonce key data := by
      induction keys with
      | nil => rfl
      | cons key rest ih =>
        have opens : Opens s nonce data key = Authenticates s nonce key data := by
          rw [Opens, nonzero key List.mem_cons_self, Bool.true_and]
        have later := ih fun other mem => nonzero other (List.mem_cons_of_mem key mem)
        rw [List.findSome?_cons, List.find?_cons, opens, models, later]
        cases Authenticates s nonce key data with
        | true => rfl
        | false => rfl
    rw [if_neg (by omega), opened (candidates ctx) fun key mem => (List.mem_filter.mp mem).2,
      find_candidates]
    cases found : ctx.keyOrder.find? (Opens s nonce data) with
    | none => rw [done.refused found]; rfl
    | some key =>
      obtain ⟨length, text⟩ := done.opened key found
      rw [length, Option.map_some, Option.map_some, text]
  · have refused : run.outLen = none := by
      show (decryptPayloadResilient s nonce ctx data).outLen = none
      rw [decryptPayloadResilient, if_pos (by omega)]
    rw [if_pos (by omega), refused]
    rfl

end NeEncryptor
