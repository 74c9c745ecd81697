import Mathlib.Data.Nat.Bitwise

/-!
# Predicates with few edges

A predicate on the numbers of `w` bits that changes its value at the places of a list only holds
everywhere where it holds at zero and at these places. Ranges and networks are of this kind, and so is
what a pointwise connective makes of them.
-/

namespace Edges

variable {w : ℕ} {cs ds : List (BitVec w)} {p q : BitVec w → Bool}

/-- The predicate changes its value at these places only. -/
def EdgesIn (cs : List (BitVec w)) (p : BitVec w → Bool) : Prop :=
  ∀ v, v ≠ 0 → p v ≠ p (v - 1) → v ∈ cs

theorem EdgesIn.mono (edges : EdgesIn cs p) (sub : cs ⊆ ds) : EdgesIn ds p :=
  fun v ne changes => sub (edges v ne changes)

theorem edgesIn_const (b : Bool) : EdgesIn cs fun _ => b :=
  fun _ _ changes => absurd rfl changes

/-- A connective adds no edges. -/
theorem EdgesIn.map₂ (f : Bool → Bool → Bool) (left : EdgesIn cs p) (right : EdgesIn cs q) :
    EdgesIn cs fun v => f (p v) (q v) := by
  intro v ne changes
  by_cases same : p v = p (v - 1)
  · refine right v ne fun same' => changes ?_
    dsimp only
    rw [same, same']
  · exact left v ne same

theorem EdgesIn.any {α : Type*} {l : List α} {s : α → BitVec w → Bool}
    (each : ∀ a ∈ l, EdgesIn cs (s a)) : EdgesIn cs fun v => l.any fun a => s a v := by
  induction l with
  | nil => exact edgesIn_const false
  | cons a l ih =>
    exact (each a List.mem_cons_self).map₂ or (ih fun b mem => each b (List.mem_cons_of_mem _ mem))

theorem toNat_sub_one {v : BitVec w} (ne : v ≠ 0) : (v - 1).toNat + 1 = v.toNat := by
  have pos : 0 < v.toNat := by
    rw [Nat.pos_iff_ne_zero]
    exact fun none => ne (BitVec.eq_of_toNat_eq none)
  have bound := v.isLt
  cases w with
  | zero => omega
  | succ w =>
    have one : (1 : BitVec (w + 1)).toNat = 1 := by simp
    rw [BitVec.toNat_sub_of_le (BitVec.le_def.mpr (by omega)), one]
    omega

/-- What is true at zero and at the edges is true everywhere. -/
theorem EdgesIn.forall_iff (edges : EdgesIn cs p) :
    (∀ v, p v = true) ↔ ∀ c ∈ 0 :: cs, p c = true := by
  refine ⟨fun all c _ => all c, fun corners v => ?_⟩
  induction place : v.toNat using Nat.strong_induction_on generalizing v with
  | _ n ih =>
    by_cases zero : v = 0
    · exact corners v (zero ▸ List.mem_cons_self)
    by_cases same : p v = p (v - 1)
    · have before := toNat_sub_one zero
      rw [same]
      exact ih _ (by omega) (v - 1) rfl
    · exact corners v (List.mem_cons_of_mem _ (edges v zero same))

/-- One predicate implies another where it does at zero and at the edges of both. -/
theorem implies_iff (left : EdgesIn cs p) (right : EdgesIn cs q) :
    (∀ v, p v = true → q v = true) ↔ ∀ c ∈ 0 :: cs, p c = true → q c = true := by
  have edges := left.map₂ (fun a b => !a || b) right
  have reads (a b : Bool) : (!a || b) = true ↔ (a = true → b = true) := by
    cases a <;> cases b <;> decide
  simpa only [reads] using edges.forall_iff

/-- A range begins and ends at an edge. -/
theorem edgesIn_range (lo hi : ℕ) : EdgesIn [BitVec.ofNat w lo, BitVec.ofNat w (hi + 1)]
    fun v => decide (lo ≤ v.toNat) && decide (v.toNat ≤ hi) := by
  intro v ne changes
  have before := toNat_sub_one ne
  have place {n : ℕ} (same : v.toNat = n) : v = BitVec.ofNat w n := by
    rw [← same, BitVec.ofNat_toNat, BitVec.setWidth_eq]
  rw [List.mem_cons, List.mem_singleton]
  by_contra off
  rw [not_or] at off
  have notLow : v.toNat ≠ lo := fun same => off.1 (place same)
  have notHigh : v.toNat ≠ hi + 1 := fun same => off.2 (place same)
  refine changes ?_
  rw [Bool.eq_iff_iff]
  simp only [Bool.and_eq_true, decide_eq_true_eq]
  omega

/-! ## Networks -/

/-- The bits of the mask are the highest ones. -/
def Contiguous (mask : BitVec w) : Prop := ∃ k : ℕ, mask = BitVec.allOnes w <<< k

/-- The low bits of a contiguous mask are one less than a power of two. -/
theorem contiguous_of_and_eq_zero {mask : BitVec w} (low : ~~~mask &&& (~~~mask + 1) = 0) :
    Contiguous mask := by
  by_cases none : mask = 0
  · exact ⟨w, by rw [none, BitVec.shiftLeft_eq_zero le_rfl]; rfl⟩
  have small : (~~~mask).toNat + 1 < 2 ^ w := by
    have bound := mask.isLt
    have pos : 0 < mask.toNat := by
      rw [Nat.pos_iff_ne_zero]
      exact fun zero => none (BitVec.eq_of_toNat_eq zero)
    rw [BitVec.toNat_not]
    omega
  have next : (~~~mask + 1).toNat = (~~~mask).toNat + 1 := by
    have one : (1 : BitVec w).toNat = 1 := (BitVec.toNat_ofNat 1 w).trans
      (Nat.mod_eq_of_lt (by omega))
    rw [BitVec.toNat_add, one, Nat.mod_eq_of_lt small]
  have power : ((~~~mask).toNat + 1).isPowerOfTwo := by
    rw [← Nat.and_sub_one_eq_zero_iff_isPowerOfTwo (by omega), Nat.add_sub_cancel, ← next,
      Nat.and_comm, ← BitVec.toNat_and, low]
    rfl
  obtain ⟨k, power⟩ := power
  refine ⟨k, BitVec.eq_of_getElem_eq fun i inside => ?_⟩
  have bit : (~~~mask).toNat.testBit i = decide (i < k) := by
    rw [← Nat.testBit_two_pow_sub_one, ← power, Nat.add_sub_cancel]
  rw [BitVec.testBit_toNat, BitVec.getLsbD_not] at bit
  simp only [inside, decide_true, Bool.true_and] at bit
  rw [BitVec.getElem_shiftLeft, BitVec.getElem_allOnes, Bool.and_true, ← bit, Bool.not_not,
    BitVec.getLsbD_eq_getElem inside]

variable {k : ℕ} {a b : BitVec w}

theorem getElem_mask {i : ℕ} (inside : i < w) :
    (BitVec.allOnes w <<< k)[i] = decide (k ≤ i) := by
  rw [BitVec.getElem_shiftLeft, BitVec.getElem_allOnes, Bool.and_true, ← decide_not]
  exact decide_eq_decide.mpr not_lt

/-- The numbers of a network have the same high bits. -/
theorem and_mask_eq_iff : a &&& (BitVec.allOnes w <<< k) = b &&& (BitVec.allOnes w <<< k) ↔
    a.toNat / 2 ^ k = b.toNat / 2 ^ k := by
  rw [← Nat.shiftRight_eq_div_pow, ← Nat.shiftRight_eq_div_pow, ← BitVec.toNat_ushiftRight,
    ← BitVec.toNat_ushiftRight, BitVec.toNat_inj]
  constructor
  · intro same
    refine BitVec.eq_of_getLsbD_eq fun i inside => ?_
    rw [BitVec.getLsbD_ushiftRight, BitVec.getLsbD_ushiftRight]
    by_cases high : k + i < w
    · have bit := congrArg (fun v : BitVec w => v[k + i]) same
      simp only [BitVec.getElem_and, getElem_mask, Nat.le_add_right, decide_true,
        Bool.and_true] at bit
      rw [BitVec.getLsbD_eq_getElem high, BitVec.getLsbD_eq_getElem high, bit]
    · rw [BitVec.getLsbD_of_ge _ _ (not_lt.mp high), BitVec.getLsbD_of_ge _ _ (not_lt.mp high)]
  · intro same
    refine BitVec.eq_of_getElem_eq fun i inside => ?_
    rw [BitVec.getElem_and, BitVec.getElem_and, getElem_mask]
    by_cases high : k ≤ i
    · have bit := congrArg (fun v : BitVec w => v.getLsbD (i - k)) same
      simp only [BitVec.getLsbD_ushiftRight, Nat.add_sub_cancel' high,
        BitVec.getLsbD_eq_getElem inside] at bit
      rw [bit]
    · rw [decide_eq_false high, Bool.and_false, Bool.and_false]

/-- A multiple of the size of a network is its first number. -/
theorem and_mask_of_dvd (dvd : 2 ^ k ∣ a.toNat) : a &&& (BitVec.allOnes w <<< k) = a := by
  obtain ⟨m, value⟩ := dvd
  refine BitVec.eq_of_getElem_eq fun i inside => ?_
  rw [BitVec.getElem_and, getElem_mask]
  by_cases high : k ≤ i
  · rw [decide_eq_true high, Bool.and_true]
  · have bit : a[i] = false := by
      rw [← BitVec.getLsbD_eq_getElem inside, ← BitVec.testBit_toNat, value,
        Nat.testBit_two_pow_mul]
      simp [high]
    rw [bit, Bool.false_and]

/-- The number before a multiple of the size of a network is its last one. -/
theorem or_not_mask_of_dvd (dvd : 2 ^ k ∣ a.toNat + 1) : a ||| ~~~(BitVec.allOnes w <<< k) = a := by
  refine BitVec.eq_of_getElem_eq fun i inside => ?_
  rw [BitVec.getElem_or, BitVec.getElem_not, getElem_mask]
  by_cases high : k ≤ i
  · rw [decide_eq_true high, Bool.not_true, Bool.or_false]
  · have low : a.toNat % 2 ^ k = 2 ^ k - 1 := by
      obtain ⟨m, value⟩ := dvd
      have pos : 0 < 2 ^ k := Nat.two_pow_pos k
      cases m with
      | zero => omega
      | succ m =>
        have split : a.toNat = 2 ^ k - 1 + 2 ^ k * m := by
          rw [Nat.mul_succ] at value
          omega
        rw [split, Nat.add_mul_mod_self_left, Nat.mod_eq_of_lt (by omega)]
    have bit : a[i] = true := by
      rw [← BitVec.getLsbD_eq_getElem inside, ← BitVec.testBit_toNat,
        ← Bool.true_and (a.toNat.testBit i), ← decide_eq_true (not_le.mp high),
        ← Nat.testBit_mod_two_pow, low, Nat.testBit_two_pow_sub_one,
        decide_eq_true (not_le.mp high)]
    rw [bit, Bool.true_or]

/-- A network that is not all numbers leaves one out. -/
theorem exists_outside {mask : BitVec w} (ne : mask ≠ 0) (net : BitVec w) :
    ∃ v, v &&& mask ≠ net &&& mask := by
  refine ⟨~~~net, fun same => ne (BitVec.eq_of_getElem_eq fun i inside => ?_)⟩
  have bit := congrArg (fun v : BitVec w => v[i]) same
  simp only [BitVec.getElem_and, BitVec.getElem_not] at bit
  cases set : mask[i] with
  | false => simp
  | true =>
    rw [set] at bit
    cases value : net[i] <;> rw [value] at bit <;> cases bit

/-- One network lies in another where its mask is longer and its number is in the other. -/
theorem network_subset_iff {net mask net' mask' : BitVec w} :
    (∀ v, v &&& mask' = net' &&& mask' → v &&& mask = net &&& mask) ↔
      mask' &&& mask = mask ∧ net' &&& mask = net &&& mask := by
  constructor
  · intro subset
    have own := subset net' rfl
    refine ⟨BitVec.eq_of_getElem_eq fun i inside => ?_, own⟩
    -- The number with the bits outside the mask turned round is in the network too.
    have turned : (net' ^^^ ~~~mask') &&& mask' = net' &&& mask' := by
      refine BitVec.eq_of_getElem_eq fun j inside' => ?_
      simp only [BitVec.getElem_and, BitVec.getElem_xor, BitVec.getElem_not]
      cases net'[j] <;> cases mask'[j] <;> rfl
    have bit := congrArg (fun v : BitVec w => v[i]) ((subset _ turned).trans own.symm)
    simp only [BitVec.getElem_and, BitVec.getElem_xor, BitVec.getElem_not] at bit ⊢
    revert bit
    cases net'[i] <;> cases mask'[i] <;> cases mask[i] <;> decide
  · rintro ⟨longer, own⟩ v same
    calc
      v &&& mask = v &&& mask' &&& mask := by rw [BitVec.and_assoc, longer]
      _ = net' &&& mask' &&& mask := by rw [same]
      _ = net' &&& mask := by rw [BitVec.and_assoc, longer]
      _ = net &&& mask := own

/-- A network begins and ends at an edge. -/
theorem edgesIn_network {mask : BitVec w} (contiguous : Contiguous mask) (net : BitVec w) :
    EdgesIn [net &&& mask, (net ||| ~~~mask) + 1] fun v => v &&& mask == net &&& mask := by
  obtain ⟨k, rfl⟩ := contiguous
  intro v ne changes
  have before := toNat_sub_one ne
  have dvd : 2 ^ k ∣ v.toNat := by
    by_contra inner
    refine changes ?_
    rw [Bool.eq_iff_iff, beq_iff_eq, beq_iff_eq, and_mask_eq_iff, and_mask_eq_iff, ← before,
      Nat.succ_div_of_not_dvd (before ▸ inner)]
  rw [List.mem_cons, List.mem_singleton]
  by_cases first : v &&& (BitVec.allOnes w <<< k) = net &&& (BitVec.allOnes w <<< k)
  · exact .inl ((and_mask_of_dvd dvd).symm.trans first)
  · have last : (v - 1) &&& (BitVec.allOnes w <<< k) = net &&& (BitVec.allOnes w <<< k) := by
      by_contra off
      refine changes ?_
      dsimp only
      rw [beq_eq_false_iff_ne.mpr first, beq_eq_false_iff_ne.mpr off]
    have full := or_not_mask_of_dvd (a := v - 1) (before ▸ dvd)
    have parts (x m : BitVec w) : x ||| ~~~m = x &&& m ||| ~~~m := by
      ext i
      simp
      cases x[i] <;> cases m[i] <;> rfl
    right
    rw [parts, ← last, ← parts, full]
    exact (BitVec.sub_add_cancel v 1).symm

end Edges
