import Mathlib.Data.BitVec

/-!
# Serial numbers

Sequence numbers of 32 bits that wrap around, compared by the sign of their difference.  Ahead of a
base, the distance to it is an ordinary number, and advancing the base shortens all distances alike.
-/

namespace SerialNumber

abbrev Seq := BitVec 32

/-- The signed distance from `base` to `s`. -/
def delta (s base : Seq) : ℤ := (s - base).toInt

theorem delta_nonneg_iff {s base : Seq} : 0 ≤ delta s base ↔ (s - base).toNat < 2 ^ 31 := by
  rw [delta, BitVec.toInt_eq_toNat_cond]
  split <;> omega

theorem delta_eq_toNat {s base : Seq} (ahead : (s - base).toNat < 2 ^ 31) :
    delta s base = (s - base).toNat := by
  rw [delta, BitVec.toInt_eq_toNat_cond]
  omega

theorem delta_eq_zero_iff {s base : Seq} : delta s base = 0 ↔ s = base := by
  constructor
  · intro zero
    have ahead := delta_nonneg_iff.mp zero.ge
    rw [delta_eq_toNat ahead] at zero
    bv_omega
  · rintro rfl
    simp [delta]

/-- The distance to a base that was advanced by no more than the distance. -/
theorem toNat_sub_of_advance {s base base' : Seq}
    (reached : (base' - base).toNat ≤ (s - base).toNat) :
    (s - base').toNat = (s - base).toNat - (base' - base).toNat := by
  bv_omega

theorem toNat_sub_succ {s base : Seq} (apart : s ≠ base) :
    (s - (base + 1)).toNat = (s - base).toNat - 1 := by
  bv_omega

/-- The distance of a number `k` further on. -/
theorem toNat_add_ofNat_sub {s base : Seq} {k : ℕ} (small : (s - base).toNat + k < 2 ^ 32) :
    (s + BitVec.ofNat 32 k - base).toNat = (s - base).toNat + k := by
  have shift : s + BitVec.ofNat 32 k - base = s - base + BitVec.ofNat 32 k := by bv_omega
  rw [shift, BitVec.toNat_add, BitVec.toNat_ofNat]
  omega

/-- The number `k` past the base. -/
theorem toNat_add_sub (base : Seq) {k : ℕ} (small : k < 2 ^ 32) :
    (base + BitVec.ofNat 32 k - base).toNat = k := by
  have := Nat.mod_eq_of_lt small
  bv_omega

/-- The distance to the number `k` past the base. -/
theorem toNat_sub_add {s base : Seq} {k : ℕ} (small : k < 2 ^ 32) (reached : k ≤ (s - base).toNat) :
    (s - (base + BitVec.ofNat 32 k)).toNat = (s - base).toNat - k := by
  rw [toNat_sub_of_advance, toNat_add_sub base small]
  rwa [toNat_add_sub base small]

theorem eq_of_toNat_sub_eq {s s' base : Seq} (same : (s - base).toNat = (s' - base).toNat) :
    s = s' := by
  bv_omega

/-- The signed distance of two numbers by their distances to a base. -/
theorem delta_eq_sub (base : Seq) {s b : Seq}
    (low : (b - base).toNat ≤ (s - base).toNat + 2 ^ 31)
    (high : (s - base).toNat < (b - base).toNat + 2 ^ 31) :
    delta s b = ((s - base).toNat : ℤ) - (b - base).toNat := by
  rw [delta, BitVec.toInt_eq_toNat_cond]
  split <;> bv_omega

/-- A base that stays short of a number that lies ahead of it is advanced. -/
theorem delta_sub_pos {s base : Seq} (far : 256 ≤ delta s base) : 0 < delta (s - 255) base := by
  have near := delta_nonneg_iff.mp (by omega : 0 ≤ delta s base)
  rw [delta_eq_toNat near] at far
  have shorter : (s - 255 - base).toNat = (s - base).toNat - 255 := by bv_omega
  rw [delta_eq_toNat (by omega), shorter]
  omega

/-- The place of a sequence number in a window of 256. -/
def place (s : Seq) : Fin 256 := ⟨s.toNat % 256, Nat.mod_lt _ (by decide)⟩

/-- In a window of 256 the place names the sequence number. -/
theorem eq_of_place_eq {s s' base : Seq} (inWindow : (s - base).toNat < 256)
    (inWindow' : (s' - base).toNat < 256) (same : place s = place s') : s = s' := by
  have same : s.toNat % 256 = s'.toNat % 256 := congrArg Fin.val same
  bv_omega

end SerialNumber
