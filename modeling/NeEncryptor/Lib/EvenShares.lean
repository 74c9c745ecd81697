import Mathlib.Algebra.BigOperators.Group.List.Basic
import Mathlib.Algebra.Order.Ring.Int
import Mathlib.Data.List.Indexes
import Mathlib.Data.List.Induction

/-!
# Even shares

A total is split into as many whole shares as there are places: the quotient for every place, and
one more for the first places, as many as the remainder says.
-/

namespace EvenShares

/-- The share of a place; the division is that of a language that rounds towards zero. -/
def share (total : ℤ) (n i : ℕ) : ℤ :=
  total.tdiv n + if (i : ℤ) < total.tmod n then 1 else 0

variable {total : ℤ} {n : ℕ}

theorem share_zero (n i : ℕ) : share 0 n i = 0 := by
  rw [share, Int.zero_tdiv, Int.zero_tmod, if_neg (by omega), Int.add_zero]

theorem share_nonneg (positive : 0 ≤ total) (i : ℕ) : 0 ≤ share total n i := by
  have quotient : 0 ≤ total.tdiv n := Int.tdiv_nonneg positive (Int.natCast_nonneg n)
  unfold share
  split <;> omega

theorem share_sub_le (total : ℤ) (n i j : ℕ) : share total n i - share total n j ≤ 1 := by
  unfold share
  split <;> split <;> omega

theorem sum_range_ite (n r : ℕ) :
    ((List.range n).map fun i => if i < r then (1 : ℤ) else 0).sum = min n r := by
  induction n with
  | zero => rfl
  | succ n ih =>
    rw [List.range_succ, List.map_append, List.sum_append, ih]
    simp only [List.map_cons, List.map_nil, List.sum_singleton]
    split <;> omega

/-- Nothing is lost. -/
theorem sum_share (positive : 0 ≤ total) (some : 0 < n) :
    ((List.range n).map (share total n)).sum = total := by
  have rest := Int.tmod_lt_of_pos total (Int.natCast_pos.mpr some)
  have rest_nonneg : 0 ≤ total.tmod n := Int.tmod_nonneg _ positive
  obtain ⟨r, remainder⟩ := Int.eq_ofNat_of_zero_le rest_nonneg
  have parts : share total n = fun i => total.tdiv n + if i < r then (1 : ℤ) else 0 := by
    funext i
    rw [share, remainder]
    simp only [Int.ofNat_lt]
  have whole := Int.mul_tdiv_add_tmod total n
  rw [parts, List.sum_map_add, sum_range_ite, List.map_const', List.sum_replicate,
    List.length_range, nsmul_eq_mul]
  omega

/-- What a list of weights gets. -/
theorem sum_mapIdx_add {α : Type*} (f : α → ℤ) (g : ℕ → ℤ) (l : List α) :
    (l.mapIdx fun i a => f a + g i).sum = (l.map f).sum + ((List.range l.length).map g).sum := by
  induction l using List.reverseRecOn with
  | nil => rfl
  | append_singleton l a ih =>
    rw [List.mapIdx_concat, List.sum_append, ih, List.map_append, List.sum_append,
      List.length_append, List.length_singleton, List.range_succ, List.map_append, List.sum_append]
    simp only [List.map_cons, List.map_nil, List.sum_singleton]
    omega

end EvenShares
