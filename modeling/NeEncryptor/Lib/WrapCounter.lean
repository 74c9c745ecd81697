import Mathlib.Data.List.Nodup
import Mathlib.Data.Int.ModEq
import Mathlib.Data.Nat.ModEq

/-!
# Stamping a stream from a wrapping counter

`stamped m c ks` pairs each item of the stream `ks` with a counter of period `m` that is stepped
before each use.  The stamp repeats exactly for equal items at a distance divisible by `m`.
-/

namespace WrapCounter

variable {κ : Type*} (m : ℕ)

/-- Each item with the counter value it is used under, the counter being at `c` beforehand. -/
def stamped (c : ℕ) : List κ → List (κ × ℕ)
  | [] => []
  | k :: ks => (k, (c + 1) % m) :: stamped (c + 1) ks

@[simp] theorem stamped_length (c : ℕ) (ks : List κ) : (stamped m c ks).length = ks.length := by
  induction ks generalizing c with
  | nil => rfl
  | cons k ks ih => simp [stamped, ih]

theorem stamped_getElem? (c i : ℕ) (ks : List κ) :
    (stamped m c ks)[i]? = ks[i]?.map fun k => (k, (c + 1 + i) % m) := by
  induction ks generalizing c i with
  | nil => rfl
  | cons k ks ih =>
    cases i with
    | zero => rfl
    | succ i =>
      rw [stamped, List.getElem?_cons_succ, List.getElem?_cons_succ, ih (c + 1) i,
        show c + 1 + 1 + i = c + 1 + (i + 1) by omega]

theorem stamped_lt (positive : 0 < m) (c : ℕ) (ks : List κ) :
    ∀ use ∈ stamped m c ks, use.2 < m := by
  induction ks generalizing c with
  | nil => simp [stamped]
  | cons k ks ih =>
    intro use h
    rcases List.mem_cons.mp h with rfl | h
    · exact Nat.mod_lt _ positive
    · exact ih (c + 1) use h

/-- Only the residue of the counter's starting value matters. -/
theorem stamped_congr {c d : ℕ} (h : c ≡ d [MOD m]) (ks : List κ) :
    stamped m c ks = stamped m d ks := by
  induction ks generalizing c d with
  | nil => rfl
  | cons k ks ih =>
    have step : c + 1 ≡ d + 1 [MOD m] := h.add_right 1
    rw [stamped, stamped, ih step, step]

/-- Two counter values agree exactly when their positions are a multiple of the period apart. -/
theorem stamp_eq_iff (c i j : ℕ) (hij : i ≤ j) : (c + i) % m = (c + j) % m ↔ m ∣ j - i := by
  rw [show j - i = c + j - (c + i) by omega]
  exact Nat.modEq_iff_dvd' (by omega)

/-- No item of the stream recurs at a distance that is a multiple of the period. -/
def Apart (ks : List κ) : Prop :=
  ∀ i j, i < j → j < ks.length → ks[i]? = ks[j]? → ¬ m ∣ j - i

/-- The stamped stream has no repetition exactly when equal items lie apart. -/
theorem stamped_nodup_iff (c : ℕ) (ks : List κ) : (stamped m c ks).Nodup ↔ Apart m ks := by
  rw [List.nodup_iff_getElem?_ne_getElem?]
  have same (i j : ℕ) (hij : i < j) (hj : j < ks.length) :
      (stamped m c ks)[i]? = (stamped m c ks)[j]? ↔ ks[i]? = ks[j]? ∧ m ∣ j - i := by
    have hi : i < ks.length := hij.trans hj
    rw [stamped_getElem?, stamped_getElem?, List.getElem?_eq_getElem hi,
      List.getElem?_eq_getElem hj, ← stamp_eq_iff m (c + 1) i j hij.le]
    simp
  constructor
  · intro distinct i j hij hj equal divides
    exact distinct i j hij (by simpa using hj) ((same i j hij hj).mpr ⟨equal, divides⟩)
  · intro apart i j hij hj equal
    have hj' : j < ks.length := by simpa using hj
    obtain ⟨equal, divides⟩ := (same i j hij hj').mp equal
    exact apart i j hij hj' equal divides

/-- A stream longer than the period that never changes its item does repeat a stamp. -/
theorem not_apart_replicate (k : κ) (n : ℕ) (positive : 0 < m) (long : m < n) :
    ¬ Apart m (List.replicate n k) := by
  intro apart
  refine apart 0 m positive (by simpa using long) ?_ (by simp)
  rw [List.getElem?_replicate_of_lt (positive.trans long), List.getElem?_replicate_of_lt long]

end WrapCounter
