import Mathlib.Algebra.Order.BigOperators.Group.Finset
import Mathlib.Algebra.BigOperators.Ring.Finset
import Mathlib.Tactic.Linarith
import Mathlib.Tactic.Ring

/-!
# Weighted rounds

Places with weights take turns: in a round every place is credited with its weight and a place with
the most credit is chosen and pays the total of the weights.  The credits sum to zero and stay above
minus the total, so a period of as many rounds as the total chooses every place as often as its
weight says, whatever the ties.
-/

namespace WeightedRounds

open Finset

variable {ι : Type*} [Fintype ι] [DecidableEq ι] {weight credit credit' : ι → ℤ} {chosen : ι}
  {picks : List ι} {bound : ℤ}

/-- One round. -/
structure Round (weight credit : ι → ℤ) (chosen : ι) (credit' : ι → ℤ) : Prop where
  most : ∀ i, credit i + weight i ≤ credit chosen + weight chosen
  pays : ∀ i, credit' i = credit i + weight i - if i = chosen then ∑ j, weight j else 0

/-- A run of rounds, with the places chosen. -/
inductive Rounds (weight : ι → ℤ) : (ι → ℤ) → List ι → (ι → ℤ) → Prop
  | nil (credit : ι → ℤ) : Rounds weight credit [] credit
  | cons {credit credit' credit'' : ι → ℤ} {chosen : ι} {picks : List ι} :
    Round weight credit chosen credit' → Rounds weight credit' picks credit'' →
      Rounds weight credit (chosen :: picks) credit''

/-- What holds between the rounds, with a bound on the totals. -/
structure Balanced (bound : ℤ) (credit : ι → ℤ) : Prop where
  sum_eq : ∑ i, credit i = 0
  above : ∀ i, -bound < credit i

/-- Whoever pays the total, the sum of the credits stays. -/
theorem sum_eq_of_pays
    (pays : ∀ i, credit' i = credit i + weight i - if i = chosen then ∑ j, weight j else 0) :
    ∑ i, credit' i = ∑ i, credit i := by
  rw [sum_congr rfl fun i _ => pays i, sum_sub_distrib, sum_add_distrib,
    sum_ite_eq' univ chosen, if_pos (mem_univ chosen)]
  ring

theorem Round.sum_eq (round : Round weight credit chosen credit') :
    ∑ i, credit' i = ∑ i, credit i :=
  sum_eq_of_pays round.pays

/-- The place chosen has a positive credit, since the credits sum to the total. -/
theorem Round.chosen_pos (round : Round weight credit chosen credit') (total : 0 < ∑ i, weight i)
    (zero : ∑ i, credit i = 0) : 0 < credit chosen + weight chosen := by
  by_contra low
  have none_more : ∑ i, (credit i + weight i) ≤ 0 :=
    sum_nonpos fun i _ => (round.most i).trans (not_lt.mp low)
  rw [sum_add_distrib, zero] at none_more
  linarith

theorem Round.balanced (round : Round weight credit chosen credit') (total : 0 < ∑ i, weight i)
    (bounded : ∑ i, weight i ≤ bound) (nonneg : ∀ i, 0 ≤ weight i)
    (balanced : Balanced bound credit) : Balanced bound credit' := by
  refine ⟨round.sum_eq.trans balanced.sum_eq, fun i => ?_⟩
  rw [round.pays i]
  by_cases here : i = chosen
  · have positive := round.chosen_pos total balanced.sum_eq
    rw [if_pos here, here]
    linarith
  · have before := balanced.above i
    have more := nonneg i
    rw [if_neg here]
    linarith

/-- What a place has been credited and has paid. -/
theorem Rounds.ledger (rounds : Rounds weight credit picks credit') (i : ι) :
    credit' i = credit i + picks.length * weight i - picks.count i * ∑ j, weight j := by
  induction rounds with
  | nil credit => simp
  | cons round rounds ih =>
    rw [ih, round.pays i, List.length_cons, List.count_cons]
    rename_i chosen picks
    by_cases here : i = chosen
    · rw [if_pos here, if_pos (by simp [here])]
      push_cast
      ring
    · rw [if_neg here, if_neg (by simp [Ne.symm here])]
      push_cast
      ring

theorem Rounds.sum_eq (rounds : Rounds weight credit picks credit') :
    ∑ i, credit' i = ∑ i, credit i := by
  induction rounds with
  | nil credit => rfl
  | cons round rounds ih => rw [ih, round.sum_eq]

theorem Rounds.balanced (rounds : Rounds weight credit picks credit')
    (total : 0 < ∑ i, weight i) (bounded : ∑ i, weight i ≤ bound) (nonneg : ∀ i, 0 ≤ weight i)
    (balanced : Balanced bound credit) : Balanced bound credit' := by
  induction rounds with
  | nil credit => exact balanced
  | cons round rounds ih => exact ih (round.balanced total bounded nonneg balanced)

theorem sum_count_eq (picks : List ι) : ∑ i, picks.count i = picks.length := by
  simpa using Multiset.sum_count_eq_card (s := univ) (m := (picks : Multiset ι)) (by simp)

/-- Counting the names of the places chosen. -/
theorem count_map_eq_sum {κ : Type*} [DecidableEq κ] (name : ι → κ) (picks : List ι) (x : κ) :
    (picks.map name).count x = ∑ i, if name i = x then picks.count i else 0 := by
  induction picks with
  | nil => simp
  | cons place picks ih =>
    have split (i : ι) : (if name i = x then (place :: picks).count i else 0) =
        (if name i = x then picks.count i else 0) +
          if i = place then (if name place = x then 1 else 0) else 0 := by
      by_cases here : i = place
      · subst here
        by_cases same : name i = x <;> simp [same]
      · by_cases same : name i = x <;> simp [same, here, Ne.symm here]
    rw [sum_congr rfl fun i _ => split i, sum_add_distrib, ← ih,
      sum_ite_eq' univ place, if_pos (mem_univ place), List.map_cons, List.count_cons]
    simp

omit [DecidableEq ι] in
theorem balanced_zero (positive : 0 < bound) : Balanced bound (0 : ι → ℤ) :=
  ⟨sum_const_zero, fun _ => by simpa using positive⟩

/-- No credit is above what all the others may owe. -/
theorem Balanced.below (balanced : Balanced bound credit) (i : ι) :
    credit i ≤ Fintype.card ι * bound - bound := by
  have owed : ∑ j ∈ univ.erase i, -bound ≤ ∑ j ∈ univ.erase i, credit j :=
    sum_le_sum fun j _ => (balanced.above j).le
  have whole := add_sum_erase univ credit (mem_univ i)
  rw [sum_const, card_erase_of_mem (mem_univ i), card_univ, nsmul_eq_mul,
    Nat.cast_sub (Fintype.card_pos_iff.mpr ⟨i⟩), Nat.cast_one] at owed
  rw [balanced.sum_eq] at whole
  linarith

/-- No place is chosen more often than its weight in a period. -/
theorem Rounds.count_le (rounds : Rounds weight 0 picks credit') (total : 0 < ∑ i, weight i)
    (nonneg : ∀ i, 0 ≤ weight i) (period : (picks.length : ℤ) = ∑ i, weight i) (i : ι) :
    (picks.count i : ℤ) ≤ weight i := by
  have ledger := rounds.ledger i
  have above := (rounds.balanced total le_rfl nonneg (balanced_zero total)).above i
  rw [ledger, period] at above
  by_contra more
  have enough : weight i + 1 ≤ (picks.count i : ℤ) := not_le.mp more
  have paid := mul_le_mul_of_nonneg_right enough total.le
  simp only [Pi.zero_apply] at above
  linarith

/-- A period chooses every place as often as its weight says and leaves no credit. -/
theorem Rounds.exact (rounds : Rounds weight 0 picks credit') (total : 0 < ∑ i, weight i)
    (nonneg : ∀ i, 0 ≤ weight i) (period : (picks.length : ℤ) = ∑ i, weight i) :
    (∀ i, (picks.count i : ℤ) = weight i) ∧ credit' = 0 := by
  have atMost := rounds.count_le total nonneg period
  have sums : ∑ i, (picks.count i : ℤ) = ∑ i, weight i := by
    rw [← period, ← sum_count_eq picks, Nat.cast_sum]
  have counts : ∀ i, (picks.count i : ℤ) = weight i := fun i =>
    (sum_eq_sum_iff_of_le fun i _ => atMost i).mp sums i (mem_univ i)
  refine ⟨counts, funext fun i => ?_⟩
  rw [rounds.ledger i, counts i, period]
  simp only [Pi.zero_apply]
  ring

end WeightedRounds
