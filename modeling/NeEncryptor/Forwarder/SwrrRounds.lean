import Mathlib.Algebra.BigOperators.Fin
import NeEncryptor.Forwarder.FlowTable
import NeEncryptor.Lib.WeightedRounds

/-!
# The rounds of the scheduler

`flow_swrr_pick` on a pool of WANs with positive weights is a weighted round, so every period of
picks returns each WAN as often as its weight says.
-/

namespace NeEncryptor.Wan

open WeightedRounds

variable {pool : List (ℤ × ℤ)} {state : Swrr}

/-- The weight of a WAN in a pool: the sum over its entries. -/
def weightOf (pool : List (ℤ × ℤ)) (wan : ℤ) : ℤ :=
  ((pool.filter fun entry => entry.1 = wan).map Prod.snd).sum

namespace Swrr

/-- What `flow_swrr_pick` adds to the credit of a WAN. -/
def added (weight : ℤ) : ℤ := if 0 < weight then weight else 0

/-- The credits of a state, place by place. -/
def credit (state : Swrr) (pool : List (ℤ × ℤ)) (i : Fin pool.length) : ℤ :=
  state.current.getD i 0

/-- The weights of a pool, place by place. -/
def weightAt (pool : List (ℤ × ℤ)) (i : Fin pool.length) : ℤ := pool[i].2

/-- The WANs of a pool, place by place. -/
def wanAt (pool : List (ℤ × ℤ)) (i : Fin pool.length) : ℤ := pool[i].1

/-- The credits after the first loop of `flow_swrr_pick`. -/
def credited (state : Swrr) (pool : List (ℤ × ℤ)) : List ℤ :=
  (List.zip state.current (pool.map Prod.snd)).map fun c => if 0 < c.2 then c.1 + c.2 else c.1

/-- The order of the search of `flow_swrr_pick`. -/
def visits (state : Swrr) (pool : List (ℤ × ℤ)) : List ℕ :=
  (List.range pool.length).map fun off => (state.tieStart + off) % pool.length

/-- What the search of `flow_swrr_pick` ends with. -/
def best (state : Swrr) (pool : List (ℤ × ℤ)) : ℕ :=
  ((state.visits pool).foldl (searchStep (pool.map Prod.snd) (state.credited pool)) none).getD 0

/-- Picks one after the other, each on its own pool. -/
def picks (state : Swrr) : List (List (ℤ × ℤ)) → Swrr × List ℤ
  | [] => (state, [])
  | pool :: pools =>
    let picked := state.pick pool
    let rest := picks picked.1 pools
    (rest.1, picked.2 :: rest.2)

theorem pick_of_total (two : 2 ≤ pool.length)
    (total : 0 < ((pool.map Prod.snd).filter (0 < ·)).sum) :
    state.pick pool =
      ({ state with
          current := (state.credited pool).modify (state.best pool)
            (· - ((pool.map Prod.snd).filter (0 < ·)).sum)
          tieStart := (state.best pool + 1) % pool.length },
        (pool.map Prod.fst).getD (state.best pool) 0) := by
  rw [pick]
  dsimp only
  rw [if_neg (by omega), if_neg (by omega)]
  rfl

theorem pick_of_none (two : 2 ≤ pool.length)
    (total : ((pool.map Prod.snd).filter (0 < ·)).sum ≤ 0) :
    (state.pick pool).1.current = state.current := by
  rw [pick]
  dsimp only
  rw [if_neg (by omega), if_pos total]

theorem length_credited (same : state.current.length = pool.length) :
    (state.credited pool).length = pool.length := by
  simp [credited, same]

theorem getD_credited (same : state.current.length = pool.length) (i : Fin pool.length) :
    (state.credited pool).getD i 0 = state.credit pool i + added (weightAt pool i) := by
  have inside : (i : ℕ) < (List.zip state.current (pool.map Prod.snd)).length := by
    simp [same]
  have inCurrent : (i : ℕ) < state.current.length := by omega
  rw [credited, List.getD_eq_getElem?_getD, List.getElem?_map, List.getElem?_eq_getElem inside,
    credit, List.getD_eq_getElem?_getD, List.getElem?_eq_getElem inCurrent]
  simp only [Option.map_some, Option.getD_some, List.getElem_zip, List.getElem_map, added, weightAt,
    Fin.getElem_fin]
  split <;> omega

theorem mem_visits (state : Swrr) {i : ℕ} :
    i ∈ state.visits pool ↔ i < pool.length := by
  rw [visits, List.mem_map]
  constructor
  · rintro ⟨off, inside, rfl⟩
    exact Nat.mod_lt _ (by have := List.mem_range.mp inside; omega)
  · intro inside
    refine ⟨(i + pool.length - state.tieStart % pool.length) % pool.length,
      List.mem_range.mpr (Nat.mod_lt _ (by omega)), ?_⟩
    have start := Nat.mod_lt state.tieStart (y := pool.length) (by omega)
    rw [Nat.add_mod, Nat.mod_mod, ← Nat.add_mod, Nat.add_mod, Nat.add_mod_mod]
    have whole : state.tieStart % pool.length + (i + pool.length - state.tieStart % pool.length) =
        i + pool.length := by omega
    rw [whole, Nat.add_mod_right, Nat.mod_eq_of_lt inside]

theorem best_lt (two : 2 ≤ pool.length) : state.best pool < pool.length := by
  rw [best]
  rcases found : List.foldl _ _ _ with _ | b
  · exact (by omega : 0 < pool.length)
  · exact search_lt (fun i visited => (state.mem_visits).mp visited) (fun _ h => by cases h) b found

/-- The search keeps a WAN with at least the credit of every WAN it has seen. -/
theorem search_most {weights : List ℤ} (current : List ℤ) {visits seen : List ℕ} {start : Option ℕ}
    (positive : ∀ i ∈ visits, 0 < weights.getD i 0)
    (sofar : (start = none ∧ seen = []) ∨
      ∃ b, start = some b ∧ ∀ i ∈ seen, current.getD i 0 ≤ current.getD b 0) :
    ((visits.foldl (searchStep weights current) start) = none ∧ seen ++ visits = []) ∨
      ∃ b, visits.foldl (searchStep weights current) start = some b ∧
        ∀ i ∈ seen ++ visits, current.getD i 0 ≤ current.getD b 0 := by
  induction visits generalizing start seen with
  | nil => simpa using sofar
  | cons v visits ih =>
    have here : ¬weights.getD v 0 ≤ 0 := not_le.mpr (positive v List.mem_cons_self)
    have later : ∀ i ∈ visits, 0 < weights.getD i 0 :=
      fun i inside => positive i (List.mem_cons_of_mem v inside)
    have regroup : seen ++ v :: visits = (seen ++ [v]) ++ visits := by simp
    rw [List.foldl_cons, regroup]
    refine ih later (Or.inr ?_)
    rcases sofar with ⟨rfl, rfl⟩ | ⟨b, rfl, most⟩
    · refine ⟨v, by rw [searchStep, if_neg here], fun i inside => ?_⟩
      rw [List.mem_singleton.mp inside]
    · rw [searchStep, if_neg here]
      split
      · rename_i more
        refine ⟨v, rfl, fun i inside => ?_⟩
        rcases List.mem_append.mp inside with old | new
        · exact (most i old).trans more.le
        · rw [List.mem_singleton.mp new]
      · rename_i less
        refine ⟨b, rfl, fun i inside => ?_⟩
        rcases List.mem_append.mp inside with old | new
        · exact most i old
        · rw [List.mem_singleton.mp new]
          exact not_lt.mp less

/-- With positive weights the search finds a WAN with the most credit. -/
theorem best_most (state : Swrr) (positive : ∀ entry ∈ pool, 0 < entry.2) {i : ℕ}
    (inside : i < pool.length) :
    (state.credited pool).getD i 0 ≤ (state.credited pool).getD (state.best pool) 0 := by
  have weights : ∀ j ∈ state.visits pool, 0 < (pool.map Prod.snd).getD j 0 := by
    intro j visited
    have small := state.mem_visits.mp visited
    rw [List.getD_eq_getElem?_getD, List.getElem?_map, List.getElem?_eq_getElem small]
    exact positive _ (List.getElem_mem small)
  have visited : i ∈ [] ++ state.visits pool := by simpa using state.mem_visits.mpr inside
  rcases search_most (state.credited pool) weights (Or.inl ⟨rfl, rfl⟩) with
    ⟨-, empty⟩ | ⟨b, found, most⟩
  · rw [empty] at visited
    cases visited
  · rw [best, found]
    exact most i visited

theorem sum_filter_pos (weights : List ℤ) :
    (weights.filter (0 < ·)).sum = (weights.map added).sum := by
  induction weights with
  | nil => rfl
  | cons w weights ih =>
    by_cases positive : 0 < w
    · simp [positive, added, ih]
    · simp [positive, added, ih]

theorem sum_added (pool : List (ℤ × ℤ)) :
    ((pool.map Prod.snd).filter (0 < ·)).sum = ∑ i, added (weightAt pool i) := by
  rw [sum_filter_pos, List.map_map]
  exact (Fin.sum_univ_fun_getElem pool (added ∘ Prod.snd)).symm

theorem added_of_positive (positive : ∀ entry ∈ pool, 0 < entry.2) (i : Fin pool.length) :
    added (weightAt pool i) = weightAt pool i :=
  if_pos (positive _ (List.getElem_mem i.2))

theorem sum_weightAt (pool : List (ℤ × ℤ)) : ∑ i, weightAt pool i = (pool.map Prod.snd).sum :=
  Fin.sum_univ_fun_getElem pool Prod.snd

theorem sum_credit (same : state.current.length = pool.length) :
    ∑ i, state.credit pool i = state.current.sum := by
  rw [← Fin.sum_univ_getElem]
  refine (Fintype.sum_equiv (finCongr same) _ _ fun i => ?_).symm
  simp [credit]

theorem length_pick (two : 2 ≤ pool.length) (same : state.current.length = pool.length) :
    (state.pick pool).1.current.length = pool.length := by
  rcases lt_or_ge 0 ((pool.map Prod.snd).filter (0 < ·)).sum with total | none_positive
  · rw [pick_of_total two total, List.length_modify, length_credited same]
  · rw [pick_of_none two none_positive, same]

/-- What a pick does to the credits, whatever the weights. -/
theorem credit_pick (two : 2 ≤ pool.length) (same : state.current.length = pool.length)
    (total : 0 < ((pool.map Prod.snd).filter (0 < ·)).sum) (i : Fin pool.length) :
    (state.pick pool).1.credit pool i = state.credit pool i + added (weightAt pool i) -
      if i = ⟨state.best pool, best_lt two⟩ then ∑ j, added (weightAt pool j) else 0 := by
  have inside : (i : ℕ) < (state.credited pool).length := by
    rw [length_credited same]
    exact i.2
  rw [pick_of_total two total, credit, ← getD_credited same, ← sum_added,
    List.getD_eq_getElem?_getD, List.getD_eq_getElem?_getD, List.getElem?_modify]
  by_cases here : state.best pool = i
  · simp [here, List.getElem?_eq_getElem inside]
  · simp [here, Fin.ext_iff, Ne.symm here, List.getElem?_eq_getElem inside]

/-- The credits keep their sum, whatever the weights. -/
theorem sum_pick (two : 2 ≤ pool.length) (same : state.current.length = pool.length) :
    (state.pick pool).1.current.sum = state.current.sum := by
  rcases lt_or_ge 0 ((pool.map Prod.snd).filter (0 < ·)).sum with total | none_positive
  · rw [← sum_credit (length_pick two same), ← sum_credit same]
    exact sum_eq_of_pays (credit_pick two same total)
  · rw [pick_of_none two none_positive]

theorem total_pos (two : 2 ≤ pool.length) (positive : ∀ entry ∈ pool, 0 < entry.2) :
    0 < (pool.map Prod.snd).sum := by
  refine List.sum_pos _ (fun w inside => ?_) fun empty => ?_
  · obtain ⟨entry, mem, rfl⟩ := List.mem_map.mp inside
    exact positive entry mem
  · rw [List.map_eq_nil_iff.mp empty] at two
    cases two

/-- On positive weights a pick is a weighted round. -/
theorem pick_round (two : 2 ≤ pool.length) (positive : ∀ entry ∈ pool, 0 < entry.2)
    (same : state.current.length = pool.length) :
    ∃ place : Fin pool.length, (state.pick pool).2 = wanAt pool place ∧
      Round (weightAt pool) (state.credit pool) place ((state.pick pool).1.credit pool) := by
  have weights : (fun i => added (weightAt pool i)) = weightAt pool :=
    funext (added_of_positive positive)
  have total : 0 < ((pool.map Prod.snd).filter (0 < ·)).sum := by
    rw [sum_added, weights, sum_weightAt]
    exact total_pos two positive
  refine ⟨⟨state.best pool, best_lt two⟩, ?_, fun i => ?_, fun i => ?_⟩
  · rw [pick_of_total two total, List.getD_eq_getElem?_getD, List.getElem?_map,
      List.getElem?_eq_getElem (best_lt two)]
    rfl
  · have most := state.best_most positive i.2
    rwa [getD_credited same, getD_credited same ⟨state.best pool, best_lt two⟩,
      added_of_positive positive, added_of_positive positive] at most
  · rw [credit_pick two same total, weights, added_of_positive positive]

/-! ### Runs of picks -/

theorem picks_append (state : Swrr) (pools pools' : List (List (ℤ × ℤ))) :
    state.picks (pools ++ pools') =
      (((state.picks pools).1.picks pools').1,
        (state.picks pools).2 ++ ((state.picks pools).1.picks pools').2) := by
  induction pools generalizing state with
  | nil => rfl
  | cons pool pools ih => simp [picks, ih]

theorem picks_rounds (two : 2 ≤ pool.length) (positive : ∀ entry ∈ pool, 0 < entry.2) (k : ℕ)
    (same : state.current.length = pool.length) :
    ∃ places : List (Fin pool.length), places.length = k ∧
      (state.picks (List.replicate k pool)).2 = places.map (wanAt pool) ∧
      Rounds (weightAt pool) (state.credit pool) places
        ((state.picks (List.replicate k pool)).1.credit pool) := by
  induction k generalizing state with
  | zero => exact ⟨[], rfl, rfl, .nil _⟩
  | succ k ih =>
    obtain ⟨place, picked, round⟩ := pick_round two positive same
    obtain ⟨places, length, returned, rounds⟩ := ih (length_pick two same)
    refine ⟨place :: places, by rw [List.length_cons, length], ?_, .cons round rounds⟩
    rw [List.replicate_succ, picks, List.map_cons, ← returned, ← picked]

theorem length_picks {n : ℕ} {pools : List (List (ℤ × ℤ))} (two : 2 ≤ n)
    (lengths : ∀ p ∈ pools, p.length = n) (same : state.current.length = n) :
    (state.picks pools).1.current.length = n := by
  induction pools generalizing state with
  | nil => exact same
  | cons p pools ih =>
    have here := lengths p List.mem_cons_self
    refine ih (fun q inside => lengths q (List.mem_cons_of_mem p inside)) ?_
    rw [length_pick (by omega) (by omega), here]

theorem sum_picks {n : ℕ} {pools : List (List (ℤ × ℤ))} (two : 2 ≤ n)
    (lengths : ∀ p ∈ pools, p.length = n) (same : state.current.length = n) :
    (state.picks pools).1.current.sum = state.current.sum := by
  induction pools generalizing state with
  | nil => rfl
  | cons p pools ih =>
    have here := lengths p List.mem_cons_self
    have next : (state.pick p).1.current.length = n := by
      rw [length_pick (by omega) (by omega), here]
    rw [picks, ih (fun q inside => lengths q (List.mem_cons_of_mem p inside)) next,
      sum_pick (by omega) (by omega)]

theorem weightOf_eq_sum (pool : List (ℤ × ℤ)) (wan : ℤ) :
    weightOf pool wan =
      ∑ i : Fin pool.length, if wanAt pool i = wan then weightAt pool i else 0 := by
  have fold : weightOf pool wan =
      (pool.map fun entry => if entry.1 = wan then entry.2 else 0).sum := by
    induction pool with
    | nil => rfl
    | cons entry pool ih =>
      by_cases here : entry.1 = wan
      · simpa [weightOf, here] using ih
      · simpa [weightOf, here] using ih
  rw [fold]
  exact (Fin.sum_univ_fun_getElem pool fun entry => if entry.1 = wan then entry.2 else 0).symm

theorem current_of_credit (same : state.current.length = pool.length)
    (zero : state.credit pool = 0) : state.current = pool.map fun _ => 0 := by
  refine List.ext_getElem (by rw [same, List.length_map]) fun i inside _ => ?_
  have here := congrFun zero ⟨i, by omega⟩
  rw [credit, List.getD_eq_getElem?_getD, List.getElem?_eq_getElem inside] at here
  rw [List.getElem_map]
  exact here

theorem credit_of_current (zero : state.current = pool.map fun _ => 0) :
    state.credit pool = 0 := by
  funext i
  rw [credit, zero, List.getD_eq_getElem?_getD, List.getElem?_map,
    List.getElem?_eq_getElem i.2]
  rfl

/-- A period of picks from credits of zero. -/
theorem picks_period (two : 2 ≤ pool.length) (positive : ∀ entry ∈ pool, 0 < entry.2)
    (zero : state.current = pool.map fun _ => 0) :
    let block := state.picks (List.replicate (pool.map Prod.snd).sum.toNat pool)
    (∀ wan, (block.2.count wan : ℤ) = weightOf pool wan) ∧
      block.1.current = pool.map fun _ => 0 := by
  intro block
  have same : state.current.length = pool.length := by rw [zero, List.length_map]
  have total := total_pos two positive
  obtain ⟨places, length, returned, rounds⟩ :=
    picks_rounds two positive (pool.map Prod.snd).sum.toNat same
  rw [credit_of_current zero] at rounds
  have period : (places.length : ℤ) = ∑ i, weightAt pool i := by
    rw [length, sum_weightAt, Int.toNat_of_nonneg total.le]
  obtain ⟨counts, left⟩ := rounds.exact (by rwa [sum_weightAt])
    (fun i => (positive _ (List.getElem_mem i.2)).le) period
  refine ⟨fun wan => ?_, current_of_credit ?_ left⟩
  · rw [returned, count_map_eq_sum, weightOf_eq_sum, Nat.cast_sum]
    refine Finset.sum_congr rfl fun i _ => ?_
    rw [← counts i]
    split <;> rfl
  · exact length_picks two (fun p inside => by rw [List.eq_of_mem_replicate inside]) same

theorem picks_blocks (two : 2 ≤ pool.length) (positive : ∀ entry ∈ pool, 0 < entry.2)
    (zero : state.current = pool.map fun _ => 0) (k : ℕ) :
    (state.picks (List.replicate (k * (pool.map Prod.snd).sum.toNat) pool)).1.current =
      pool.map fun _ => 0 := by
  induction k with
  | zero => rw [Nat.zero_mul]; exact zero
  | succ k ih =>
    rw [Nat.succ_mul, List.replicate_add, picks_append]
    exact (picks_period two positive ih).2

theorem le_of_above {bound : ℤ} {credits : List ℤ} (sum : credits.sum = 0)
    (above : ∀ c ∈ credits, -bound < c) {c : ℤ} (inside : c ∈ credits) :
    c ≤ credits.length * bound - bound := by
  obtain ⟨i, small, rfl⟩ := List.getElem_of_mem inside
  have balanced : Balanced bound fun i : Fin credits.length => credits[i.1] :=
    ⟨by rw [Fin.sum_univ_getElem, sum], fun i => above _ (List.getElem_mem i.2)⟩
  simpa using balanced.below ⟨i, small⟩

theorem balanced_credit {bound : ℤ} (same : state.current.length = pool.length) :
    Balanced bound (state.credit pool) ↔
      state.current.sum = 0 ∧ ∀ c ∈ state.current, -bound < c := by
  rw [← sum_credit same]
  constructor
  · rintro ⟨sum, above⟩
    refine ⟨sum, fun c inside => ?_⟩
    obtain ⟨i, small, rfl⟩ := List.getElem_of_mem inside
    have here := above ⟨i, by omega⟩
    rwa [credit, List.getD_eq_getElem?_getD, List.getElem?_eq_getElem small] at here
  · rintro ⟨sum, above⟩
    refine ⟨sum, fun i => ?_⟩
    have small : (i : ℕ) < state.current.length := by omega
    rw [credit, List.getD_eq_getElem?_getD, List.getElem?_eq_getElem small]
    exact above _ (List.getElem_mem small)

/-- The credits sum to zero and are above minus the largest total, also when the weights change. -/
theorem picks_bounds {bound : ℤ} {n : ℕ} {pools : List (List (ℤ × ℤ))} (two : 2 ≤ n)
    (lengths : ∀ p ∈ pools, p.length = n) (positive : ∀ p ∈ pools, ∀ entry ∈ p, 0 < entry.2)
    (totals : ∀ p ∈ pools, (p.map Prod.snd).sum ≤ bound) (same : state.current.length = n)
    (before : state.current.sum = 0 ∧ ∀ c ∈ state.current, -bound < c) :
    (state.picks pools).1.current.sum = 0 ∧
      ∀ c ∈ (state.picks pools).1.current, -bound < c := by
  induction pools generalizing state with
  | nil => exact before
  | cons p pools ih =>
    have here : p.length = n := lengths p List.mem_cons_self
    have weights := positive p List.mem_cons_self
    have now : state.current.length = p.length := by omega
    have next : (state.pick p).1.current.length = p.length := length_pick (by omega) now
    obtain ⟨place, -, round⟩ := pick_round (by omega) weights now
    have after := round.balanced (by rw [sum_weightAt]; exact total_pos (by omega) weights)
      (by rw [sum_weightAt]; exact totals p List.mem_cons_self)
      (fun i => (weights _ (List.getElem_mem i.2)).le) ((balanced_credit now).mpr before)
    exact ih (fun q inside => lengths q (List.mem_cons_of_mem p inside))
      (fun q inside => positive q (List.mem_cons_of_mem p inside))
      (fun q inside => totals q (List.mem_cons_of_mem p inside)) (by omega)
      ((balanced_credit next).mp after)

/-- On weights of 32 bits the credits fit in the 64 bits of `current`. -/
theorem picks_fit {n : ℕ} {pools : List (List (ℤ × ℤ))} (two : 2 ≤ n) (few : n ≤ maxInterfaces)
    (lengths : ∀ p ∈ pools, p.length = n)
    (weights : ∀ p ∈ pools, ∀ entry ∈ p, 0 < entry.2 ∧ entry.2 < 2 ^ 31)
    (same : state.current.length = n) (zero : ∀ c ∈ state.current, c = 0) :
    ∀ c ∈ (state.picks pools).1.current, -2 ^ 63 ≤ c ∧ c < 2 ^ 63 := by
  have totals : ∀ p ∈ pools, (p.map Prod.snd).sum ≤ 2 ^ 35 := by
    intro p inside
    have atMost : (p.map Prod.snd).sum ≤ (p.map Prod.snd).length • (2 ^ 31 : ℤ) := by
      refine List.sum_le_card_nsmul _ _ fun w listed => ?_
      obtain ⟨entry, mem, rfl⟩ := List.mem_map.mp listed
      exact (weights p inside entry mem).2.le
    have small : p.length ≤ 16 := (lengths p inside).trans_le few
    rw [List.length_map, nsmul_eq_mul] at atMost
    omega
  have bounds := picks_bounds two lengths (fun p inside entry mem => (weights p inside entry mem).1)
    totals same ⟨List.sum_eq_zero zero, fun c inside => by rw [zero c inside]; decide⟩
  have after := length_picks two lengths same
  intro c inside
  have above := bounds.2 c inside
  have below := le_of_above bounds.1 bounds.2 inside
  have small : n ≤ 16 := few
  rw [after] at below
  omega

/-- From a reset state, with any `tie_start`: every block of as many picks as the total weight
returns each WAN as often as its weight says and leaves no credit; between any two picks the credits
sum to zero and are above minus the total; and the sum stays zero when the weights change. -/
theorem picks_exact (two : 2 ≤ pool.length) (positive : ∀ entry ∈ pool, 0 < entry.2)
    (tieStart : ℕ) :
    let start : Swrr := { flowSwrrReset 0 (pool.map Prod.fst) with tieStart }
    let total := (pool.map Prod.snd).sum
    (∀ k, let before := (start.picks (List.replicate (k * total.toNat) pool)).1
      let block := before.picks (List.replicate total.toNat pool)
      (∀ wan, (block.2.count wan : ℤ) = weightOf pool wan) ∧
        block.1.current = pool.map fun _ => 0) ∧
    (∀ k, let now := (start.picks (List.replicate k pool)).1
      now.current.sum = 0 ∧ ∀ credit ∈ now.current, -total < credit) ∧
    ∀ pools : List (List (ℤ × ℤ)), (∀ p ∈ pools, p.map Prod.fst = pool.map Prod.fst) →
      (start.picks pools).1.current.sum = 0 := by
  intro start total
  have zero : start.current = pool.map fun _ => 0 := List.map_map
  have same : start.current.length = pool.length := by rw [zero, List.length_map]
  have positive_total := total_pos two positive
  have empty : start.current.sum = 0 ∧ ∀ c ∈ start.current, -total < c := by
    rw [← balanced_credit same, credit_of_current zero]
    exact balanced_zero positive_total
  have replicated (k : ℕ) : ∀ p ∈ List.replicate k pool, p = pool :=
    fun _ => List.eq_of_mem_replicate
  refine ⟨fun k => picks_period two positive (picks_blocks two positive zero k),
    fun k => picks_bounds two ?_ ?_ ?_ same empty, fun pools wans => ?_⟩
  · exact fun p inside => by rw [replicated k p inside]
  · exact fun p inside => by rwa [replicated k p inside]
  · exact fun p inside => by rw [replicated k p inside]
  · rw [sum_picks two (fun p inside => ?_) same, empty.1]
    simpa using congrArg List.length (wans p inside)

/-- Three WANs of weights 2, 2 and 1 with `tie_start` 1. -/
theorem picks_exact_three :
    let start : Swrr := { flowSwrrReset 0 [3, 4, 5] with tieStart := 1 }
    (start.picks (List.replicate 5 [(3, 2), (4, 2), (5, 1)])).2 = [4, 3, 5, 3, 4] ∧
      ∀ wan, (((start.picks (List.replicate 5 [(3, 2), (4, 2), (5, 1)])).2.count wan : ℕ) : ℤ) =
        weightOf [(3, 2), (4, 2), (5, 1)] wan :=
  ⟨by decide, (@picks_exact [(3, 2), (4, 2), (5, 1)] (by decide) (by decide) 1).1 0 |>.1⟩

theorem wans_pick (state : Swrr) (pool : List (ℤ × ℤ)) : (state.pick pool).1.wans = state.wans := by
  rw [pick]
  dsimp only
  split
  · rfl
  · split <;> rfl

end Swrr

namespace FlowTable

/-- Packets without a flow, one after the other. -/
def picksPerPacket (table : FlowTable) : List (List (ℤ × ℤ)) → FlowTable × List ℤ
  | [] => (table, [])
  | pool :: pools =>
    let picked := table.pickWanPerPacket pool
    let rest := picksPerPacket picked.1 pools
    (rest.1, picked.2 :: rest.2)

/-- The state `flow_table_pick_wan_per_packet` goes on with. -/
def defaultState (table : FlowTable) (allowedWans : List ℤ) : Swrr :=
  (table.default.filter fun s => flowSwrrPoolSame s allowedWans).getD (flowSwrrReset 0 allowedWans)

theorem defaultState_wans (table : FlowTable) (allowedWans : List ℤ) :
    (table.defaultState allowedWans).wans = allowedWans := by
  rw [defaultState]
  cases kept : table.default.filter fun s => flowSwrrPoolSame s allowedWans with
  | none => rfl
  | some s =>
    have same := (Option.filter_eq_some_iff.mp kept).2
    simpa [flowSwrrPoolSame] using same

theorem defaultState_of_same {table : FlowTable} {allowedWans : List ℤ} {s : Swrr}
    (isDefault : table.default = some s) (same : s.wans = allowedWans) :
    table.defaultState allowedWans = s := by
  rw [defaultState, isDefault, Option.filter_some, if_pos (by simpa [flowSwrrPoolSame] using same)]
  rfl

theorem pickWanPerPacket_eq (table : FlowTable) (nonempty : pool ≠ [])
    (few : pool.length ≤ maxInterfaces) :
    table.pickWanPerPacket pool =
      ({ table with default := some ((table.defaultState (pool.map Prod.fst)).pick pool).1 },
        ((table.defaultState (pool.map Prod.fst)).pick pool).2) := by
  rw [pickWanPerPacket, if_neg nonempty]
  dsimp only
  rw [List.take_of_length_le few]
  rfl

/-- The packets of one pool are picks of one scheduler state, whatever their weights. -/
theorem picksPerPacket_eq (table : FlowTable) {wans : List ℤ} {pools : List (List (ℤ × ℤ))}
    (nonempty : wans ≠ []) (few : wans.length ≤ maxInterfaces)
    (same : ∀ pool ∈ pools, pool.map Prod.fst = wans) :
    (table.picksPerPacket pools).2 = ((table.defaultState wans).picks pools).2 := by
  induction pools generalizing table with
  | nil => rfl
  | cons pool pools ih =>
    obtain rfl := same pool List.mem_cons_self
    have some_wan : pool ≠ [] := by simpa using nonempty
    have later : ∀ p ∈ pools, p.map Prod.fst = pool.map Prod.fst :=
      fun p inside => same p (List.mem_cons_of_mem pool inside)
    have kept : (table.pickWanPerPacket pool).1.defaultState (pool.map Prod.fst) =
        ((table.defaultState (pool.map Prod.fst)).pick pool).1 := by
      rw [pickWanPerPacket_eq table some_wan (by simpa using few)]
      exact defaultState_of_same rfl (by rw [Swrr.wans_pick, defaultState_wans])
    rw [picksPerPacket, Swrr.picks]
    dsimp only
    rw [ih (table.pickWanPerPacket pool).1 later, kept,
      pickWanPerPacket_eq table some_wan (by simpa using few)]

end FlowTable

end NeEncryptor.Wan
