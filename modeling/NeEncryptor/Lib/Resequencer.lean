import Mathlib.Data.Finset.Card
import Mathlib.Data.Fintype.EquivFin
import Mathlib.Order.Interval.Finset.Nat

/-!
# Resequencing

Positions of a stream come in any order.  What has come reaches without a gap up to its front; what
came beyond waits.  A position at the front moves it past everything that waited right behind.
-/

namespace Resequencer

/-- The first position that has not come. -/
def front (arrived : Finset ℕ) : ℕ := Nat.find (Infinite.exists_notMem_finset arrived)

/-- The positions beyond the front. -/
def waiting (arrived : Finset ℕ) : Finset ℕ := arrived.filter (front arrived < ·)

variable {arrived : Finset ℕ} {n k : ℕ}

theorem front_notMem (arrived : Finset ℕ) : front arrived ∉ arrived :=
  Nat.find_spec (Infinite.exists_notMem_finset arrived)

theorem mem_of_lt_front (before : n < front arrived) : n ∈ arrived :=
  not_not.mp (Nat.find_min (Infinite.exists_notMem_finset arrived) before)

theorem front_eq (before : ∀ j < n, j ∈ arrived) (missing : n ∉ arrived) : front arrived = n := by
  refine le_antisymm (Nat.find_min' _ missing) ?_
  by_contra short
  exact front_notMem arrived (before _ (not_le.mp short))

@[simp] theorem front_empty : front ∅ = 0 :=
  front_eq (fun _ below => absurd below (Nat.not_lt_zero _)) (Finset.notMem_empty 0)

@[simp] theorem waiting_empty : waiting ∅ = ∅ := rfl

theorem mem_waiting : n ∈ waiting arrived ↔ n ∈ arrived ∧ front arrived < n := by
  rw [waiting, Finset.mem_filter]

/-- What has come lies before the front or waits. -/
theorem mem_arrived_iff : n ∈ arrived ↔ n < front arrived ∨ n ∈ waiting arrived := by
  constructor
  · intro came
    rcases lt_trichotomy n (front arrived) with before | rfl | beyond
    · exact .inl before
    · exact absurd came (front_notMem arrived)
    · exact .inr (mem_waiting.mpr ⟨came, beyond⟩)
  · rintro (before | waits)
    · exact mem_of_lt_front before
    · exact (mem_waiting.mp waits).1

/-- A position that is not the front leaves it where it is. -/
theorem front_insert_of_ne (other : n ≠ front arrived) :
    front (insert n arrived) = front arrived := by
  refine front_eq (fun j before => Finset.mem_insert_of_mem (mem_of_lt_front before)) ?_
  rw [Finset.mem_insert, not_or]
  exact ⟨other.symm, front_notMem arrived⟩

theorem waiting_insert_of_lt (beyond : front arrived < n) :
    waiting (insert n arrived) = insert n (waiting arrived) := by
  rw [waiting, front_insert_of_ne beyond.ne', Finset.filter_insert, if_pos beyond]
  rfl

/-- The front moves past itself and past the run that waited behind it. -/
theorem front_insert_front (run : ∀ j < k, front arrived + 1 + j ∈ waiting arrived)
    (stops : front arrived + 1 + k ∉ waiting arrived) :
    front (insert (front arrived) arrived) = front arrived + 1 + k := by
  refine front_eq (fun j before => ?_) fun came => ?_
  · rw [Finset.mem_insert]
    rcases lt_trichotomy j (front arrived) with low | same | high
    · exact .inr (mem_of_lt_front low)
    · exact .inl same
    · have waits := run (j - (front arrived + 1)) (by omega)
      rw [show front arrived + 1 + (j - (front arrived + 1)) = j by omega] at waits
      exact .inr (mem_waiting.mp waits).1
  · rcases Finset.mem_insert.mp came with same | came
    · omega
    · exact stops (mem_waiting.mpr ⟨came, by omega⟩)

/-- What still waits then. -/
theorem waiting_insert_front (run : ∀ j < k, front arrived + 1 + j ∈ waiting arrived)
    (stops : front arrived + 1 + k ∉ waiting arrived) :
    waiting (insert (front arrived) arrived) =
      (waiting arrived).filter (front arrived + 1 + k ≤ ·) := by
  ext n
  rw [Finset.mem_filter, mem_waiting, front_insert_front run stops, Finset.mem_insert]
  constructor
  · rintro ⟨rfl | came, beyond⟩
    · omega
    · exact ⟨mem_waiting.mpr ⟨came, by omega⟩, beyond.le⟩
  · rintro ⟨waits, reached⟩
    refine ⟨.inr (mem_waiting.mp waits).1, lt_of_le_of_ne reached ?_⟩
    rintro rfl
    exact stops waits

theorem front_le_insert (n : ℕ) (arrived : Finset ℕ) : front arrived ≤ front (insert n arrived) := by
  by_contra short
  have before := mem_of_lt_front (not_le.mp short)
  exact front_notMem _ (Finset.mem_insert_of_mem before)

/-- In a window few positions wait. -/
theorem card_waiting_lt {w : ℕ} (near : ∀ n ∈ arrived, n < front arrived + w) (positive : 0 < w) :
    (waiting arrived).card < w := by
  have inside : waiting arrived ⊆ Finset.Ioo (front arrived) (front arrived + w) := by
    intro n waits
    obtain ⟨came, beyond⟩ := mem_waiting.mp waits
    exact Finset.mem_Ioo.mpr ⟨beyond, near n came⟩
  have few := Finset.card_le_card inside
  rw [Nat.card_Ioo] at few
  omega

/-- The positions between two fronts. -/
def released (before after : Finset ℕ) : List ℕ :=
  List.range' (front before) (front after - front before)

theorem range_append_released (n : ℕ) (arrived : Finset ℕ) :
    List.range (front arrived) ++ released arrived (insert n arrived) =
      List.range (front (insert n arrived)) := by
  have grows := front_le_insert n arrived
  rw [released, List.range_eq_range', List.range_eq_range']
  have joined := @List.range'_append_1 0 (front arrived)
    (front (insert n arrived) - front arrived)
  rw [Nat.zero_add, Nat.add_sub_cancel' grows] at joined
  exact joined

theorem released_of_ne (other : n ≠ front arrived) : released arrived (insert n arrived) = [] := by
  rw [released, front_insert_of_ne other, Nat.sub_self]
  rfl

/-- A stream with the time since which a position waits and the time of the last arrival. -/
structure Stream (τ : Type*) where
  arrived : Finset ℕ
  since : τ
  seen : τ

/-- A position comes. -/
def Stream.arrive {τ : Type*} (s : Stream τ) (n : ℕ) (now : τ) : Stream τ where
  arrived := insert n s.arrived
  since := if waiting s.arrived = ∅ then now else s.since
  seen := now

end Resequencer
