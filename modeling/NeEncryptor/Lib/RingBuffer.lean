import Mathlib.Data.Nat.ModEq
import Mathlib.Data.List.Basic
import Mathlib.Logic.Function.Basic

/-!
# Streams in ring buffers

A stream whose item `i` is written to slot `i % m` of a buffer.  `Holds` says that the buffer has the
items from a position on; that is so as long as the stream is at most `m` items ahead of it.
-/

namespace RingBuffer

variable {α : Type*} {buf : ℕ → α} {m lo : ℕ} {xs : List α} {x : α}

/-- The buffer has the items of the stream from `lo` on. -/
def Holds (buf : ℕ → α) (m : ℕ) (xs : List α) (lo : ℕ) : Prop :=
  ∀ i x, lo ≤ i → xs[i]? = some x → buf (i % m) = x

/-- The items of `n` slots. -/
def slots (buf : ℕ → α) (m lo n : ℕ) : List α := (List.range n).map fun i => buf ((lo + i) % m)

/-- Positions that are less than a turn apart have their own slots. -/
theorem slot_ne {i j : ℕ} (before : i < j) (near : j < i + m) : i % m ≠ j % m := by
  intro same
  have divides : m ∣ j - i := (Nat.modEq_iff_dvd' before.le).mp same
  have turn : m ≤ j - i := Nat.le_of_dvd (by omega) divides
  omega

theorem holds_nil : Holds buf m [] lo := nofun

theorem Holds.mono (holds : Holds buf m xs lo) {lo' : ℕ} (later : lo ≤ lo') :
    Holds buf m xs lo' :=
  fun i x le => holds i x (later.trans le)

/-- A write beyond the end of the stream leaves its items alone. -/
theorem Holds.write (holds : Holds buf m xs lo) {j : ℕ} (beyond : xs.length ≤ j) (room : j < lo + m) :
    Holds (Function.update buf (j % m) x) m xs lo := by
  intro i y le here
  have inside : i < xs.length := (List.getElem?_eq_some_iff.mp here).1
  rw [Function.update_of_ne (slot_ne (inside.trans_le beyond) (by omega))]
  exact holds i y le here

/-- The stream gets an item that is in its slot. -/
theorem Holds.append (holds : Holds buf m xs lo) (here : buf (xs.length % m) = x) :
    Holds buf m (xs ++ [x]) lo := by
  intro i y le isItem
  rw [List.getElem?_append] at isItem
  split at isItem
  · exact holds i y le isItem
  · rename_i outside
    obtain ⟨rfl, rfl⟩ : i = xs.length ∧ x = y := by
      rcases Nat.eq_or_lt_of_le (not_lt.mp outside) with same | beyond
      · rw [← same, Nat.sub_self] at isItem
        exact ⟨same.symm, Option.some.inj isItem⟩
      · rw [List.getElem?_eq_none (by rw [List.length_singleton]; omega)] at isItem
        cases isItem
    exact here

theorem Holds.slots (holds : Holds buf m xs lo) : slots buf m lo (xs.length - lo) = xs.drop lo := by
  refine List.ext_getElem? fun i => ?_
  rw [RingBuffer.slots, List.getElem?_map, List.getElem?_drop]
  by_cases inside : i < xs.length - lo
  · have exists_item : lo + i < xs.length := by omega
    rw [List.getElem?_range inside, List.getElem?_eq_getElem exists_item, Option.map_some,
      holds _ _ (by omega) (List.getElem?_eq_getElem exists_item)]
  · rw [List.getElem?_eq_none (by rw [List.length_range]; omega), List.getElem?_eq_none (by omega)]
    rfl

end RingBuffer
