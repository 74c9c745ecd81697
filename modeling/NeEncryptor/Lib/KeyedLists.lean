import Mathlib.Data.List.Basic

/-!
# Lists that are looked up by a key

A key may have several entries in a list; `lookup` finds the first. Two lists in which each entry of
one is what the other has under its key hold the same entries, and none of them has two entries under
one key: how often an entry occurs is not seen.
-/

namespace KeyedLists

variable {α κ : Type*} [DecidableEq κ] (key : α → κ)

/-- The first entry of a key. -/
def lookup (xs : List α) (k : κ) : Option α := xs.find? fun x => key x == k

/-- Entries with one key are equal. -/
def Uniform (xs : List α) : Prop := ∀ x ∈ xs, ∀ y ∈ xs, key x = key y → x = y

/-- Every entry of `xs` is what `ys` has under its key. -/
def Found (xs ys : List α) : Prop := ∀ x ∈ xs, lookup key ys (key x) = some x

variable {key} {xs ys : List α} {x : α} {k : κ}

theorem lookup_some (found : lookup key xs k = some x) : x ∈ xs ∧ key x = k :=
  ⟨List.mem_of_find?_eq_some found, by simpa using List.find?_some found⟩

variable (key) in
/-- A key that has an entry is found. -/
theorem lookup_isSome (mem : x ∈ xs) : ∃ y, lookup key xs (key x) = some y :=
  Option.isSome_iff_exists.mp (List.find?_isSome.mpr ⟨x, mem, by simp⟩)

theorem Uniform.lookup (uniform : Uniform key xs) (mem : x ∈ xs) :
    lookup key xs (key x) = some x := by
  obtain ⟨y, found⟩ := lookup_isSome key mem
  obtain ⟨there, same⟩ := lookup_some found
  rw [found, uniform y there x mem same]

theorem Found.mem (found : Found key xs ys) (mem : x ∈ xs) : x ∈ ys :=
  (lookup_some (found x mem)).1

/-- What is found in another list is uniform. -/
theorem Found.uniform (found : Found key xs ys) : Uniform key xs := fun x mem y there same =>
  Option.some.inj ((found x mem).symm.trans (same ▸ found y there))

theorem Uniform.found (uniform : Uniform key ys) (sub : ∀ x ∈ xs, x ∈ ys) : Found key xs ys :=
  fun x mem => uniform.lookup (sub x mem)

omit [DecidableEq κ] in
theorem Uniform.perm (uniform : Uniform key xs) (perm : xs.Perm ys) : Uniform key ys :=
  fun x mem y there => uniform x (perm.mem_iff.mpr mem) y (perm.mem_iff.mpr there)

theorem found_of_perm_iff (perm : xs.Perm ys) : Found key xs ys ↔ Uniform key xs :=
  ⟨Found.uniform, fun uniform => (uniform.perm perm).found fun _ mem => perm.mem_iff.mp mem⟩

/-- Both lists are found in each other exactly where they are uniform and hold the same entries. -/
theorem found_both_iff :
    (Found key xs ys ∧ Found key ys xs) ↔
      Uniform key xs ∧ Uniform key ys ∧ ∀ x, x ∈ xs ↔ x ∈ ys := by
  constructor
  · rintro ⟨there, back⟩
    exact ⟨there.uniform, back.uniform, fun x => ⟨there.mem, back.mem⟩⟩
  · rintro ⟨uniform, uniform_other, same⟩
    exact ⟨uniform_other.found fun x => (same x).mp, uniform.found fun x => (same x).mpr⟩

end KeyedLists
