import Mathlib.Data.List.Nodup

/-!
# Bucket chains

A list of entries with a hash index over it: the head of each bucket and, for each place, the next
place of its bucket, as arrays of places.  `rebuild` enters the places in order, each at the front of
its bucket; a search follows the chain of a bucket.
-/

namespace BucketChains

variable {α β κ : Type*} (bucket : κ → β) (keyOf : α → κ)

/-- The index: `-1` is `none`. -/
structure Index (β : Type*) where
  head : β → Option ℕ
  next : ℕ → Option ℕ

/-- The index of no entries. -/
def Index.empty : Index β := ⟨fun _ => none, fun _ => none⟩

/-- Enters a place at the front of its bucket. -/
def Index.enter [DecidableEq β] (idx : Index β) (place : ℕ) (b : β) : Index β where
  head := fun c => if c = b then some place else idx.head c
  next := fun i => if i = place then idx.head b else idx.next i

/-- The index after the places from `place` on were entered. -/
def enterAll [DecidableEq β] (idx : Index β) (place : ℕ) : List α → Index β
  | [] => idx
  | a :: rest => enterAll (idx.enter place (bucket (keyOf a))) (place + 1) rest

/-- The index of a list. -/
def rebuild [DecidableEq β] (entries : List α) : Index β := enterAll bucket keyOf .empty 0 entries

/-- Follows the chain from a place. -/
def searchFrom [DecidableEq κ] (entries : List α) (idx : Index β) (k : κ) : ℕ → Option ℕ → Option ℕ
  | 0, _ => none
  | _, none => none
  | fuel + 1, some i =>
    if (entries[i]?.map keyOf) = some k then some i
    else searchFrom entries idx k fuel (idx.next i)

/-- The place where a key is found. -/
def search [DecidableEq κ] (entries : List α) (idx : Index β) (k : κ) : Option ℕ :=
  searchFrom keyOf entries idx k (entries.length + 1) (idx.head (bucket k))

/-- The place is the last one of its bucket before a bound. -/
structure LastBefore (entries : List α) (b : β) (bound i : ℕ) : Prop where
  before : i < bound
  inBucket : (entries[i]?.map fun a => bucket (keyOf a)) = some b
  last : ∀ j, i < j → j < bound → (entries[j]?.map fun a => bucket (keyOf a)) ≠ some b

/-- The chain goes on with the last place of the bucket before the bound. -/
def Continues (entries : List α) (b : β) (bound : ℕ) : Option ℕ → Prop
  | none => ∀ j < bound, (entries[j]?.map fun a => bucket (keyOf a)) ≠ some b
  | some i => LastBefore bucket keyOf entries b bound i

/-- The index enters the first `n` places of the list. -/
structure Indexes (entries : List α) (n : ℕ) (idx : Index β) : Prop where
  head : ∀ b, Continues bucket keyOf entries b n (idx.head b)
  next : ∀ i < n, ∀ a, entries[i]? = some a →
    Continues bucket keyOf entries (bucket (keyOf a)) i (idx.next i)

variable {bucket keyOf} {entries : List α} {idx : Index β} {k : κ} {n : ℕ}

theorem indexes_empty (entries : List α) :
    Indexes bucket keyOf entries 0 (Index.empty : Index β) :=
  ⟨fun _ j before => absurd before (Nat.not_lt_zero j),
    fun i before => absurd before (Nat.not_lt_zero i)⟩

theorem Indexes.enter [DecidableEq β] (indexes : Indexes bucket keyOf entries n idx) {a : α}
    (here : entries[n]? = some a) :
    Indexes bucket keyOf entries (n + 1) (idx.enter n (bucket (keyOf a))) := by
  constructor
  · intro b
    unfold Index.enter
    dsimp only
    split
    · rename_i same
      exact ⟨Nat.lt_succ_self n, by rw [here, same]; rfl, fun j _ _ => by omega⟩
    · rename_i other
      have notHere : (entries[n]?.map fun a => bucket (keyOf a)) ≠ some b := by
        rw [here]
        exact fun same => other (Option.some.inj same).symm
      have before := indexes.head b
      cases continues : idx.head b with
      | none =>
        rw [continues] at before
        intro j small
        rcases Nat.lt_succ_iff_lt_or_eq.mp small with lower | rfl
        · exact before j lower
        · exact notHere
      | some i =>
        rw [continues] at before
        refine ⟨by have := before.before; omega, before.inBucket, fun j after small => ?_⟩
        rcases Nat.lt_succ_iff_lt_or_eq.mp small with lower | rfl
        · exact before.last j after lower
        · exact notHere
  · intro i small a' there
    unfold Index.enter
    dsimp only
    split
    · rename_i same
      subst same
      rw [here] at there
      obtain rfl := Option.some.inj there
      exact indexes.head _
    · exact indexes.next i (by omega) a' there

theorem indexes_enterAll [DecidableEq β] (done rest : List α) (idx : Index β)
    (indexes : Indexes bucket keyOf (done ++ rest) done.length idx) :
    Indexes bucket keyOf (done ++ rest) (done ++ rest).length
      (enterAll bucket keyOf idx done.length rest) := by
  induction rest generalizing done idx with
  | nil => simpa [enterAll] using indexes
  | cons a rest ih =>
    have entered := indexes.enter (a := a) (by simp)
    have regroup : done ++ a :: rest = (done ++ [a]) ++ rest := by simp
    have length : (done ++ [a]).length = done.length + 1 := by simp
    rw [enterAll, regroup, ← length]
    refine ih (done ++ [a]) _ ?_
    rw [← regroup, length]
    exact entered

/-- A rebuilt index enters every place. -/
theorem indexes_rebuild [DecidableEq β] (entries : List α) :
    Indexes bucket keyOf entries entries.length (rebuild bucket keyOf entries) :=
  indexes_enterAll [] entries .empty (indexes_empty entries)

/-- What a search finds has the key, whatever the index. -/
theorem searchFrom_some [DecidableEq κ] {fuel i : ℕ} {start : Option ℕ}
    (found : searchFrom keyOf entries idx k fuel start = some i) :
    (entries[i]?.map keyOf) = some k := by
  induction fuel generalizing start with
  | zero => cases start <;> cases found
  | succ fuel ih =>
    cases start with
    | none => cases found
    | some j =>
      rw [searchFrom] at found
      split at found
      · rename_i here
        cases found
        exact here
      · exact ih found

/-- The chain passes every place of its bucket. -/
theorem searchFrom_of_mem [DecidableEq κ] (indexes : Indexes bucket keyOf entries n idx)
    (distinct : (entries.map keyOf).Nodup) {fuel i bound : ℕ} {start : Option ℕ}
    (continues : Continues bucket keyOf entries (bucket k) bound start) (enough : bound < fuel)
    (within : bound ≤ n) (before : i < bound) (here : (entries[i]?.map keyOf) = some k) :
    searchFrom keyOf entries idx k fuel start = some i := by
  have inBucket : (entries[i]?.map fun a => bucket (keyOf a)) = some (bucket k) := by
    obtain ⟨a, isEntry, rfl⟩ := Option.map_eq_some_iff.mp here
    rw [isEntry]
    rfl
  induction fuel generalizing bound start with
  | zero => omega
  | succ fuel ih =>
    cases start with
    | none => exact absurd inBucket (continues i before)
    | some j =>
      rw [searchFrom]
      split
      · rename_i found
        obtain ⟨a, isEntry, keyA⟩ := Option.map_eq_some_iff.mp here
        obtain ⟨c, isEntry', keyC⟩ := Option.map_eq_some_iff.mp found
        have same : (entries.map keyOf)[i]? = (entries.map keyOf)[j]? := by
          rw [List.getElem?_map, List.getElem?_map, here, found]
        have inside : i < (entries.map keyOf).length := by
          rw [List.length_map]
          exact (List.getElem?_eq_some_iff.mp isEntry).1
        rw [(List.getElem?_inj inside distinct).mp same]
      · rename_i other
        have last := continues.last
        have notAfter : i < j := by
          rcases Nat.lt_trichotomy i j with lower | rfl | higher
          · exact lower
          · exact absurd here other
          · exact absurd inBucket (last i higher before)
        obtain ⟨c, isEntry, bucketC⟩ := Option.map_eq_some_iff.mp continues.inBucket
        have beforeBound := continues.before
        have next := indexes.next j (by omega) c isEntry
        rw [bucketC] at next
        exact ih next (by omega) (by omega) notAfter

/-- With an index of the whole list and distinct keys, a search finds every entry at its place. -/
theorem search_of_mem [DecidableEq κ] (indexes : Indexes bucket keyOf entries entries.length idx)
    (distinct : (entries.map keyOf).Nodup) {i : ℕ} (here : (entries[i]?.map keyOf) = some k) :
    search bucket keyOf entries idx k = some i := by
  obtain ⟨a, isEntry, -⟩ := Option.map_eq_some_iff.mp here
  exact searchFrom_of_mem indexes distinct (indexes.head _) (Nat.lt_succ_self _) (Nat.le_refl _)
    (List.getElem?_eq_some_iff.mp isEntry).1 here

theorem search_some [DecidableEq κ] {i : ℕ} (found : search bucket keyOf entries idx k = some i) :
    (entries[i]?.map keyOf) = some k :=
  searchFrom_some found

/-- The chain leads to the last place of a key. -/
theorem searchFrom_last [DecidableEq κ] (indexes : Indexes bucket keyOf entries n idx)
    {fuel i bound : ℕ} {start : Option ℕ}
    (continues : Continues bucket keyOf entries (bucket k) bound start) (enough : bound < fuel)
    (within : bound ≤ n) (before : i < bound) (here : (entries[i]?.map keyOf) = some k)
    (last : ∀ j, i < j → j < bound → (entries[j]?.map keyOf) ≠ some k) :
    searchFrom keyOf entries idx k fuel start = some i := by
  have inBucket : (entries[i]?.map fun a => bucket (keyOf a)) = some (bucket k) := by
    obtain ⟨a, isEntry, rfl⟩ := Option.map_eq_some_iff.mp here
    rw [isEntry]
    rfl
  induction fuel generalizing bound start with
  | zero => omega
  | succ fuel ih =>
    cases start with
    | none => exact absurd inBucket (continues i before)
    | some j =>
      have beforeBound := continues.before
      have reached : i ≤ j := by
        by_contra beyond
        exact continues.last i (Nat.not_le.mp beyond) before inBucket
      rw [searchFrom]
      split
      · rename_i found
        rcases Nat.lt_or_eq_of_le reached with short | rfl
        · exact absurd found (last j short beforeBound)
        · rfl
      · rename_i other
        have short : i < j := by
          refine Nat.lt_of_le_of_ne reached ?_
          rintro rfl
          exact other here
        obtain ⟨c, isEntry, bucketC⟩ := Option.map_eq_some_iff.mp continues.inBucket
        have next := indexes.next j (by omega) c isEntry
        rw [bucketC] at next
        exact ih next (by omega) (by omega) short fun j' after below =>
          last j' after (by omega)

/-- With an index of the whole list a search finds the last entry of a key. -/
theorem search_eq [DecidableEq κ] (indexes : Indexes bucket keyOf entries entries.length idx) :
    (search bucket keyOf entries idx k).bind (entries[·]?) =
      entries.reverse.find? fun a => keyOf a = k := by
  cases found : entries.reverse.find? fun a => keyOf a = k with
  | none =>
    cases answer : search bucket keyOf entries idx k with
    | none => rfl
    | some i =>
      obtain ⟨a, isEntry, same⟩ := Option.map_eq_some_iff.mp (search_some answer)
      have absent := List.find?_eq_none.mp found a
        (List.mem_reverse.mpr (List.mem_of_getElem? isEntry))
      exact absurd (decide_eq_true same) absent
  | some a =>
    obtain ⟨same, later, earlier, split, others⟩ := List.find?_eq_some_iff_append.mp found
    have list : entries = earlier.reverse ++ a :: later.reverse := by
      rw [← List.reverse_reverse entries, split]
      simp
    have here : entries[earlier.length]? = some a := by
      rw [list, List.getElem?_append_right (by simp)]
      simp
    have inside := (List.getElem?_eq_some_iff.mp here).1
    have answer := searchFrom_last indexes (indexes.head (bucket k)) (Nat.lt_succ_self _) (Nat.le_refl _)
      inside (by rw [here]; exact congrArg some (of_decide_eq_true same)) fun j after _ => by
        intro again
        obtain ⟨c, isEntry, sameC⟩ := Option.map_eq_some_iff.mp again
        rw [list, List.getElem?_append_right (by simp; omega), List.length_reverse,
          List.getElem?_cons, if_neg (by omega)] at isEntry
        have mem := List.mem_reverse.mp (List.mem_of_getElem? isEntry)
        have different := others c mem
        simp [sameC] at different
    rw [search, answer, Option.bind_some, here]

/-- Every chain goes down, from below a bound. -/
structure Index.Descends (idx : Index β) (n : ℕ) : Prop where
  head : ∀ b i, idx.head b = some i → i < n
  next : ∀ i j, i < n → idx.next i = some j → j < i

theorem Indexes.descends (indexes : Indexes bucket keyOf entries n idx)
    (within : n ≤ entries.length) : idx.Descends n := by
  constructor
  · intro b i isHead
    have before := indexes.head b
    rw [isHead] at before
    exact before.before
  · intro i j small isNext
    have before := indexes.next i small entries[i] (List.getElem?_eq_getElem (by omega))
    rw [isNext] at before
    exact before.before

/-- A search along chains that go down ends with the fuel that it has. -/
theorem searchFrom_enough [DecidableEq κ] (descends : idx.Descends n) {fuel : ℕ}
    {start : Option ℕ} (small : ∀ i ∈ start, i < n) (enough : ∀ i ∈ start, i < fuel)
    (some_fuel : 0 < fuel) :
    searchFrom keyOf entries idx k (fuel + 1) start = searchFrom keyOf entries idx k fuel start := by
  induction fuel generalizing start with
  | zero => exact absurd some_fuel (Nat.lt_irrefl 0)
  | succ fuel ih =>
    cases start with
    | none => rfl
    | some i =>
      have here := small i rfl
      have low := enough i rfl
      have down : ∀ j ∈ idx.next i, j < i := fun j isNext => descends.next i j here isNext
      rw [searchFrom, searchFrom]
      split
      · rfl
      · cases fuel with
        | zero =>
          obtain rfl : i = 0 := by omega
          cases last : idx.next 0 with
          | none => rfl
          | some j => exact absurd (down j last) (Nat.not_lt_zero j)
        | succ fuel =>
          exact ih (fun j isNext => Nat.lt_trans (down j isNext) here)
            (fun j isNext => by have := down j isNext; omega) (Nat.succ_pos fuel)

/-- The index of a list whose entries keep their keys stays right. -/
theorem Indexes.congr {entries' : List α} (indexes : Indexes bucket keyOf entries n idx)
    (same : entries'.map keyOf = entries.map keyOf) : Indexes bucket keyOf entries' n idx := by
  have keys (i : ℕ) : (entries'[i]?.map fun a => bucket (keyOf a)) =
      (entries[i]?.map fun a => bucket (keyOf a)) := by
    have here := congrArg (fun l => (l[i]?).map bucket) same
    simpa [List.getElem?_map, Function.comp_def] using here
  have continues {b : β} {bound : ℕ} {start : Option ℕ}
      (before : Continues bucket keyOf entries b bound start) :
      Continues bucket keyOf entries' b bound start := by
    cases start with
    | none => exact fun j small => by rw [keys j]; exact before j small
    | some i =>
      exact ⟨before.before, by rw [keys i]; exact before.inBucket,
        fun j after small => by rw [keys j]; exact before.last j after small⟩
  refine ⟨fun b => continues (indexes.head b), fun i small a here => ?_⟩
  have key : (entries[i]?.map fun a => bucket (keyOf a)) = some (bucket (keyOf a)) := by
    rw [← keys i, here]
    rfl
  obtain ⟨c, isEntry, bucketC⟩ := Option.map_eq_some_iff.mp key
  rw [← bucketC]
  exact continues (indexes.next i small c isEntry)

end BucketChains
