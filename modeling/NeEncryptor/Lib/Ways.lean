import Mathlib.Algebra.GroupWithZero.Nat
import Mathlib.Data.Fintype.Card
import Mathlib.Data.List.FinRange
import Mathlib.Logic.Function.Basic

/-!
# The ways of a set

A set of a set-associative table: `n` ways, each free or with a value that carries a key.  A lookup
takes the first way with the key.  The lemmas say what writing one way does to the lookups.

The literals of an index type need a size that is not zero.  With an instance for each size that is
used, a literal is the same term in every module.
-/

namespace Ways

instance neZero_one : NeZero (1 : ℕ) := ⟨Nat.one_ne_zero⟩

instance neZero_four : NeZero (4 : ℕ) := ⟨Nat.succ_ne_zero 3⟩

instance neZero_six : NeZero (6 : ℕ) := ⟨Nat.succ_ne_zero 5⟩

instance neZero_512 : NeZero (512 : ℕ) := ⟨Nat.succ_ne_zero 511⟩

variable {n : ℕ} {β κ : Type*} [DecidableEq κ] (keyOf : β → κ) (ways : Fin n → Option β)

/-- The way carries the key. -/
def carries (k : κ) (way : Fin n) : Bool := (ways way).any fun b => keyOf b = k

/-- The first way with the key. -/
def find (k : κ) : Option (Fin n) := (List.finRange n).find? (carries keyOf ways k)

/-- The value a lookup of the key finds. -/
def entry (k : κ) : Option β := (find keyOf ways k).bind ways

/-- No free way. -/
def Full : Prop := ∀ way, ways way ≠ none

/-- No key in two ways. -/
def Distinct : Prop :=
  ∀ i j b c, ways i = some b → ways j = some c → keyOf b = keyOf c → i = j

variable {keyOf ways} {k : κ} {way : Fin n} {b c : β}

theorem carries_iff : carries keyOf ways k way = true ↔ ∃ b, ways way = some b ∧ keyOf b = k := by
  simp [carries, Option.any_eq_true]

theorem find_eq_none_iff :
    find keyOf ways k = none ↔ ∀ way b, ways way = some b → keyOf b ≠ k := by
  rw [find, List.find?_eq_none]
  constructor
  · intro h way b valid same
    exact h way (List.mem_finRange way) (carries_iff.mpr ⟨b, valid, same⟩)
  · intro h way _ carried
    obtain ⟨b, valid, same⟩ := carries_iff.mp carried
    exact h way b valid same

theorem find_some (found : find keyOf ways k = some way) :
    ∃ b, ways way = some b ∧ keyOf b = k :=
  carries_iff.mp (List.find?_some found)

theorem entry_of_find (found : find keyOf ways k = some way) (valid : ways way = some b) :
    entry keyOf ways k = some b := by
  rw [entry, found]
  exact valid

theorem entry_eq_none_iff : entry keyOf ways k = none ↔ find keyOf ways k = none := by
  constructor
  · intro h
    cases found : find keyOf ways k with
    | none => rfl
    | some way =>
      obtain ⟨b, valid, -⟩ := find_some found
      rw [entry_of_find found valid] at h
      cases h
  · intro h
    rw [entry, h]
    rfl

theorem keyOf_of_entry (h : entry keyOf ways k = some b) : keyOf b = k := by
  obtain ⟨way, found, valid⟩ := Option.bind_eq_some_iff.mp h
  obtain ⟨c, valid', same⟩ := find_some found
  rw [valid] at valid'
  cases valid'
  exact same

/-- Only what the ways say about the key decides where it is found. -/
theorem find_congr {ways' : Fin n → Option β}
    (same : ∀ way, carries keyOf ways' k way = carries keyOf ways k way) :
    find keyOf ways' k = find keyOf ways k := by
  rw [find, find, funext same]

/-- A write to a way of another key, with another key, changes no lookup. -/
theorem entry_update_of_ne (before : carries keyOf ways k way = false) (other : keyOf b ≠ k) :
    entry keyOf (Function.update ways way (some b)) k = entry keyOf ways k := by
  have same : find keyOf (Function.update ways way (some b)) k = find keyOf ways k := by
    refine find_congr fun i => ?_
    by_cases here : i = way
    · subst here
      have after : carries keyOf (Function.update ways i (some b)) k i = false := by
        simp [carries, other]
      rw [after, before]
    · simp [carries, Function.update_of_ne here]
  rw [entry, entry, same]
  cases found : find keyOf ways k with
  | none => rfl
  | some i =>
    have elsewhere : i ≠ way := by
      rintro rfl
      rw [carries_iff.mpr (find_some found)] at before
      cases before
    exact Function.update_of_ne elsewhere _ _

/-- A write to the way where the key is found. -/
theorem entry_update_found (found : find keyOf ways k = some way) (same : keyOf b = k) :
    entry keyOf (Function.update ways way (some b)) k = some b := by
  have still : find keyOf (Function.update ways way (some b)) k = some way := by
    rw [← found]
    refine find_congr fun i => ?_
    by_cases here : i = way
    · subst here
      rw [carries_iff.mpr (find_some found)]
      simp [carries, same]
    · simp [carries, Function.update_of_ne here]
  exact entry_of_find still (Function.update_self ..)

/-- A write of a key that no way had. -/
theorem entry_update_absent (absent : find keyOf ways k = none) (same : keyOf b = k) :
    entry keyOf (Function.update ways way (some b)) k = some b := by
  cases found : find keyOf (Function.update ways way (some b)) k with
  | none => exact absurd same (find_eq_none_iff.mp found way b (Function.update_self ..))
  | some i =>
    obtain ⟨c, valid, carried⟩ := find_some found
    have here : i = way := by
      by_contra elsewhere
      rw [Function.update_of_ne elsewhere] at valid
      exact find_eq_none_iff.mp absent i c valid carried
    subst here
    exact entry_of_find found (Function.update_self ..)

/-- Overwriting the only way of a key removes it. -/
theorem entry_update_evicts (distinct : Distinct keyOf ways) (valid : ways way = some c)
    (evicted : keyOf c = k) (other : keyOf b ≠ k) :
    entry keyOf (Function.update ways way (some b)) k = none := by
  rw [entry_eq_none_iff, find_eq_none_iff]
  intro i d here carried
  by_cases at_way : i = way
  · subst at_way
    rw [Function.update_self] at here
    cases here
    exact other carried
  · rw [Function.update_of_ne at_way] at here
    exact at_way (distinct i way d c here valid (carried.trans evicted.symm))

/-- Where keys are distinct, a lookup finds any way with the key. -/
theorem entry_of_distinct (distinct : Distinct keyOf ways) (valid : ways way = some b)
    (carried : keyOf b = k) : entry keyOf ways k = some b := by
  cases found : find keyOf ways k with
  | none => exact absurd carried (find_eq_none_iff.mp found way b valid)
  | some i =>
    obtain ⟨c, here, same⟩ := find_some found
    obtain rfl := distinct i way c b here valid (same.trans carried.symm)
    exact entry_of_find found valid

theorem Distinct.update_absent (distinct : Distinct keyOf ways)
    (absent : find keyOf ways (keyOf b) = none) :
    Distinct keyOf (Function.update ways way (some b)) := by
  intro i j c d hi hj same
  have only (l : Fin n) (e : β) (valid : Function.update ways way (some b) l = some e)
      (carried : keyOf e = keyOf b) : l = way := by
    by_contra elsewhere
    rw [Function.update_of_ne elsewhere] at valid
    exact find_eq_none_iff.mp absent l e valid carried
  by_cases atI : i = way
  · subst atI
    rw [Function.update_self] at hi
    cases hi
    exact (only j d hj same.symm).symm
  · by_cases atJ : j = way
    · subst atJ
      rw [Function.update_self] at hj
      cases hj
      exact only i c hi same
    · rw [Function.update_of_ne atI] at hi
      rw [Function.update_of_ne atJ] at hj
      exact distinct i j c d hi hj same

omit [DecidableEq κ] in
theorem Distinct.update_same (distinct : Distinct keyOf ways) (valid : ways way = some c)
    (same : keyOf b = keyOf c) : Distinct keyOf (Function.update ways way (some b)) := by
  have back (l : Fin n) (e : β) (h : Function.update ways way (some b) l = some e) :
      ∃ e', ways l = some e' ∧ keyOf e' = keyOf e := by
    by_cases here : l = way
    · subst here
      rw [Function.update_self] at h
      cases h
      exact ⟨c, valid, same.symm⟩
    · exact ⟨e, by rwa [Function.update_of_ne here] at h, rfl⟩
  intro i j d e hi hj equal
  obtain ⟨d', hi, keyI⟩ := back i d hi
  obtain ⟨e', hj, keyJ⟩ := back j e hj
  exact distinct i j d' e' hi hj (keyI.trans (equal.trans keyJ.symm))

theorem Full.update (full : Full ways) : Full (Function.update ways way (some b)) := by
  intro i
  by_cases here : i = way
  · subst here
    rw [Function.update_self]
    exact Option.some_ne_none b
  · rw [Function.update_of_ne here]
    exact full i

/-! ### Writes that lose nothing -/

/-- A write for the key that loses no other: to its own way, or to a free one where it has none. -/
def Fits (keyOf : β → κ) (ways : Fin n → Option β) (k : κ) (way : Fin n) : Prop :=
  find keyOf ways k = some way ∨ find keyOf ways k = none ∧ ways way = none

theorem Fits.value (fits : Fits keyOf ways k way) : ways way = entry keyOf ways k := by
  rcases fits with found | ⟨absent, free⟩
  · obtain ⟨b, valid, -⟩ := find_some found
    rw [entry_of_find found valid, valid]
  · rw [free, entry_eq_none_iff.mpr absent]

theorem Fits.entry_self (fits : Fits keyOf ways k way) (same : keyOf b = k) :
    entry keyOf (Function.update ways way (some b)) k = some b := by
  rcases fits with found | ⟨absent, -⟩
  · exact entry_update_found found same
  · exact entry_update_absent absent same

theorem Fits.entry_other (fits : Fits keyOf ways k way) (same : keyOf b = k) {k' : κ}
    (other : k' ≠ k) :
    entry keyOf (Function.update ways way (some b)) k' = entry keyOf ways k' := by
  refine entry_update_of_ne ?_ (same.trans_ne other.symm)
  rw [Bool.eq_false_iff, ne_eq, carries_iff]
  rintro ⟨c, valid, carried⟩
  have here : entry keyOf ways k = some c := fits.value.symm.trans valid
  exact other (carried.symm.trans (keyOf_of_entry here))

theorem Fits.distinct (fits : Fits keyOf ways k way) (same : keyOf b = k)
    (distinct : Distinct keyOf ways) : Distinct keyOf (Function.update ways way (some b)) := by
  rcases fits with found | ⟨absent, -⟩
  · obtain ⟨c, valid, carried⟩ := find_some found
    exact distinct.update_same valid (same.trans carried.symm)
  · exact distinct.update_absent (same ▸ absent)

/-- With room for all the keys that may come, a key without a way finds a free one. -/
theorem exists_free {keys : Finset κ} (distinct : Distinct keyOf ways)
    (known : ∀ way b, ways way = some b → keyOf b ∈ keys) (few : keys.card ≤ n) (mem : k ∈ keys)
    (absent : find keyOf ways k = none) : ∃ way, ways way = none := by
  by_contra full
  have valid (way : Fin n) : ∃ b, ways way = some b :=
    Option.ne_none_iff_exists'.mp fun free => full ⟨way, free⟩
  choose b valid using valid
  have apart : Function.Injective fun way => keyOf (b way) := fun i j same =>
    distinct i j _ _ (valid i) (valid j) same
  have inside : Finset.univ.image (fun way => keyOf (b way)) ⊆ keys.erase k := by
    intro other mem
    obtain ⟨way, -, rfl⟩ := Finset.mem_image.mp mem
    exact Finset.mem_erase.mpr
      ⟨find_eq_none_iff.mp absent way _ (valid way), known way _ (valid way)⟩
  have count := Finset.card_le_card inside
  rw [Finset.card_image_of_injective _ apart, Finset.card_erase_of_mem mem, Finset.card_univ,
    Fintype.card_fin] at count
  have some_key := Finset.card_pos.mpr ⟨k, mem⟩
  omega

/-! ### Ways that are freed -/

/-- Ways whose value is no longer wanted are freed. -/
def sweep (wanted : β → Bool) (ways : Fin n → Option β) : Fin n → Option β :=
  fun way => (ways way).filter wanted

variable {wanted : β → Bool}

theorem sweep_eq_some_iff : sweep wanted ways way = some b ↔ ways way = some b ∧ wanted b = true :=
  Option.filter_eq_some_iff

omit [DecidableEq κ] in
theorem Distinct.sweep (distinct : Distinct keyOf ways) : Distinct keyOf (sweep wanted ways) :=
  fun i j b c hi hj same =>
    distinct i j b c (sweep_eq_some_iff.mp hi).1 (sweep_eq_some_iff.mp hj).1 same

/-- With distinct keys nothing else comes in the place of what is freed. -/
theorem entry_sweep (distinct : Distinct keyOf ways) (k : κ) :
    entry keyOf (sweep wanted ways) k = (entry keyOf ways k).filter wanted := by
  cases kept : (entry keyOf ways k).filter wanted with
  | some b =>
    obtain ⟨here, want⟩ := Option.filter_eq_some_iff.mp kept
    obtain ⟨way, -, valid⟩ := Option.bind_eq_some_iff.mp here
    exact entry_of_distinct distinct.sweep (sweep_eq_some_iff.mpr ⟨valid, want⟩)
      (keyOf_of_entry here)
  | none =>
    rw [entry_eq_none_iff, find_eq_none_iff]
    intro way b swept carried
    obtain ⟨valid, want⟩ := sweep_eq_some_iff.mp swept
    rw [entry_of_distinct distinct valid carried, Option.filter_some, if_pos want] at kept
    cases kept

end Ways
