import Mathlib.Data.List.MinMax
import Mathlib.Data.Prod.Lex

/-!
# The first best entry of a list

Among the entries of a list that a test accepts, the one with the least key, and the first of these:
`List.argmin` of the filtered list. Two tests select the same entry exactly where every entry that one
of them accepts alone comes after one that both accept. In a list of blocks with one key each, the
best entry is in the best block.
-/

namespace FirstBest

variable {α β : Type*} [DecidableEq α] [LinearOrder β] (key : α → β) (xs : List α)

/-- The order of the entries: the key, and then the place. -/
def rank (x : α) : β ×ₗ ℕ := toLex (key x, xs.idxOf x)

/-- Every entry that one test accepts and the other does not comes after an entry that both
accept. -/
def Indifferent (p q : α → Bool) : Prop :=
  ∀ x ∈ xs, p x ≠ q x → ∃ y ∈ xs, p y = true ∧ q y = true ∧ rank key xs y < rank key xs x

variable {key xs} {p q : α → Bool} {x y w : α}

theorem rank_le_iff : rank key xs x ≤ rank key xs y ↔
    key x < key y ∨ key x = key y ∧ xs.idxOf x ≤ xs.idxOf y :=
  Prod.Lex.toLex_le_toLex

omit [LinearOrder β] in
theorem rank_inj (mem : x ∈ xs) (same : rank key xs x = rank key xs y) : x = y := by
  have place : xs.idxOf x = xs.idxOf y := congrArg (fun r => (ofLex r).2) same
  exact (List.idxOf_inj mem).mp place

/-- A filter keeps the order of what it keeps. -/
theorem idxOf_filter_le_iff (here : p x = true) (there : p y = true) :
    (xs.filter p).idxOf x ≤ (xs.filter p).idxOf y ↔ xs.idxOf x ≤ xs.idxOf y := by
  induction xs with
  | nil => rfl
  | cons head tail ih =>
    by_cases kept : p head = true
    · rw [List.filter_cons_of_pos kept]
      by_cases first : head = x
      · rw [first, List.idxOf_cons_self, List.idxOf_cons_self]
        exact iff_of_true (Nat.zero_le _) (Nat.zero_le _)
      · rw [List.idxOf_cons_ne _ first, List.idxOf_cons_ne _ first]
        by_cases second : head = y
        · rw [second, List.idxOf_cons_self, List.idxOf_cons_self]
          exact iff_of_false (Nat.not_succ_le_zero _) (Nat.not_succ_le_zero _)
        · rw [List.idxOf_cons_ne _ second, List.idxOf_cons_ne _ second, Nat.succ_le_succ_iff, ih,
            Nat.succ_le_succ_iff]
    · have first : head ≠ x := fun same => kept (same ▸ here)
      have second : head ≠ y := fun same => kept (same ▸ there)
      rw [List.filter_cons_of_neg kept, List.idxOf_cons_ne _ first, List.idxOf_cons_ne _ second, ih,
        Nat.succ_le_succ_iff]

/-- The selected entry has the least rank of those that are accepted. -/
theorem mem_argmin_filter_iff :
    w ∈ (xs.filter p).argmin key ↔
      w ∈ xs ∧ p w = true ∧ ∀ x ∈ xs, p x = true → rank key xs w ≤ rank key xs x := by
  rw [List.mem_argmin_iff, List.mem_filter, and_assoc]
  refine and_congr_right fun mem => and_congr_right fun accepted => ?_
  constructor
  · rintro ⟨least, first⟩ x there also
    have kept : x ∈ xs.filter p := List.mem_filter.mpr ⟨there, also⟩
    rcases (least x kept).lt_or_eq with less | same
    · exact rank_le_iff.mpr (.inl less)
    · exact rank_le_iff.mpr
        (.inr ⟨same, (idxOf_filter_le_iff accepted also).mp (first x kept same.ge)⟩)
  · intro least
    refine ⟨fun x kept => ?_, fun x kept small => ?_⟩
    · obtain ⟨there, also⟩ := List.mem_filter.mp kept
      rcases rank_le_iff.mp (least x there also) with less | ⟨same, -⟩
      · exact less.le
      · exact same.le
    · obtain ⟨there, also⟩ := List.mem_filter.mp kept
      rcases rank_le_iff.mp (least x there also) with less | ⟨-, first⟩
      · exact absurd small (not_le.mpr less)
      · exact (idxOf_filter_le_iff accepted also).mpr first

omit [DecidableEq α] in
theorem argmin_filter_eq_none_iff :
    (xs.filter p).argmin key = none ↔ ∀ x ∈ xs, p x = false := by
  rw [List.argmin_eq_none, List.filter_eq_nil_iff]
  simp

/-- An entry that only one test accepts is not what the other selects. -/
theorem Indifferent.selected (indifferent : Indifferent key xs p q)
    (selected : w ∈ (xs.filter p).argmin key) : q w = true := by
  obtain ⟨mem, accepted, least⟩ := mem_argmin_filter_iff.mp selected
  by_contra refused
  obtain ⟨y, there, also, -, before⟩ := indifferent w mem fun same => refused (same ▸ accepted)
  exact absurd (least y there also) (not_le.mpr before)

theorem Indifferent.symm (indifferent : Indifferent key xs p q) : Indifferent key xs q p :=
  fun x mem differ => by
    obtain ⟨y, there, first, second, before⟩ := indifferent x mem differ.symm
    exact ⟨y, there, second, first, before⟩

theorem Indifferent.mem (indifferent : Indifferent key xs p q)
    (selected : w ∈ (xs.filter p).argmin key) : w ∈ (xs.filter q).argmin key := by
  obtain ⟨mem, accepted, least⟩ := mem_argmin_filter_iff.mp selected
  refine mem_argmin_filter_iff.mpr ⟨mem, indifferent.selected selected, fun x there also => ?_⟩
  by_cases both : p x = true
  · exact least x there both
  · obtain ⟨y, place, first, -, before⟩ := indifferent x there fun same => both (same ▸ also)
    exact (least y place first).trans before.le

/-- Two tests select the same entry exactly where they are indifferent. -/
theorem argmin_filter_eq_iff :
    (xs.filter p).argmin key = (xs.filter q).argmin key ↔ Indifferent key xs p q := by
  constructor
  · intro same x mem differ
    have some_of (r : α → Bool) (accepted : r x = true) :
        ∃ w, w ∈ (xs.filter r).argmin key := by
      refine Option.ne_none_iff_exists'.mp fun none => ?_
      exact Bool.false_ne_true ((argmin_filter_eq_none_iff.mp none x mem).symm.trans accepted)
    obtain ⟨w, first, second⟩ : ∃ w, w ∈ (xs.filter p).argmin key ∧
        w ∈ (xs.filter q).argmin key := by
      cases accepted : p x with
      | true =>
        obtain ⟨w, selected⟩ := some_of p accepted
        exact ⟨w, selected, same ▸ selected⟩
      | false =>
        have other : q x = true := by
          cases other : q x with
          | true => rfl
          | false => exact absurd (accepted.trans other.symm) differ
        obtain ⟨w, selected⟩ := some_of q other
        exact ⟨w, same ▸ selected, selected⟩
    obtain ⟨place, acceptedP, leastP⟩ := mem_argmin_filter_iff.mp first
    obtain ⟨-, acceptedQ, leastQ⟩ := mem_argmin_filter_iff.mp second
    have other : w ≠ x := fun here => differ (by rw [← here, acceptedP, acceptedQ])
    refine ⟨w, place, acceptedP, acceptedQ, lt_of_le_of_ne ?_ fun same => other (rank_inj place same)⟩
    cases accepted : p x with
    | true => exact leastP x mem accepted
    | false =>
      refine leastQ x mem ?_
      cases other : q x with
      | true => rfl
      | false => exact absurd (accepted.trans other.symm) differ
  · intro indifferent
    exact Option.ext fun w => ⟨indifferent.mem, indifferent.symm.mem⟩

section Blocks

variable {ρ : Type*} {f : ρ → List α} {keyOf : ρ → β}

omit [DecidableEq α] in
/-- The first of some entries with one key, before others. -/
theorem argmin_block {a : α} {block rest : List α} (same : ∀ b ∈ block, key b = key a) :
    (a :: block ++ rest).argmin key =
      (rest.argmin key).elim (some a) fun c => if key c < key a then some c else some a := by
  induction block generalizing a with
  | nil =>
    rw [List.cons_append, List.nil_append, List.argmin_cons]
    cases rest.argmin key with
    | none => rfl
    | some c => rfl
  | cons b block ih =>
    have equal := same b List.mem_cons_self
    rw [List.cons_append, List.argmin_cons, ih fun c mem =>
      (same c (List.mem_cons_of_mem _ mem)).trans equal.symm]
    cases rest.argmin key with
    | none => exact if_neg fun before : key b < key a => before.ne equal
    | some c =>
      dsimp only [Option.elim]
      rw [equal]
      by_cases less : key c < key a
      · rw [if_pos less]
      · rw [if_neg less, if_neg less]
        exact if_neg fun before : key b < key a => before.ne equal

omit [DecidableEq α] in
/-- The best entry of some blocks with one key each is an accepted one of the best block with one. -/
theorem argmin_flatMap {rs : List ρ} (keys : ∀ r ∈ rs, ∀ a ∈ f r, key a = keyOf r) :
    ((rs.filter fun r => (f r).any p).argmin keyOf = none ∧
      ((rs.flatMap f).filter p).argmin key = none) ∨
    ∃ r ∈ rs, ∃ a ∈ f r, p a = true ∧
      (rs.filter fun r => (f r).any p).argmin keyOf = some r ∧
      ((rs.flatMap f).filter p).argmin key = some a := by
  induction rs with
  | nil => exact .inl ⟨rfl, rfl⟩
  | cons r rs ih =>
    have later := ih fun r' mem => keys r' (List.mem_cons_of_mem _ mem)
    rw [List.flatMap_cons, List.filter_append]
    cases accepted : (f r).filter p with
    | nil =>
      have refused : (f r).any p = false := by
        rw [List.any_eq_false]
        simpa using List.filter_eq_nil_iff.mp accepted
      rw [List.nil_append, List.filter_cons_of_neg (by simp [refused])]
      exact later.imp_right fun ⟨r', mem, best⟩ => ⟨r', List.mem_cons_of_mem _ mem, best⟩
    | cons a block =>
      have inside : ∀ b ∈ a :: block, b ∈ f r ∧ p b = true := fun b mem =>
        List.mem_filter.mp (accepted ▸ mem)
      have key_eq := fun b mem => keys r List.mem_cons_self b (inside b mem).1
      obtain ⟨here, taken⟩ := inside a List.mem_cons_self
      have first := key_eq a List.mem_cons_self
      rw [argmin_block fun b mem => (key_eq b (List.mem_cons_of_mem _ mem)).trans first.symm,
        List.filter_cons_of_pos (by simpa using ⟨a, here, taken⟩), List.argmin_cons]
      right
      rcases later with ⟨noRow, noEntry⟩ | ⟨r', mem, a', there, taken', bestRow, bestEntry⟩
      · rw [noRow, noEntry]
        exact ⟨r, List.mem_cons_self, a, here, taken, rfl, rfl⟩
      · rw [bestRow, bestEntry]
        dsimp only [Option.elim]
        rw [first, keys r' (List.mem_cons_of_mem _ mem) a' there]
        by_cases less : keyOf r' < keyOf r
        · rw [if_pos less, if_pos less]
          exact ⟨r', List.mem_cons_of_mem _ mem, a', there, taken', rfl, rfl⟩
        · rw [if_neg less, if_neg less]
          exact ⟨r, List.mem_cons_self, a, here, taken, rfl, rfl⟩

end Blocks

end FirstBest
