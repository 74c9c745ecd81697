import Mathlib.Data.List.Perm.Subperm
import Mathlib.Data.Set.Card

/-!
# Resources and their places

A finite set of resources, each at one of several places: `held p` lists those at `p`.  `Partition`
says that each is at one place, once.  Handing resources from one place to another keeps it, and so
two places never hold more than all of them.
-/

open scoped List

namespace Places

variable {P R : Type*} {all : Finset R} {held held' : P → List R} {p q : P} {r : R}

/-- Each of the resources is at one place, once, and nothing else is anywhere. -/
structure Partition (all : Finset R) (held : P → List R) : Prop where
  nodup : ∀ p, (held p).Nodup
  apart : ∀ p q r, r ∈ held p → r ∈ held q → p = q
  mem_iff : ∀ r, r ∈ all ↔ ∃ p, r ∈ held p

namespace Partition

theorem existsUnique (parts : Partition all held) (isOne : r ∈ all) : ∃! p, r ∈ held p := by
  obtain ⟨p, here⟩ := (parts.mem_iff r).mp isOne
  exact ⟨p, here, fun q there => parts.apart q p r there here⟩

theorem nodup_append (parts : Partition all held) (ne : p ≠ q) : (held p ++ held q).Nodup :=
  List.nodup_append.mpr ⟨parts.nodup p, parts.nodup q,
    fun a here _ there same => ne (parts.apart p q a here (same ▸ there))⟩

/-- Two places do not hold more than there is. -/
theorem length_add_le (parts : Partition all held) (ne : p ≠ q) :
    (held p).length + (held q).length ≤ all.card := by
  classical
  have inside : (held p ++ held q).toFinset ⊆ all := by
    intro r here
    rw [List.mem_toFinset, List.mem_append] at here
    exact (parts.mem_iff r).mpr (here.elim (⟨p, ·⟩) (⟨q, ·⟩))
  calc (held p).length + (held q).length = (held p ++ held q).length := List.length_append.symm
    _ = (held p ++ held q).toFinset.card :=
      (List.toFinset_card_of_nodup (parts.nodup_append ne)).symm
    _ ≤ all.card := Finset.card_le_card inside

/-- The resources of two places are dealt out anew between them. -/
theorem exchange (parts : Partition all held) (ne : p ≠ q)
    (dealt : held' p ++ held' q ~ held p ++ held q)
    (others : ∀ p', p' ≠ p → p' ≠ q → held' p' = held p') : Partition all held' := by
  have nodup : (held' p ++ held' q).Nodup := dealt.nodup_iff.mpr (parts.nodup_append ne)
  have mem_pair (r : R) : r ∈ held' p ∨ r ∈ held' q ↔ r ∈ held p ∨ r ∈ held q := by
    rw [← List.mem_append, ← List.mem_append, dealt.mem_iff]
  have disjoint (r : R) (here : r ∈ held' p) (there : r ∈ held' q) : False :=
    (List.nodup_append.mp nodup).2.2 r here r there rfl
  -- where a resource was before, as far as the pair is one place
  have before (p' r) (there : r ∈ held' p') :
      (p' = p ∨ p' = q) ∧ (r ∈ held p ∨ r ∈ held q) ∨ (p' ≠ p ∧ p' ≠ q) ∧ r ∈ held p' := by
    by_cases off : p' = p
    · subst off
      exact .inl ⟨.inl rfl, (mem_pair r).mp (.inl there)⟩
    by_cases off' : p' = q
    · subst off'
      exact .inl ⟨.inr rfl, (mem_pair r).mp (.inr there)⟩
    exact .inr ⟨⟨off, off'⟩, by rwa [← others p' off off']⟩
  have notBoth (p' r) (off : p' ≠ p ∧ p' ≠ q) (there : r ∈ held p')
      (pair : r ∈ held p ∨ r ∈ held q) : False :=
    pair.elim (fun here => off.1 (parts.apart p' p r there here))
      (fun here => off.2 (parts.apart p' q r there here))
  refine ⟨fun p' => ?_, fun p₁ p₂ r one two => ?_, fun r => (parts.mem_iff r).trans ⟨?_, ?_⟩⟩
  · by_cases off : p' = p
    · subst off
      exact nodup.of_append_left
    by_cases off' : p' = q
    · subst off'
      exact nodup.of_append_right
    rw [others p' off off']
    exact parts.nodup p'
  · obtain ⟨isPair, pair⟩ | ⟨off, there⟩ := before p₁ r one
    · obtain ⟨isPair', -⟩ | ⟨off', there'⟩ := before p₂ r two
      · obtain rfl | rfl := isPair <;> obtain rfl | rfl := isPair'
        · rfl
        · exact (disjoint r one two).elim
        · exact (disjoint r two one).elim
        · rfl
      · exact (notBoth p₂ r off' there' pair).elim
    · obtain ⟨-, pair⟩ | ⟨-, there'⟩ := before p₂ r two
      · exact (notBoth p₁ r off there pair).elim
      · exact parts.apart p₁ p₂ r there there'
  · rintro ⟨p', there⟩
    by_cases off : p' = p
    · exact ((mem_pair r).mpr (.inl (off ▸ there))).elim (⟨p, ·⟩) (⟨q, ·⟩)
    by_cases off' : p' = q
    · exact ((mem_pair r).mpr (.inr (off' ▸ there))).elim (⟨p, ·⟩) (⟨q, ·⟩)
    exact ⟨p', by rwa [others p' off off']⟩
  · rintro ⟨p', there⟩
    obtain ⟨-, pair⟩ | ⟨-, there'⟩ := before p' r there
    · exact pair.elim (⟨p, ·⟩) (⟨q, ·⟩)
    · exact ⟨p', there'⟩

end Partition

section Moves

variable [DecidableEq P]

/-- The first `n` resources of a place go to the end of another. -/
def shift (held : P → List R) (src dst : P) (n : ℕ) : P → List R :=
  Function.update (Function.update held src ((held src).drop n)) dst
    (held dst ++ (held src).take n)

theorem partition_shift_iff (ne : p ≠ q) (n : ℕ) :
    Partition all (shift held p q n) ↔ Partition all held := by
  have dealt : shift held p q n p ++ shift held p q n q ~ held p ++ held q := by
    rw [shift, Function.update_of_ne ne, Function.update_self, Function.update_self]
    calc (held p).drop n ++ (held q ++ (held p).take n)
        = ((held p).drop n ++ held q) ++ (held p).take n := (List.append_assoc ..).symm
      _ ~ (held p).take n ++ ((held p).drop n ++ held q) := List.perm_append_comm
      _ = held p ++ held q := by rw [← List.append_assoc, List.take_append_drop]
  have others (p' : P) (off : p' ≠ p) (off' : p' ≠ q) : shift held p q n p' = held p' := by
    rw [shift, Function.update_of_ne off', Function.update_of_ne off]
  exact ⟨fun parts => parts.exchange ne dealt.symm fun p' off off' => (others p' off off').symm,
    fun parts => parts.exchange ne dealt others⟩

variable [DecidableEq R]

/-- Some resources of a place go to the end of another. -/
def pick (held : P → List R) (src dst : P) (rs : List R) : P → List R :=
  Function.update (Function.update held src ((held src).diff rs)) dst (held dst ++ rs)

theorem Partition.pick (parts : Partition all held) (ne : p ≠ q) {rs : List R}
    (here : rs.Subperm (held p)) : Partition all (pick held p q rs) := by
  refine parts.exchange ne ?_ fun p' off off' => ?_
  · rw [Places.pick, Function.update_of_ne ne, Function.update_self, Function.update_self]
    calc (held p).diff rs ++ (held q ++ rs)
        ~ (held p).diff rs ++ (rs ++ held q) := List.perm_append_comm.append_left _
      _ = ((held p).diff rs ++ rs) ++ held q := (List.append_assoc ..).symm
      _ ~ (rs ++ (held p).diff rs) ++ held q := List.perm_append_comm.append_right _
      _ ~ held p ++ held q := (List.subperm_append_diff_self_of_count_le
          (List.subperm_ext_iff.mp here)).append_right _
  · rw [Places.pick, Function.update_of_ne off', Function.update_of_ne off]

end Moves

end Places
