import Mathlib.Logic.Basic
import Mathlib.Data.Option.Basic

/-!
# Copies of an owned value

A table whose places hold copies of values, each with its owner.  The table is consistent when all
copies of an owner are equal; a rewrite of the copies keeps it consistent exactly when it treats all
copies of an owner alike.
-/

namespace Copies

variable {ι O V : Type*}

/-- All copies of an owner are equal. -/
def Agree (copies : ι → Option (O × V)) : Prop :=
  ∀ i j o v v', copies i = some (o, v) → copies j = some (o, v') → v = v'

/-- The owner has copies in two places. -/
def Shared (copies : ι → Option (O × V)) (o : O) : Prop :=
  ∃ i j v v', i ≠ j ∧ copies i = some (o, v) ∧ copies j = some (o, v')

/-- Rewrites every copy in its place. -/
def rewrite (f : ι → O → V → V) (copies : ι → Option (O × V)) (i : ι) : Option (O × V) :=
  (copies i).map fun (o, v) => (o, f i o v)

variable {copies : ι → Option (O × V)} {f g : ι → O → V → V}

theorem rewrite_eq_some_iff {i : ι} {o : O} {w : V} :
    rewrite f copies i = some (o, w) ↔ ∃ v, copies i = some (o, v) ∧ f i o v = w := by
  constructor
  · intro h
    obtain ⟨⟨p, v⟩, here, eq⟩ := Option.map_eq_some_iff.mp h
    obtain ⟨rfl, rfl⟩ := Prod.mk.inj eq
    exact ⟨v, here, rfl⟩
  · rintro ⟨v, here, rfl⟩
    simp only [rewrite, here, Option.map_some]

theorem rewrite_rewrite : rewrite g (rewrite f copies) =
    rewrite (fun i o v => g i o (f i o v)) copies := by
  funext i
  simp only [rewrite, Option.map_map]
  rfl

/-- A rewrite that changes nothing where there are copies. -/
theorem rewrite_eq_self (fixed : ∀ i o v, copies i = some (o, v) → f i o v = v) :
    rewrite f copies = copies := by
  funext i
  cases here : copies i with
  | none => simp only [rewrite, here, Option.map_none]
  | some c => simp only [rewrite, here, Option.map_some, fixed i c.1 c.2 here]

theorem Agree.rewrite_iff (agree : Agree copies) :
    Agree (rewrite f copies) ↔
      ∀ i j o v, copies i = some (o, v) → copies j = some (o, v) → f i o v = f j o v := by
  constructor
  · intro h i j o v hi hj
    exact h i j o _ _ (rewrite_eq_some_iff.mpr ⟨v, hi, rfl⟩) (rewrite_eq_some_iff.mpr ⟨v, hj, rfl⟩)
  · intro alike i j o w w' hi hj
    obtain ⟨v, atI, rfl⟩ := rewrite_eq_some_iff.mp hi
    obtain ⟨v', atJ, rfl⟩ := rewrite_eq_some_iff.mp hj
    obtain rfl := agree i j o v v' atI atJ
    exact alike i j o v atI atJ

/-- A rewrite that leaves shared values alone keeps the table consistent. -/
theorem Agree.rewrite_of_fixed (agree : Agree copies)
    (fixed : ∀ i o v, copies i = some (o, v) → Shared copies o → f i o v = v) :
    Agree (rewrite f copies) := by
  rw [agree.rewrite_iff]
  intro i j o v hi hj
  by_cases same : i = j
  · rw [same]
  · have shared : Shared copies o := ⟨i, j, v, v, same, hi, hj⟩
    rw [fixed i o v hi shared, fixed j o v hj shared]

end Copies
