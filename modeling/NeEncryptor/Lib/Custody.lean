import Mathlib.Data.Multiset.AddSub

/-!
# Custody of resources

A trace of what a call does to resources: it uses them, takes new ones and gives them up.  The trace
disposes of what the call holds if nothing is used or given up that is not held at that time, nothing
is taken that is held, and nothing is held at the end.
-/

namespace Custody

variable {A K : Type*}

/-- What is done to a resource; `K` says where one that is given up goes. -/
inductive Event (A K : Type*)
  | use (a : A)
  | take (a : A)
  | release (a : A) (k : K)
  deriving DecidableEq

variable [DecidableEq A]

/-- What is held after an event; `none` where the event is not allowed. -/
def step (held : List A) : Event A K → Option (List A)
  | .use a => if a ∈ held then some held else none
  | .take a => if a ∈ held then none else some (a :: held)
  | .release a _ => if a ∈ held then some (held.erase a) else none

/-- What is held after a trace. -/
def run (held : List A) : List (Event A K) → Option (List A)
  | [] => some held
  | e :: es => (step held e).bind fun held => run held es

/-- Everything is given up exactly once, and used only before that. -/
def Disposes (held : List A) (es : List (Event A K)) : Prop := run held es = some []

instance (held : List A) (es : List (Event A K)) : Decidable (Disposes held es) :=
  inferInstanceAs (Decidable (_ = _))

variable {held held' : List A} {es es' : List (Event A K)} {a : A} {k : K}

theorem run_append : run held (es ++ es') = (run held es).bind fun held => run held es' := by
  induction es generalizing held with
  | nil => rfl
  | cons e es ih =>
    rw [List.cons_append, run, run, Option.bind_assoc]
    exact congrArg (Option.bind (step held e)) (funext fun _ => ih)

/-- A trace that is allowed may be followed by what disposes of the rest. -/
theorem Disposes.after (first : run held es = some held') (rest : Disposes held' es') :
    Disposes held (es ++ es') := by
  rw [Disposes, run_append, first]
  exact rest

theorem run_use (holds : a ∈ held) : run held (.use a :: es : List (Event A K)) = run held es := by
  rw [run, step, if_pos holds]
  rfl

theorem run_take (fresh : a ∉ held) :
    run held (.take a :: es : List (Event A K)) = run (a :: held) es := by
  rw [run, step, if_neg fresh]
  rfl

theorem run_release (holds : a ∈ held) : run held (.release a k :: es) = run (held.erase a) es := by
  rw [run, step, if_pos holds]
  rfl

theorem run_use_of_not_mem (lost : a ∉ held) : run held (.use a :: es : List (Event A K)) = none := by
  rw [run, step, if_neg lost]
  rfl

theorem run_take_of_mem (holds : a ∈ held) : run held (.take a :: es : List (Event A K)) = none := by
  rw [run, step, if_pos holds]
  rfl

theorem run_release_of_not_mem (lost : a ∉ held) : run held (.release a k :: es) = none := by
  rw [run, step, if_neg lost]
  rfl

/-! ## Where some resources stay -/

/-- A trace that is allowed and leaves the resources of `rest` held, in whatever order. -/
def Leaves (held : Multiset A) (es : List (Event A K)) (rest : Multiset A) : Prop :=
  ∀ l : List A, (l : Multiset A) = held → ∃ l', run l es = some l' ∧ (l' : Multiset A) = rest

section Leaves

variable {s t r : Multiset A}

/-- The order of what is held does not matter. -/
theorem run_perm {l l' m : List A} (perm : l.Perm l') (ran : run l es = some m) :
    ∃ m', run l' es = some m' ∧ m.Perm m' := by
  induction es generalizing l l' with
  | nil =>
    cases ran
    exact ⟨l', rfl, perm⟩
  | cons e es ih =>
    rw [run] at ran
    obtain ⟨next, stepped, rest⟩ := Option.bind_eq_some_iff.mp ran
    cases e with
    | use a =>
      obtain ⟨holds, same⟩ := Option.ite_none_right_eq_some.mp stepped
      cases same
      rw [run_use (perm.mem_iff.mp holds)]
      exact ih perm rest
    | take a =>
      obtain ⟨fresh, same⟩ := Option.ite_none_left_eq_some.mp stepped
      cases same
      rw [run_take (fun holds => fresh (perm.mem_iff.mpr holds))]
      exact ih (perm.cons a) rest
    | release a k =>
      obtain ⟨holds, same⟩ := Option.ite_none_right_eq_some.mp stepped
      cases same
      rw [run_release (perm.mem_iff.mp holds)]
      exact ih (perm.erase a) rest

theorem leaves_coe {l : List A} :
    Leaves (l : Multiset A) es r ↔ ∃ l', run l es = some l' ∧ (l' : Multiset A) = r := by
  refine ⟨fun leaves => leaves l rfl, ?_⟩
  rintro ⟨l', ran, rfl⟩ m same
  obtain ⟨m', ran', perm⟩ := run_perm (Multiset.coe_eq_coe.mp same.symm) ran
  exact ⟨m', ran', Multiset.coe_eq_coe.mpr perm.symm⟩

theorem Leaves.nil (s : Multiset A) : Leaves s ([] : List (Event A K)) s :=
  fun l same => ⟨l, rfl, same⟩

/-- What follows a trace that is allowed. -/
theorem leaves_append_iff (first : Leaves s es t) : Leaves s (es ++ es') r ↔ Leaves t es' r := by
  induction s using Quot.inductionOn with | h l => ?_
  obtain ⟨l', ran, rfl⟩ := first l rfl
  refine leaves_coe.trans (Iff.trans ?_ leaves_coe.symm)
  rw [run_append, ran]
  rfl

theorem leaves_use (holds : a ∈ s) : Leaves s (.use a :: es : List (Event A K)) r ↔ Leaves s es r := by
  induction s using Quot.inductionOn with | h l => ?_
  refine leaves_coe.trans (Iff.trans ?_ leaves_coe.symm)
  rw [run_use (Multiset.mem_coe.mp holds)]

theorem leaves_take (fresh : a ∉ s) :
    Leaves s (.take a :: es : List (Event A K)) r ↔ Leaves (a ::ₘ s) es r := by
  induction s using Quot.inductionOn with | h l => ?_
  refine leaves_coe.trans (Iff.trans ?_ leaves_coe.symm)
  rw [run_take (mt Multiset.mem_coe.mpr fresh)]

theorem leaves_release (holds : a ∈ s) : Leaves s (.release a k :: es) r ↔ Leaves (s.erase a) es r := by
  induction s using Quot.inductionOn with | h l => ?_
  refine leaves_coe.trans (Iff.trans ?_ leaves_coe.symm)
  rw [run_release (Multiset.mem_coe.mp holds)]

/-- What the trace begins with is held beside the rest. -/
theorem leaves_cons_use :
    Leaves (a ::ₘ s) (.use a :: es : List (Event A K)) r ↔ Leaves (a ::ₘ s) es r :=
  leaves_use (Multiset.mem_cons_self a s)

theorem leaves_cons_release : Leaves (a ::ₘ s) (.release a k :: es) r ↔ Leaves s es r := by
  rw [leaves_release (Multiset.mem_cons_self a s), Multiset.erase_cons_head]

theorem not_leaves_use (lost : a ∉ s) : ¬ Leaves s (.use a :: es : List (Event A K)) r := by
  induction s using Quot.inductionOn with | h l => ?_
  intro leaves
  obtain ⟨l', ran, -⟩ := leaves l rfl
  rw [run_use_of_not_mem (mt Multiset.mem_coe.mpr lost)] at ran
  cases ran

theorem not_leaves_take (held : a ∈ s) : ¬ Leaves s (.take a :: es : List (Event A K)) r := by
  induction s using Quot.inductionOn with | h l => ?_
  intro leaves
  obtain ⟨l', ran, -⟩ := leaves l rfl
  rw [run_take_of_mem (Multiset.mem_coe.mp held)] at ran
  cases ran

theorem not_leaves_release (lost : a ∉ s) : ¬ Leaves s (.release a k :: es) r := by
  induction s using Quot.inductionOn with | h l => ?_
  intro leaves
  obtain ⟨l', ran, -⟩ := leaves l rfl
  rw [run_release_of_not_mem (mt Multiset.mem_coe.mpr lost)] at ran
  cases ran

end Leaves

end Custody
