import Mathlib.Logic.Basic

/-!
# Guarded transition systems

A system is an executable step function `step : σ → α → Option σ`, with `none` where the action is
not enabled.  `ReachableWith step ok init` are the states reached by runs whose steps all meet the
condition `ok` in the state they start from; `Reachable` puts no condition.  `invariant` is the
induction over runs, and `of_runWith` reads a run off an explicit list of actions.
-/

namespace Transition

variable {σ α : Type*}

/-- The states reached from `init` by enabled actions that each meet `ok`. -/
inductive ReachableWith (step : σ → α → Option σ) (ok : σ → α → Prop) (init : σ) : σ → Prop
  | refl : ReachableWith step ok init init
  | tail {s t : σ} {a : α} (run : ReachableWith step ok init s) (admitted : ok s a)
      (enabled : step s a = some t) : ReachableWith step ok init t

/-- The states reached from `init` by enabled actions. -/
abbrev Reachable (step : σ → α → Option σ) (init : σ) : σ → Prop :=
  ReachableWith step (fun _ _ => True) init

/-- Runs a list of actions as long as each meets `ok` and is enabled. -/
def runWith (step : σ → α → Option σ) (ok : σ → α → Prop) [∀ s a, Decidable (ok s a)] (s : σ) :
    List α → Option σ
  | [] => some s
  | a :: as => if ok s a then (step s a).bind fun t => runWith step ok t as else none

/-- Runs a list of actions as long as each is enabled. -/
abbrev run (step : σ → α → Option σ) (s : σ) (as : List α) : Option σ :=
  runWith step (fun _ _ => True) s as

variable {step : σ → α → Option σ} {ok ok' : σ → α → Prop} {init s t : σ}

namespace ReachableWith

/-- An invariant holds initially and is kept by every admitted step. -/
theorem invariant {I : σ → Prop} (initial : I init)
    (kept : ∀ s a t, I s → ok s a → step s a = some t → I t)
    (reached : ReachableWith step ok init s) : I s := by
  induction reached with
  | refl => exact initial
  | tail _ admitted enabled ih => exact kept _ _ _ ih admitted enabled

theorem single {a : α} (admitted : ok init a) (enabled : step init a = some t) :
    ReachableWith step ok init t :=
  .tail .refl admitted enabled

theorem mono (weaker : ∀ s a, ok s a → ok' s a) (reached : ReachableWith step ok init s) :
    ReachableWith step ok' init s := by
  induction reached with
  | refl => exact .refl
  | tail _ admitted enabled ih => exact ih.tail (weaker _ _ admitted) enabled

theorem trans (first : ReachableWith step ok init s) (second : ReachableWith step ok s t) :
    ReachableWith step ok init t := by
  induction second with
  | refl => exact first
  | tail _ admitted enabled ih => exact ih.tail admitted enabled

/-- A successful list of actions reaches its last state. -/
theorem of_runWith [∀ s a, Decidable (ok s a)] (as : List α)
    (h : runWith step ok init as = some t) : ReachableWith step ok init t := by
  induction as generalizing init with
  | nil => cases h; exact .refl
  | cons a as ih =>
    rw [runWith] at h
    by_cases admitted : ok init a
    · rw [if_pos admitted] at h
      obtain ⟨u, enabled, rest⟩ := Option.bind_eq_some_iff.mp h
      exact (single admitted enabled).trans (ih rest)
    · rw [if_neg admitted] at h
      cases h

/-- A system whose admitted steps are admitted runs of another one reaches only views of what the
other one reaches. -/
theorem simulate {σ' α' : Type*} {step' : σ' → α' → Option σ'} {ok' : σ' → α' → Prop}
    {I : σ → Prop} (view : σ → σ') (invariant : ∀ s, ReachableWith step ok init s → I s)
    (simulated : ∀ s a t, I s → ok s a → step s a = some t →
      ReachableWith step' ok' (view s) (view t))
    (reached : ReachableWith step ok init s) :
    ReachableWith step' ok' (view init) (view s) := by
  induction reached with
  | refl => exact .refl
  | tail run admitted enabled ih =>
    exact ih.trans (simulated _ _ _ (invariant _ run) admitted enabled)

end ReachableWith

/-- The end of a run is reachable. -/
theorem exists_reachable_of_run {p : σ → Bool} (as : List α)
    (holds : (run step init as).any p = true) : ∃ s, Reachable step init s ∧ p s = true := by
  obtain ⟨s, reached, ends⟩ := (Option.any_eq_true _ _).mp holds
  exact ⟨s, .of_runWith as reached, ends⟩

/-- A predicate that fails at the end of a run is no invariant of the reachable states. -/
theorem not_always_of_run {P : σ → Prop} [DecidablePred P] (as : List α)
    (fails : ((run step init as).any fun t => !decide (P t)) = true) :
    ¬ ∀ s, Reachable step init s → P s := by
  intro always
  obtain ⟨t, reached, bad⟩ := exists_reachable_of_run as fails
  exact absurd (always t reached) (by simpa using bad)

end Transition
