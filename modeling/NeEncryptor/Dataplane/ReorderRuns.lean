import NeEncryptor.Lib.Transition
import NeEncryptor.Dataplane.ReorderWindow
import NeEncryptor.Dataplane.ReorderWorker

/-!
# Runs of a reorder worker

All calls on one worker's table, in any order, with the log of the callbacks they make.  A call that
does not return is the last one.
-/

namespace NeEncryptor.Reorder

open SerialNumber

variable {α : Type*}

/-- What `dp_udp_reorder_configure_from_env` sets. -/
structure Settings where
  enabled : Bool
  holdNs : BitVec 64
  deriving DecidableEq, Repr

/-- The calls on a worker, each with what `ops.emit` answers. -/
inductive Call (α : Type*)
  | submit (key : Key) (epoch : BitVec 32) (seq : Seq) (item : α) (now : BitVec 64)
      (emit : α → Bool)
  | gc (now : BitVec 64) (emit : α → Bool)
  | resetWorker

structure Run (α : Type*) where
  worker : Worker α
  /-- The callbacks for flows, in order. -/
  log : List (Fin 512 × Event α)
  /-- The callbacks for packets that are not reordered. -/
  direct : List (Event α)
  submitted : Multiset α
  /-- Every call so far has returned. -/
  returned : Bool

namespace Run

def initial : Run α := ⟨Worker.initial, [], [], 0, true⟩

/-- One call. -/
def call (settings : Settings) (s : Run α) : Call α → Run α
  | .submit key epoch seq item now emit =>
    if settings.enabled then
      let (w, events, returned) :=
        s.worker.dpUdpReorderSubmit emit settings.holdNs key epoch seq item now
      { s with
        worker := w
        log := s.log ++ events
        submitted := {item} + s.submitted
        returned := returned }
    else { s with direct := s.direct ++ itemEmit emit seq item, submitted := {item} + s.submitted }
  | .gc now emit =>
    let (w, events) := s.worker.dpUdpReorderGc emit settings.holdNs now
    { s with worker := w, log := s.log ++ events }
  | .resetWorker =>
    let (w, events) := s.worker.dpUdpReorderResetWorker
    { s with worker := w, log := s.log ++ events }

/-- A call starts once the one before it has returned. -/
def step (settings : Settings) (s : Run α) (c : Call α) : Option (Run α) :=
  if s.returned then some (s.call settings c) else none

variable {settings : Settings} {s t : Run α} {c : Call α}

theorem step_eq_some (enabled : step settings s c = some t) :
    s.returned = true ∧ t = s.call settings c := by
  unfold step at enabled
  split at enabled
  · rename_i returned
    exact ⟨returned, (Option.some.inj enabled).symm⟩
  · cases enabled

/-- All callbacks. -/
def callbacks (s : Run α) : List (Event α) := s.direct ++ Worker.callbacks s.log

/-- Every packet handed in was handed to `ops.emit` with success, or to `ops.drop`, or is in a slot,
as often as it was handed in. -/
def Accounted (s : Run α) : Prop :=
  s.submitted = emittedItems s.callbacks + droppedItems s.callbacks + s.worker.heldItems

/-- A submit that finds its flow wedged, once the hold time was looked at. -/
def Wedges (settings : Settings) (s : Run α) : Call α → Prop
  | .submit key epoch seq _ now emit =>
    settings.enabled ∧ ∃ flow,
      let (idx, w, _) := s.worker.flowLookup key epoch seq now
      w.flows idx = some flow ∧
        ((w.entry idx flow).expireGap emit settings.holdNs now).1.Wedged seq
  | _ => False

theorem accounted_iff :
    s.Accounted ↔ s.submitted = disposedItems s.callbacks + s.worker.heldItems := Iff.rfl

/-- The table is in order, and a packet is missing from the books only if its call has not
returned. -/
structure Kept (s : Run α) : Prop where
  counted : s.worker.Counted
  placed : s.worker.Placed
  books : ∃ lost, s.submitted = lost + (disposedItems s.callbacks + s.worker.heldItems) ∧
    (lost = 0 ↔ s.returned = true)

theorem kept_initial : (initial : Run α).Kept where
  counted := Worker.counted_initial
  placed := fun _ _ _ valid => nomatch valid
  books := by
    refine ⟨0, ?_, by simp [initial]⟩
    simp [initial, callbacks, Worker.callbacks, Worker.initial, Worker.heldItems,
      windowItems_empty]

theorem Kept.accounted_iff (kept : s.Kept) : s.Accounted ↔ s.returned = true := by
  obtain ⟨lost, books, none_lost⟩ := kept.books
  rw [Run.accounted_iff, books, ← none_lost]
  exact add_eq_right

/-- A call on the table, where `lost` is the part of the packet that it does not account for. -/
theorem Accounted.table {events : List (Fin 512 × Event α)} {input lost : Multiset α}
    (accounted : s.Accounted)
    (accounts : s.worker.Accounts input (Worker.callbacks events) t.worker)
    (log : t.log = s.log ++ events) (direct : t.direct = s.direct)
    (submitted : t.submitted = lost + input + s.submitted) :
    t.submitted = lost + (disposedItems t.callbacks + t.worker.heldItems) := by
  rw [Run.accounted_iff] at accounted
  rw [submitted, accounted, callbacks, callbacks, log, direct]
  simp only [disposedItems_append, Worker.callbacks_append]
  calc lost + input + (disposedItems s.direct + disposedItems (Worker.callbacks s.log) +
        s.worker.heldItems)
      = lost + (disposedItems s.direct + disposedItems (Worker.callbacks s.log) +
          (input + s.worker.heldItems)) := by abel
    _ = _ := by rw [accounts.items]; abel

/-- A packet that is not reordered leaves at once. -/
theorem Accounted.passThrough (accounted : s.Accounted) (emit : α → Bool) (seq : Seq) (item : α) :
    Run.Accounted { s with
      direct := s.direct ++ itemEmit emit seq item, submitted := {item} + s.submitted } := by
  rw [accounted_iff] at accounted ⊢
  simp only [callbacks, disposedItems_append, disposedItems_itemEmit] at accounted ⊢
  rw [accounted]
  abel

/-- A call on a flow that is not wedged returns. -/
theorem submit_returns (kept : s.Kept) {key : Key} {epoch : BitVec 32} {seq : Seq} {item : α}
    {now : BitVec 64} {emit : α → Bool} (enabled : settings.enabled = true)
    (free : ¬ s.Wedges settings (.submit key epoch seq item now emit)) :
    (s.worker.dpUdpReorderSubmit emit settings.holdNs key epoch seq item now).2.2 = true := by
  have looks := Worker.looks_flowLookup s.worker key epoch seq now
  unfold Worker.dpUdpReorderSubmit
  simp only [Wedges, enabled, true_and] at free
  generalize s.worker.flowLookup key epoch seq now = looked at looks free
  obtain ⟨idx, w, events⟩ := looked
  obtain ⟨flow, valid⟩ := looks.valid
  have counted := (kept.counted.accounts_looks looks).counted.entry valid
  have placed : (w.entry idx flow).Placed := kept.placed.looks looks idx
  have moves := Entry.moves_expireGap emit settings.holdNs now (w.entry idx flow)
  have free : ¬ ((w.entry idx flow).expireGap emit settings.holdNs now).1.Wedged seq :=
    fun wedged => free ⟨flow, valid, wedged⟩
  simp only [valid, Entry.submit]
  exact Entry.submitChecked_returns emit now item (counted.moves moves).1 (placed.moves moves) free

theorem call_submit {key : Key} {epoch : BitVec 32} {seq : Seq} {item : α} {now : BitVec 64}
    {emit : α → Bool} (enabled : settings.enabled = true) :
    s.call settings (.submit key epoch seq item now emit) =
      ⟨(s.worker.dpUdpReorderSubmit emit settings.holdNs key epoch seq item now).1,
        s.log ++ (s.worker.dpUdpReorderSubmit emit settings.holdNs key epoch seq item now).2.1,
        s.direct, {item} + s.submitted,
        (s.worker.dpUdpReorderSubmit emit settings.holdNs key epoch seq item now).2.2⟩ := by
  simp only [call, enabled, ↓reduceIte]

theorem call_passThrough {key : Key} {epoch : BitVec 32} {seq : Seq} {item : α} {now : BitVec 64}
    {emit : α → Bool} (disabled : settings.enabled = false) :
    s.call settings (.submit key epoch seq item now emit) =
      { s with direct := s.direct ++ itemEmit emit seq item, submitted := {item} + s.submitted } := by
  simp only [call, disabled, Bool.false_eq_true, ↓reduceIte]

theorem call_gc {now : BitVec 64} {emit : α → Bool} :
    s.call settings (.gc now emit) =
      ⟨(s.worker.dpUdpReorderGc emit settings.holdNs now).1,
        s.log ++ (s.worker.dpUdpReorderGc emit settings.holdNs now).2, s.direct, s.submitted,
        s.returned⟩ := rfl

theorem call_resetWorker :
    s.call settings .resetWorker =
      ⟨s.worker.dpUdpReorderResetWorker.1, s.log ++ s.worker.dpUdpReorderResetWorker.2, s.direct,
        s.submitted, s.returned⟩ := by
  simp only [call]

theorem Kept.submit (kept : s.Kept) (returned : s.returned = true)
    (enabled : settings.enabled = true) (key : Key) (epoch : BitVec 32) (seq : Seq) (item : α)
    (now : BitVec 64) (emit : α → Bool) :
    (s.call settings (.submit key epoch seq item now emit)).Kept := by
  have accounts := kept.counted.accounts_submit emit settings.holdNs key epoch seq item now
  have placed := kept.placed.submit emit settings.holdNs key epoch seq item now
  have accounted := kept.accounted_iff.mpr returned
  rw [call_submit enabled]
  generalize s.worker.dpUdpReorderSubmit emit settings.holdNs key epoch seq item now = result
    at accounts placed
  obtain ⟨w, events, answer⟩ := result
  cases answer with
  | true =>
    refine ⟨accounts.counted, placed, 0, accounted.table accounts rfl rfl ?_, by simp⟩
    rw [zero_add, if_pos rfl]
  | false =>
    refine ⟨accounts.counted, placed, {item}, accounted.table accounts rfl rfl ?_, by simp⟩
    rw [if_neg Bool.false_ne_true, add_zero]

theorem Kept.call (kept : s.Kept) (returned : s.returned = true) : (s.call settings c).Kept := by
  have accounted := kept.accounted_iff.mpr returned
  cases c with
  | submit key epoch seq item now emit =>
    cases enabled : settings.enabled with
    | true => exact kept.submit returned enabled key epoch seq item now emit
    | false =>
      have passed := accounted.passThrough emit seq item
      rw [call_passThrough enabled]
      refine ⟨kept.counted, kept.placed, 0, ?_, by simp [returned]⟩
      rw [zero_add]
      exact Run.accounted_iff.mp passed
  | gc now emit =>
    have accounts := kept.counted.accounts_gc emit settings.holdNs now
    have placed := kept.placed.gc emit settings.holdNs now
    rw [call_gc]
    exact ⟨accounts.counted, placed, 0, accounted.table accounts rfl rfl (by simp), by simp [returned]⟩
  | resetWorker =>
    have accounts := kept.counted.accounts_resetWorker
    have placed := kept.placed.resetWorker
    rw [call_resetWorker]
    generalize s.worker.dpUdpReorderResetWorker = result at accounts placed ⊢
    exact ⟨accounts.counted, placed, 0, accounted.table accounts rfl rfl (by simp), by simp [returned]⟩

theorem kept_of_reached {ok : Run α → Call α → Prop}
    (reached : Transition.ReachableWith (step settings) ok initial s) : s.Kept := by
  refine reached.invariant kept_initial fun s c t kept _ enabled => ?_
  obtain ⟨returned, rfl⟩ := step_eq_some enabled
  exact kept.call returned

/-- The books of a run are complete just when its calls have all returned. -/
theorem accounted_iff_returned (reached : Transition.Reachable (step settings) initial s) :
    s.Accounted ↔ s.returned = true :=
  (kept_of_reached reached).accounted_iff

/-- While no packet finds its flow wedged, every packet handed in is at every moment emitted,
dropped or in a slot, once each time it was handed in. -/
theorem packets_accounted_for (settings : Settings) (s : Run α)
    (reached : Transition.ReachableWith (step settings) (fun s c => ¬ s.Wedges settings c) initial s) :
    s.Accounted := by
  refine (kept_of_reached reached).accounted_iff.mpr ?_
  cases reached with
  | refl => rfl
  | @tail s t c run free enabled =>
    obtain ⟨returned, rfl⟩ := step_eq_some enabled
    cases c with
    | submit key epoch seq item now emit =>
      cases on : settings.enabled with
      | true =>
        rw [call_submit on]
        exact submit_returns (kept_of_reached run) on free
      | false =>
        rw [call_passThrough on]
        exact returned
    | gc now emit => exact returned
    | resetWorker =>
      rw [call_resetWorker]
      exact returned

/-- A table without packets wedges nothing. -/
theorem not_wedges_of_empty (empty : ∀ idx i, s.worker.slots idx i = none) :
    ¬ s.Wedges settings c := by
  cases c with
  | submit key epoch seq item now emit =>
    rintro ⟨_, flow, found⟩
    have looks := Worker.looks_flowLookup s.worker key epoch seq now
    generalize s.worker.flowLookup key epoch seq now = looked at looks found
    obtain ⟨idx, w, events⟩ := looked
    refine found.2.out_of_sight fun i slot valid => ?_
    have before := (Entry.moves_expireGap emit settings.holdNs now (w.entry idx flow)).slots valid
    have none := looks.slots_none empty idx i
    exact absurd (none.symm.trans before) (by simp)
  | gc => exact id
  | resetWorker => exact id

def sampleSettings : Settings := ⟨true, 2000000⟩

/-- A packet of a new flow, which waits for those before it. -/
def sampleSubmit : Call ℕ := .submit ⟨1, 2, 3, 37⟩ 0 40 7 5 fun _ => true

/-- A sweep that finds the hold time over. -/
def sampleGc : Call ℕ := .gc 2000006 fun _ => true

def sampleHeld : Run ℕ := initial.call sampleSettings sampleSubmit

def sampleFlush : Run ℕ := sampleHeld.call sampleSettings sampleGc

theorem reached_sampleFlush {ok : Run ℕ → Call ℕ → Prop} (submits : ok initial sampleSubmit)
    (sweeps : ok sampleHeld sampleGc) :
    Transition.ReachableWith (step sampleSettings) ok initial sampleFlush :=
  .tail (.single submits rfl) sweeps (if_pos (by decide +kernel))

/-- The sweep skips the missing packets and emits the one that waits. -/
theorem packets_accounted_for_sample :
    (sampleHeld.worker.held = 1 ∧ sampleFlush.worker.held = 0 ∧
      emittedItems sampleFlush.callbacks = {7}) ∧ sampleFlush.Accounted :=
  ⟨by decide +kernel, packets_accounted_for sampleSettings _
    (reached_sampleFlush (not_wedges_of_empty fun _ _ => rfl) id)⟩

end Run

end NeEncryptor.Reorder
