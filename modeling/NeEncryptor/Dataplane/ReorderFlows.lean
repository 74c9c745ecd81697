import NeEncryptor.Dataplane.ReorderRuns

/-!
# One flow for a key

The scan of a set stops at the first free way, so it finds the flow of a key only where no free way
comes before it.  While that is so at every lookup, no key gets a second flow.
-/

namespace NeEncryptor.Reorder

open SerialNumber

variable {α : Type*}

namespace Entry

variable {e e' : Entry α} {emit : α → Bool} {events : List (Event α)}

/-- A flow keeps its key and its epoch. -/
theorem Moves.key (moves : Moves emit e events e') :
    e'.flow.key = e.flow.key ∧ e'.flow.epoch = e.flow.epoch := by
  induction moves with
  | refl => exact ⟨rfl, rfl⟩
  | setGap _ _ ih => exact ih
  | release _ _ _ ih => exact ih
  | skip _ _ _ _ ih => exact ih
  | jump _ _ _ ih => exact ih

theorem hold_key (e : Entry α) (now : BitVec 64) (seq : Seq) (item : α) :
    (e.hold now seq item).1.flow.key = e.flow.key ∧
      (e.hold now seq item).1.flow.epoch = e.flow.epoch := by
  unfold Entry.hold
  split
  · split <;> exact ⟨rfl, rfl⟩
  · exact ⟨rfl, rfl⟩

theorem Submits.key {now : BitVec 64} {seq : Seq} {item : α} {returned : Bool}
    (submits : Submits emit now seq item e (e', events, returned)) :
    e'.flow.key = e.flow.key ∧ e'.flow.epoch = e.flow.epoch := by
  cases submits with
  | stuck moves => exact moves.key
  | returns arrives =>
    cases arrives with
    | refused moves => exact moves.key
    | passed moves _ flushed =>
      exact ⟨flushed.key.1.trans moves.key.1, flushed.key.2.trans moves.key.2⟩
    | @held m _ moves =>
      have held := hold_key m now seq item
      exact ⟨held.1.trans moves.key.1, held.2.trans moves.key.2⟩

theorem submit_key (emit : α → Bool) (holdNs now : BitVec 64) (seq : Seq) (item : α)
    (e : Entry α) :
    (e.submit emit holdNs now seq item).1.flow.key = e.flow.key ∧
      (e.submit emit holdNs now seq item).1.flow.epoch = e.flow.epoch := by
  have submits := submits_submit emit holdNs now seq item e
  generalize e.submit emit holdNs now seq item = result at submits ⊢
  exact submits.key

end Entry

namespace Worker

/-- The key of a valid flow. -/
def keyAt (w : Worker α) (idx : Fin 512) : Option Key := (w.flows idx).map Flow.key

/-- A free way of the key's set comes before the flow that carries the key. -/
def Hidden (w : Worker α) (key : Key) : Prop :=
  ∃ way way₁, way < way₁ ∧ w.flows (wayOf (setOf key) way) = none ∧
    w.keyAt (wayOf (setOf key) way₁) = some key

/-- Every key has one flow, in its own set. -/
structure Keyed (w : Worker α) : Prop where
  unique : ∀ i j key, w.keyAt i = some key → w.keyAt j = some key → i = j
  inSet : ∀ i key, w.keyAt i = some key → ∃ way, i = wayOf (setOf key) way

variable {w w' : Worker α} {idx : Fin 512} {key : Key} {events : List (Event α)}

theorem keyAt_of_valid {flow : Flow} (valid : w.flows idx = some flow) :
    w.keyAt idx = some flow.key := by
  rw [keyAt, valid, Option.map_some]

/-- Flows that are freed or keep their keys. -/
theorem Keyed.fewer (keyed : w.Keyed) (kept : ∀ i key, w'.keyAt i = some key → w.keyAt i = some key) :
    w'.Keyed where
  unique := fun i j key here there => keyed.unique i j key (kept i key here) (kept j key there)
  inSet := fun i key here => keyed.inSet i key (kept i key here)

theorem Keyed.put {flow : Flow} {e : Entry α} (keyed : w.Keyed) (valid : w.flows idx = some flow)
    (same : e.flow.key = flow.key) : (w.put idx e).Keyed := by
  refine keyed.fewer fun i key here => ?_
  by_cases at_idx : i = idx
  · subst at_idx
    rw [keyAt_of_valid valid, ← same]
    simpa [keyAt, Worker.put] using here
  · simpa [keyAt, Worker.put, at_idx] using here

theorem Keyed.touch {flow : Flow} (keyed : w.Keyed) (valid : w.flows idx = some flow)
    (now : BitVec 64) : (w.touch idx now).Keyed := by
  refine keyed.fewer fun i key here => ?_
  by_cases at_idx : i = idx
  · subst at_idx
    rw [keyAt_of_valid valid]
    simpa [keyAt, touch_flows valid] using here
  · simpa [keyAt, touch_flows valid, at_idx] using here

/-- A flow written for a key that no other flow carries. -/
theorem Keyed.flowReset (keyed : w.Keyed) (alone : ∀ i, w.keyAt i = some key → i = idx)
    (inSet : ∃ way, idx = wayOf (setOf key) way) (epoch : BitVec 32) (seq : Seq)
    (now : BitVec 64) : (w.flowReset idx key epoch seq now).1.Keyed := by
  have written : (w.flowReset idx key epoch seq now).1.keyAt idx = some key := by
    rw [keyAt_of_valid (flowReset_valid w idx key epoch seq now)]
    rfl
  have others (i : Fin 512) (apart : i ≠ idx) :
      (w.flowReset idx key epoch seq now).1.keyAt i = w.keyAt i := by
    rw [keyAt, flowReset_flows, Function.update_of_ne apart, keyAt]
  have only (i : Fin 512) (here : (w.flowReset idx key epoch seq now).1.keyAt i = some key) :
      i = idx := by
    by_contra apart
    exact apart (alone i ((others i apart).symm.trans here))
  constructor
  · intro i j key' here there
    by_cases mine : key' = key
    · subst mine
      rw [only i here, only j there]
    · have apart (i : Fin 512) (here : (w.flowReset idx key epoch seq now).1.keyAt i = some key') :
          i ≠ idx := by
        rintro rfl
        exact mine (Option.some.inj (here.symm.trans written))
      rw [others i (apart i here)] at here
      rw [others j (apart j there)] at there
      exact keyed.unique i j key' here there
  · intro i key' here
    by_cases at_idx : i = idx
    · subst at_idx
      rw [written, Option.some.injEq] at here
      exact here ▸ inSet
    · rw [others i at_idx] at here
      exact keyed.inSet i key' here

/-! ## The scan -/

/-- A scan that misses has seen no flow of the key, where none is hidden. -/
theorem scanWays_miss {set : Fin 128} {ways : List (Fin 4)} {victim : Fin 512}
    (seen : ways.Pairwise fun way way₁ =>
      w.flows (wayOf set way) = none → w.keyAt (wayOf set way₁) ≠ some key)
    (missed : w.scanWays key set ways victim = (idx, false)) :
    ∀ way ∈ ways, w.keyAt (wayOf set way) ≠ some key := by
  induction ways generalizing victim with
  | nil => simp
  | cons way ways ih =>
    obtain ⟨first, rest⟩ := List.pairwise_cons.mp seen
    unfold scanWays at missed
    split at missed
    · rename_i free
      intro way₁ member
      rcases List.mem_cons.mp member with rfl | later
      · simp [keyAt, free]
      · exact first way₁ later free
    · rename_i flow valid
      split at missed
      · simp at missed
      · rename_i apart
        intro way₁ member
        rcases List.mem_cons.mp member with rfl | later
        · rw [keyAt_of_valid valid]
          simpa using apart
        · exact ih rest missed way₁ later

/-- The scan ends in the set of the key. -/
theorem scanWays_inSet {set : Fin 128} {ways : List (Fin 4)} {victim : Fin 512} {hit : Bool}
    (start : ∃ way, victim = wayOf set way)
    (scanned : w.scanWays key set ways victim = (idx, hit)) : ∃ way, idx = wayOf set way := by
  induction ways generalizing victim with
  | nil =>
    rw [scanWays, Prod.mk.injEq] at scanned
    exact scanned.1 ▸ start
  | cons way ways ih =>
    unfold scanWays at scanned
    split at scanned
    · rw [Prod.mk.injEq] at scanned
      exact ⟨way, scanned.1.symm⟩
    · split at scanned
      · rw [Prod.mk.injEq] at scanned
        exact ⟨way, scanned.1.symm⟩
      · refine ih ?_ scanned
        split
        · exact ⟨way, rfl⟩
        · exact start

theorem scan_inSet {hit : Bool} (scanned : w.scan key = (idx, hit)) :
    ∃ way, idx = wayOf (setOf key) way :=
  scanWays_inSet ⟨0, rfl⟩ scanned

theorem Keyed.scan_miss (keyed : w.Keyed) (open_ : ¬ w.Hidden key)
    (missed : w.scan key = (idx, false)) (i : Fin 512) : w.keyAt i ≠ some key := by
  have seen : (List.finRange 4).Pairwise fun way way₁ =>
      w.flows (wayOf (setOf key) way) = none → w.keyAt (wayOf (setOf key) way₁) ≠ some key :=
    (List.pairwise_lt_finRange 4).imp fun before free carried =>
      open_ ⟨_, _, before, free, carried⟩
  intro carried
  obtain ⟨way, rfl⟩ := keyed.inSet i key carried
  exact scanWays_miss seen missed way (List.mem_finRange way) carried

/-- The flow of a key that is not hidden is the one that a lookup finds. -/
theorem Keyed.scan_eq (keyed : w.Keyed) (open_ : ¬ w.Hidden key)
    (carried : w.keyAt idx = some key) : w.scan key = (idx, true) := by
  cases scanned : w.scan key with
  | mk i hit =>
    cases hit with
    | false => exact absurd carried (keyed.scan_miss open_ scanned idx)
    | true =>
      obtain ⟨flow, valid, same⟩ := scanWays_hit scanned
      have here : w.keyAt i = some key := by rw [keyAt_of_valid valid, same]
      rw [keyed.unique i idx key here carried]

/-! ## Calls -/

theorem Keyed.looks {epoch : BitVec 32} {seq : Seq} {now : BitVec 64} (keyed : w.Keyed)
    (open_ : ¬ w.Hidden key) (looks : w.Looks key epoch seq now (idx, w', events)) : w'.Keyed := by
  cases looks with
  | found _ valid => exact keyed.touch valid now
  | outdated scanned =>
    obtain ⟨flow, valid, same⟩ := scanWays_hit scanned
    have here : w.keyAt idx = some key := by rw [keyAt_of_valid valid, same]
    have reset := keyed.flowReset (fun i carried => keyed.unique i idx key carried here)
      (scan_inSet scanned) epoch seq now
    exact reset.touch (flowReset_valid w idx key epoch seq now) now
  | missed scanned =>
    exact keyed.flowReset (fun i carried => absurd carried (keyed.scan_miss open_ scanned i))
      (scan_inSet scanned) epoch seq now

theorem Keyed.submit (keyed : w.Keyed) (open_ : ¬ w.Hidden key) (emit : α → Bool)
    (holdNs : BitVec 64) (epoch : BitVec 32) (seq : Seq) (item : α) (now : BitVec 64) :
    (w.dpUdpReorderSubmit emit holdNs key epoch seq item now).1.Keyed := by
  have looks := looks_flowLookup w key epoch seq now
  unfold dpUdpReorderSubmit
  generalize w.flowLookup key epoch seq now = looked at looks
  obtain ⟨idx, w₁, events⟩ := looked
  have keyed₁ := keyed.looks open_ looks
  obtain ⟨flow, valid⟩ := looks.valid
  have submits := Entry.submits_submit emit holdNs now seq item (w₁.entry idx flow)
  simp only [valid]
  generalize (w₁.entry idx flow).submit emit holdNs now seq item = result at submits
  obtain ⟨e, more, returned⟩ := result
  exact keyed₁.put valid submits.key.1

theorem Keyed.gcFlow (keyed : w.Keyed) (emit : α → Bool) (holdNs now : BitVec 64)
    (idx : Fin 512) : (w.gcFlow emit holdNs now idx).1.Keyed := by
  unfold Worker.gcFlow
  split
  · exact keyed
  · rename_i flow valid
    have moves := Entry.moves_expireGap emit holdNs now (w.entry idx flow)
    generalize (w.entry idx flow).expireGap emit holdNs now = result at moves
    have written := keyed.put valid moves.key.1
    simp only
    split
    · refine written.fewer fun i key here => ?_
      by_cases at_idx : i = idx
      · simp [keyAt, at_idx] at here
      · simpa [keyAt, at_idx] using here
    · exact written

theorem Keyed.gc (keyed : w.Keyed) (emit : α → Bool) (holdNs now : BitVec 64) :
    (w.dpUdpReorderGc emit holdNs now).1.Keyed := by
  have loop := forFlows_keeps (I := Keyed) (f := Worker.gcFlow emit holdNs now)
    (fun idx _ keyed => keyed.gcFlow emit holdNs now idx) w.gcSlice keyed
  exact loop.fewer fun _ _ here => here

theorem keyed_resetWorker (w : Worker α) : w.dpUdpReorderResetWorker.1.Keyed := by
  have freed (idx : Fin 512) : (forFlows resetFlow (List.finRange 512) w).1.flows idx = none := by
    rw [forFlows_resetFlow_flows, if_pos (List.mem_finRange idx)]
  simp only [dpUdpReorderResetWorker]
  generalize forFlows resetFlow (List.finRange 512) w = result at freed ⊢
  constructor
  · intro i j key here
    simp [keyAt, freed i] at here
  · intro i key here
    simp [keyAt, freed i] at here

end Worker

namespace Run

variable {settings : Settings} {s : Run α} {c : Call α}

/-- A submit for a key whose flow comes after a free way of its set. -/
def Hides (settings : Settings) (s : Run α) : Call α → Prop
  | .submit key _ _ _ _ _ => settings.enabled = true ∧ s.worker.Hidden key
  | _ => False

theorem keyed_call (keyed : s.worker.Keyed) (open_ : ¬ s.Hides settings c) :
    (s.call settings c).worker.Keyed := by
  cases c with
  | submit key epoch seq item now emit =>
    cases enabled : settings.enabled with
    | true =>
      rw [call_submit enabled]
      exact keyed.submit (fun hidden => open_ ⟨enabled, hidden⟩) emit settings.holdNs epoch seq item now
    | false =>
      rw [call_passThrough enabled]
      exact keyed
  | gc now emit => exact keyed.gc emit settings.holdNs now
  | resetWorker =>
    have reset := Worker.keyed_resetWorker s.worker
    rw [call_resetWorker]
    generalize s.worker.dpUdpReorderResetWorker = result at reset ⊢
    exact reset

/-- While no packet arrives for a flow behind a free way, every key has at most one flow, and the
flow that carries a key is the one its packets are judged by. -/
theorem one_flow_per_key (settings : Settings) (s : Run α)
    (reached : Transition.ReachableWith (step settings) (fun s c => ¬ s.Hides settings c) initial s) :
    (∀ i j f g, s.worker.flows i = some f → s.worker.flows j = some g → f.key = g.key → i = j) ∧
      ∀ i f, s.worker.flows i = some f → ¬ s.worker.Hidden f.key →
        s.worker.scan f.key = (i, true) := by
  have keyed : s.worker.Keyed := by
    refine reached.invariant (I := fun s => s.worker.Keyed) ?_ fun s c t keyed open_ enabled => ?_
    · exact ⟨fun _ _ _ here => (nomatch here), fun _ _ here => (nomatch here)⟩
    · rw [(step_eq_some enabled).2]
      exact keyed_call keyed open_
  refine ⟨fun i j f g here there same => ?_, fun i f here open_ => ?_⟩
  · refine keyed.unique i j f.key (Worker.keyAt_of_valid here) ?_
    rw [Worker.keyAt_of_valid there, same]
  · exact keyed.scan_eq open_ (Worker.keyAt_of_valid here)

/-- A packet of one of two flows whose keys share a set. -/
def flowCall (port : BitVec 16) (seq : Seq) (now : BitVec 64) : Call ℕ :=
  .submit ⟨0, 0, 0, port⟩ 0 seq 0 now fun _ => true

theorem one_flow_per_key_sample :
    ((initial.call sampleSettings (flowCall 0 0 1)).call sampleSettings
      (flowCall 235 0 1)).worker.scan ⟨0, 0, 0, 235⟩ = (1, true) := by
  have reached : Transition.ReachableWith (step sampleSettings)
      (fun s c => ¬ s.Hides sampleSettings c) initial
      ((initial.call sampleSettings (flowCall 0 0 1)).call sampleSettings (flowCall 235 0 1)) := by
    refine .tail (a := flowCall 235 0 1) (.single (a := flowCall 0 0 1) ?_ rfl) ?_ rfl
    · rintro ⟨_, way, way₁, _, _, carried⟩
      exact nomatch carried
    · rintro ⟨_, way, way₁, before, free, carried⟩
      revert before free carried
      revert way way₁
      decide +kernel
  have unique := one_flow_per_key sampleSettings _ reached
  have carried : ∃ f, ((initial.call sampleSettings (flowCall 0 0 1)).call sampleSettings
      (flowCall 235 0 1)).worker.flows 1 = some f ∧ f.key = ⟨0, 0, 0, 235⟩ := ⟨_, rfl, rfl⟩
  obtain ⟨f, valid, same⟩ := carried
  rw [← same]
  refine unique.2 1 f valid ?_
  rw [same]
  rintro ⟨way, way₁, before, free, carried⟩
  revert before free carried
  revert way way₁
  decide +kernel

/-- The gc frees the flow in the first way, and a packet of the second flow takes that way. -/
theorem second_flow_for_key :
    ¬ ∀ s, Transition.Reachable (step (α := ℕ) sampleSettings) initial s →
      ∀ i j f g, s.worker.flows i = some f → s.worker.flows j = some g → f.key = g.key → i = j := by
  intro always
  let s := ((((initial.call sampleSettings (flowCall 0 0 1)).call sampleSettings
    (flowCall 235 0 50000000000)).call sampleSettings (.gc 60000000002 fun _ => true)).call
      sampleSettings (flowCall 235 1 60000000003))
  have reached : Transition.Reachable (step sampleSettings) initial s :=
    .tail (a := flowCall 235 1 60000000003) (.tail (a := .gc 60000000002 fun _ => true)
      (.tail (a := flowCall 235 0 50000000000) (.single (a := flowCall 0 0 1) trivial rfl)
        trivial rfl) trivial rfl) trivial rfl
  have first : (s.worker.keyAt 0).isSome ∧ s.worker.keyAt 0 = s.worker.keyAt 1 := by decide +kernel
  obtain ⟨key, here⟩ := Option.isSome_iff_exists.mp first.1
  obtain ⟨f, valid, same⟩ := Option.map_eq_some_iff.mp here
  obtain ⟨g, valid₁, same₁⟩ := Option.map_eq_some_iff.mp (first.2.symm.trans here)
  exact absurd (always s reached 0 1 f g valid valid₁ (same.trans same₁.symm)) (by decide)

end Run

end NeEncryptor.Reorder
