import NeEncryptor.Dataplane.ReorderWorker

/-!
# When a call on the reorder buffer does not return

`flow_make_window_room` goes round for ever just when, after everything that it can see was released,
a packet is left that it cannot see and the new one lies past the window.  The condition is on the
flow as the call finds it: a skip neither makes nor ends it.
-/

namespace NeEncryptor.Reorder

open SerialNumber

variable {α : Type*}

namespace Entry

/-- The packet lies past everything that can be released, and a packet that cannot is held and does
not come into sight. -/
structure Stuck (seq : Seq) (e : Entry α) : Prop extends e.Wedged seq where
  behind : ∀ i slot, e.slots i = some slot → ¬ e.AheadSlot i slot →
    ∀ j other, e.AheadSlot j other → delta slot.seq other.seq < 0

variable {e e' : Entry α} {emit : α → Bool} {seq : Seq} {k : ℕ}

/-! ## Distances -/

theorem aheadSlot_iff {i : Fin 256} {slot : Slot α} :
    e.AheadSlot i slot ↔ e.slots i = some slot ∧ e.ahead slot.seq < 2147483647 := by
  constructor
  · intro seen
    have bound := seen.2.2
    rw [seen.delta_eq] at bound
    exact ⟨seen.1, by omega⟩
  · rintro ⟨valid, near⟩
    have short : (slot.seq - e.flow.nextSeq).toNat < 2147483647 := near
    have same : delta slot.seq e.flow.nextSeq = _ := delta_eq_toNat (by omega)
    exact ⟨valid, by omega, by omega⟩

theorem beyond_iff : 256 ≤ delta seq e.flow.nextSeq ↔ 256 ≤ e.ahead seq ∧ e.ahead seq < 2 ^ 31 := by
  unfold ahead
  constructor
  · intro beyond
    have near := delta_nonneg_iff.mp (by omega : 0 ≤ delta seq e.flow.nextSeq)
    rw [delta_eq_toNat near] at beyond
    omega
  · rintro ⟨far, near⟩
    rw [delta_eq_toNat near]
    omega

theorem delta_neg_iff {s b : Seq} (reached : e.ahead b ≤ e.ahead s) :
    delta s b < 0 ↔ e.ahead b + 2 ^ 31 ≤ e.ahead s := by
  have apart : (s - b).toNat = e.ahead s - e.ahead b := toNat_sub_of_advance reached
  have sign : 0 ≤ delta s b ↔ _ := delta_nonneg_iff
  rw [apart] at sign
  omega

/-- The condition by the distances to `next_seq`. -/
theorem stuck_iff : e.Stuck seq ↔
    (256 ≤ e.ahead seq ∧ e.ahead seq < 2 ^ 31) ∧
      (∃ i slot, e.slots i = some slot ∧ 2147483647 ≤ e.ahead slot.seq) ∧
      ∀ i slot, e.slots i = some slot → e.ahead slot.seq < 2147483647 →
        e.ahead slot.seq + 257 ≤ e.ahead seq ∧
          ∀ j other, e.slots j = some other → 2147483647 ≤ e.ahead other.seq →
            e.ahead slot.seq + 2 ^ 31 ≤ e.ahead other.seq := by
  have past_iff (far : e.ahead seq < 2 ^ 31) {slot : Slot α}
      (near : e.ahead slot.seq < 2147483647) :
      257 ≤ delta seq slot.seq ↔ e.ahead slot.seq + 257 ≤ e.ahead seq := by
    unfold ahead at far near ⊢
    rw [delta_eq_sub e.flow.nextSeq (by omega) (by omega)]
    omega
  constructor
  · intro stuck
    obtain ⟨far, near⟩ := beyond_iff.mp stuck.beyond
    refine ⟨⟨far, near⟩, ?_, fun i slot valid close => ⟨?_, fun j other held hidden => ?_⟩⟩
    · by_contra sight
      refine stuck.out_of_sight fun i slot valid => aheadSlot_iff.mpr ⟨valid, ?_⟩
      by_contra hidden
      exact sight ⟨i, slot, valid, by omega⟩
    · exact (past_iff near close).mp (stuck.past i slot (aheadSlot_iff.mpr ⟨valid, close⟩))
    · refine (delta_neg_iff (by omega)).mp (stuck.behind j other held (fun seen => ?_) i slot
        (aheadSlot_iff.mpr ⟨valid, close⟩))
      have := (aheadSlot_iff.mp seen).2
      omega
  · rintro ⟨⟨far, near⟩, ⟨i, slot, valid, hidden⟩, seen⟩
    refine ⟨⟨fun sight => ?_, beyond_iff.mpr ⟨far, near⟩, fun j other ahead => ?_⟩,
      fun j other held unseen l third ahead => ?_⟩
    · have := (aheadSlot_iff.mp (sight i slot valid)).2
      omega
    · obtain ⟨held, close⟩ := aheadSlot_iff.mp ahead
      exact (past_iff near close).mpr (seen j other held close).1
    · obtain ⟨held', close⟩ := aheadSlot_iff.mp ahead
      have lost : 2147483647 ≤ e.ahead other.seq := by
        by_contra short
        exact unseen (aheadSlot_iff.mpr ⟨held, by omega⟩)
      exact (delta_neg_iff (by omega)).mpr ((seen l third held' close).2 j other held lost)

/-! ## A skip -/

namespace Skipped

variable {first : Slot α} {m : Entry α}

theorem ahead_first_le {i : Fin 256} {slot : Slot α} (skipped : e.Skipped first k m e')
    (valid : e.slots i = some slot) : e.ahead first.seq ≤ e.ahead slot.seq := by
  obtain ⟨j, seen⟩ := skipped.found
  have near := (aheadSlot_iff.mp seen).2
  by_cases close : e.ahead slot.seq < 2147483647
  · exact skipped.least i slot (aheadSlot_iff.mpr ⟨valid, close⟩)
  · omega

/-- A skip leaves what lies past the run that it releases. -/
theorem slots_iff {i : Fin 256} {slot : Slot α} (skipped : e.Skipped first k m e') :
    e'.slots i = some slot ↔
      e.slots i = some slot ∧ e.ahead first.seq + k ≤ e.ahead slot.seq := by
  constructor
  · intro valid
    obtain ⟨before, far⟩ := skipped.left valid
    have reached := skipped.ahead_first_le before
    rw [ahead_advance reached] at far
    exact ⟨before, by omega⟩
  · rintro ⟨valid, far⟩
    rw [skipped.result]
    refine skipped.flushed.kept i slot valid ?_
    rw [ahead_advance (by omega)]
    omega

/-- The numbers of the run are held. -/
theorem due {d : ℕ} (skipped : e.Skipped first k m e') (from_first : e.ahead first.seq ≤ d)
    (below : d < e.ahead first.seq + k) : ∃ i slot, e.slots i = some slot ∧ e.ahead slot.seq = d := by
  obtain ⟨j, seen⟩ := skipped.found
  have near := (aheadSlot_iff.mp seen).2
  have few := skipped.few_released
  obtain ⟨i, slot, valid, number⟩ := skipped.flushed.due (d - e.ahead first.seq) (by omega)
  have number : slot.seq = first.seq + BitVec.ofNat 32 (d - e.ahead first.seq) := number
  refine ⟨i, slot, valid, ?_⟩
  have shifted := @toNat_add_ofNat_sub first.seq e.flow.nextSeq (d - e.ahead first.seq)
  unfold ahead at *
  rw [number, shifted (by omega)]
  omega

/-- A skip neither makes a flow stuck nor frees it. -/
theorem stuck_iff (skipped : e.Skipped first k m e') (beyond : 256 ≤ delta seq e.flow.nextSeq) :
    e'.Stuck seq ↔ e.Stuck seq := by
  obtain ⟨far, near⟩ := beyond_iff.mp beyond
  obtain ⟨j, seen⟩ := skipped.found
  obtain ⟨firstValid, firstNear⟩ := aheadSlot_iff.mp seen
  have few := skipped.few_released
  have released := skipped.some_released
  rw [Entry.stuck_iff, Entry.stuck_iff]
  constructor
  · rintro ⟨⟨far', near'⟩, ⟨i, slot, valid, hidden⟩, later⟩
    -- the run ends before the packet
    have short : e.ahead first.seq + k ≤ e.ahead seq := by
      by_contra past
      have next := skipped.ahead_next (by omega)
      have split : seq - e'.flow.nextSeq =
          seq - e.flow.nextSeq - (e'.flow.nextSeq - e.flow.nextSeq) := by bv_omega
      have wrapped := congrArg BitVec.toNat split
      rw [BitVec.toNat_sub _ (e'.flow.nextSeq - e.flow.nextSeq), next] at wrapped
      unfold ahead at *
      omega
    have here := skipped.ahead_eq short
    refine ⟨⟨far, near⟩, ⟨i, slot, (skipped.slots_iff.mp valid).1, ?_⟩,
      fun l other held close => ⟨?_, fun l' third held' lost => ?_⟩⟩
    · have := skipped.ahead_eq (skipped.slots_iff.mp valid).2
      omega
    · by_cases gone : e.ahead other.seq < e.ahead first.seq + k
      · omega
      · have there := skipped.ahead_eq (s := other.seq) (by omega)
        have := (later l other (skipped.slots_iff.mpr ⟨held, by omega⟩) (by omega)).1
        omega
    · have kept := skipped.slots_iff.mpr ⟨held', by omega⟩
      have there := skipped.ahead_eq (s := third.seq) (by omega)
      have lost' : 2147483647 ≤ e'.ahead third.seq := by
        by_contra close'
        have := (later l' third kept (by omega)).1
        omega
      by_cases gone : e.ahead other.seq < e.ahead first.seq + k
      · omega
      · have there' := skipped.ahead_eq (s := other.seq) (by omega)
        have := (later l other (skipped.slots_iff.mpr ⟨held, by omega⟩) (by omega)).2 l' third kept
          lost'
        omega
  · rintro ⟨-, ⟨i, slot, valid, hidden⟩, before⟩
    -- every number of the run is in sight and lies as far behind the packet
    have short : e.ahead first.seq + k + 256 ≤ e.ahead seq := by
      by_contra past
      have start := (before j first firstValid firstNear).1
      obtain ⟨l, other, held, place⟩ := skipped.due (d := e.ahead seq - 256) (by omega) (by omega)
      have := (before l other held (by omega)).1
      omega
    obtain ⟨l, last, lastValid, lastPlace⟩ :=
      skipped.due (d := e.ahead first.seq + k - 1) (by omega) (by omega)
    have behind := (before l last lastValid (by omega)).2
    have here := skipped.ahead_eq (s := seq) (by omega)
    refine ⟨⟨by omega, by omega⟩, ⟨i, slot, skipped.slots_iff.mpr ⟨valid, by omega⟩, ?_⟩,
      fun l' other held close => ?_⟩
    · have there := skipped.ahead_eq (s := slot.seq) (by omega)
      have := behind i slot valid hidden
      omega
    · obtain ⟨held, reached⟩ := skipped.slots_iff.mp held
      have there := skipped.ahead_eq reached
      have seen' : e.ahead other.seq < 2147483647 := by
        by_contra lost
        have := behind l' other held (by omega)
        omega
      obtain ⟨past, apart⟩ := before l' other held seen'
      refine ⟨by omega, fun l'' third held' lost => ?_⟩
      obtain ⟨held', reached'⟩ := skipped.slots_iff.mp held'
      have there' := skipped.ahead_eq reached'
      have := apart l'' third held' (by omega)
      omega

end Skipped

/-! ## The loop that makes room -/

theorem crowded_iff : e.crowded seq = true ↔ e.flow.held ≠ 0 ∧ 256 ≤ delta seq e.flow.nextSeq := by
  rw [crowded, beyondWindow, Bool.and_eq_true, decide_eq_true_eq, decide_eq_true_eq]

theorem stuck_of_unseen {others : ℕ} (counted : e.Counted others) (full : e.crowded seq = true)
    (unseen : ∀ i slot, ¬ e.AheadSlot i slot) : e.Stuck seq := by
  obtain ⟨some_held, beyond⟩ := crowded_iff.mp full
  refine ⟨⟨fun sight => some_held ?_, beyond, fun i slot seen => absurd seen (unseen i slot)⟩,
    fun _ _ _ _ j other seen => absurd seen (unseen j other)⟩
  rw [counted.held, Multiset.card_eq_zero]
  refine Finset.sum_eq_zero fun i _ => ?_
  cases valid : e.slots i with
  | none => rfl
  | some slot => exact absurd (sight i slot valid) (unseen i slot)

theorem Stuck.crowded {others : ℕ} (stuck : e.Stuck seq) (counted : e.Counted others) :
    e.crowded seq = true := by
  refine crowded_iff.mpr ⟨fun none => stuck.out_of_sight fun i slot valid => ?_, stuck.beyond⟩
  exact absurd ((counted.empty none i).symm.trans valid) (by simp)

/-- The loop goes on for ever just when the flow is stuck. -/
theorem crowded_roomLoop_iff {others : ℕ} (emit : α → Bool) (fuel : ℕ) (counted : e.Counted others)
    (placed : e.Placed) (enough : e.flow.held ≤ fuel) :
    (e.roomLoop emit seq fuel).1.crowded seq = true ↔ e.Stuck seq := by
  induction fuel generalizing e with
  | zero => exact ⟨fun full => absurd (Nat.le_zero.mp enough) (crowded_iff.mp full).1,
      fun stuck => stuck.crowded counted⟩
  | succ fuel ih =>
    by_cases full : e.crowded seq = true
    · rcases flowSkipGap_cases emit placed with ⟨unseen, -⟩ | ⟨first, k, m, skipped⟩
      · exact ⟨fun _ => stuck_of_unseen counted full unseen,
          fun _ => crowded_roomLoop_of_unseen emit (fuel + 1) placed unseen full⟩
      · have kept := (counted.moves (moves_flowSkipGap emit e)).1
        have fewer := skipped.held_lt counted
        unfold roomLoop
        rw [if_pos full, ← skipped.stuck_iff (crowded_iff.mp full).2]
        exact ih kept (skipped.placed placed) (by omega)
    · unfold roomLoop
      rw [if_neg full]
      exact ⟨fun more => absurd more full, fun stuck => absurd (stuck.crowded counted) full⟩

/-- A call does not return just when it finds its flow stuck. -/
theorem submitChecked_returns_iff {others : ℕ} (emit : α → Bool) (now : BitVec 64) (item : α)
    (counted : e.Counted others) (placed : e.Placed) :
    (e.submitChecked emit now seq item).2.2 = true ↔ ¬ e.Stuck seq := by
  have loop : _ ↔ e.Stuck seq := crowded_roomLoop_iff emit e.flow.held counted placed le_rfl
  have near (close : delta seq e.flow.nextSeq ≤ 0) : ¬ e.Stuck seq := fun stuck => by
    have := stuck.beyond
    omega
  have room : (e.flowMakeWindowRoom emit seq).2.2 = true ↔ ¬ e.Stuck seq := by
    rw [← loop, flowMakeWindowRoom]
    dsimp only
    split
    · rename_i full
      exact ⟨fun answer => absurd answer Bool.false_ne_true, fun free => absurd full free⟩
    · rename_i roomy
      exact ⟨fun _ => roomy, fun _ => rfl⟩
  unfold submitChecked
  split
  · exact ⟨fun _ => near (by omega), fun _ => rfl⟩
  · split
    · exact ⟨fun _ => near (by omega), fun _ => rfl⟩
    · split
      · rename_i answer
        rw [answer] at room
        exact room
      · rename_i answer
        rw [answer] at room
        exact ⟨fun _ => room.mp rfl, fun _ => rfl⟩

theorem submit_returns_iff {others : ℕ} (emit : α → Bool) (holdNs now : BitVec 64) (item : α)
    (counted : e.Counted others) (placed : e.Placed) :
    (e.submit emit holdNs now seq item).2.2 = true ↔
      ¬ (e.expireGap emit holdNs now).1.Stuck seq := by
  have moves := moves_expireGap emit holdNs now e
  exact submitChecked_returns_iff emit now item (counted.moves moves).1 (placed.moves moves)

/-! ## The fields that do not matter -/

/-- The same packets at the same place. -/
structure SameWindow (e d : Entry α) : Prop where
  slots : e.slots = d.slots
  next : e.flow.nextSeq = d.flow.nextSeq
  held : e.flow.held = d.flow.held

variable {d : Entry α}

theorem SameWindow.release (same : e.SameWindow d) : e.release.SameWindow d.release where
  slots := by rw [Entry.release, Entry.release, same.slots, same.next]
  next := by rw [Entry.release, Entry.release, same.next]
  held := by rw [Entry.release, Entry.release, same.held]

theorem SameWindow.flushLoop (emit emit' : α → Bool) (fuel : ℕ) (same : e.SameWindow d) :
    (e.flushLoop emit fuel).1.SameWindow (d.flushLoop emit' fuel).1 := by
  induction fuel generalizing e d with
  | zero => exact same
  | succ fuel ih =>
    unfold Entry.flushLoop
    rw [same.slots, same.next]
    split
    · exact same
    · split
      · exact ih same.release
      · exact same

theorem SameWindow.flowSmallestAhead (same : e.SameWindow d) :
    e.flowSmallestAhead = d.flowSmallestAhead := by
  have step : e.aheadStep = d.aheadStep := by
    funext best i
    rw [aheadStep, aheadStep, same.slots, same.next]
  rw [Entry.flowSmallestAhead, Entry.flowSmallestAhead, step]

theorem SameWindow.flowSkipGap (emit emit' : α → Bool) (same : e.SameWindow d) :
    (e.flowSkipGap emit).1.SameWindow (d.flowSkipGap emit').1 := by
  unfold Entry.flowSkipGap
  rw [same.flowSmallestAhead]
  split
  · exact ⟨same.slots, same.next, same.held⟩
  · rename_i dist seq _
    have started : (if 0 < dist then e.advance seq else e).SameWindow
        (if 0 < dist then d.advance seq else d) := by
      split
      · exact ⟨same.slots, rfl, same.held⟩
      · exact same
    have flushed := started.flushLoop emit emit' 256
    have closed (x : Entry α) : SameWindow
        (if x.closeGap.flow.held ≠ 0 then x.closeGap.setGap x.closeGap.flow.lastSeenNs
          else x.closeGap) x := by
      split <;> exact ⟨rfl, rfl, rfl⟩
    have left := closed ((if 0 < dist then e.advance seq else e).flushLoop emit 256).1
    have right := closed ((if 0 < dist then d.advance seq else d).flushLoop emit' 256).1
    exact ⟨left.slots.trans (flushed.slots.trans right.slots.symm),
      left.next.trans (flushed.next.trans right.next.symm),
      left.held.trans (flushed.held.trans right.held.symm)⟩

theorem SameWindow.expireGap (emit emit' : α → Bool) (holdNs now : BitVec 64)
    (same : e.SameWindow d) (since : e.flow.gapSinceNs = d.flow.gapSinceNs) :
    (e.expireGap emit holdNs now).1.SameWindow (d.expireGap emit' holdNs now).1 := by
  have expired : e.gapExpired holdNs now = d.gapExpired holdNs now := by
    rw [gapExpired, gapExpired, same.held, since]
  unfold Entry.expireGap
  rw [expired]
  split
  · exact same.flowSkipGap emit emit'
  · exact same

theorem SameWindow.stuck_iff (same : e.SameWindow d) : e.Stuck seq ↔ d.Stuck seq := by
  rw [Entry.stuck_iff, Entry.stuck_iff]
  unfold ahead
  rw [same.slots, same.next]

end Entry

/-! ## The table -/

namespace Worker

/-- The table holds the flow of the packet, and once the hold time was looked at it is stuck. -/
def StuckFor (w : Worker α) (holdNs : BitVec 64) (key : Key) (epoch : BitVec 32) (seq : Seq)
    (now : BitVec 64) : Prop :=
  ∃ idx flow, w.scan key = (idx, true) ∧ w.flows idx = some flow ∧ flow.epoch = epoch ∧
    ((w.entry idx flow).expireGap (fun _ => true) holdNs now).1.Stuck seq

variable {w : Worker α} {holdNs now : BitVec 64} {key : Key} {epoch : BitVec 32} {seq : Seq}

/-- A flow without packets is not stuck. -/
theorem not_stuck_of_empty {e : Entry α} {emit : α → Bool} (empty : ∀ i, e.slots i = none) :
    ¬ (e.expireGap emit holdNs now).1.Stuck seq := by
  intro stuck
  refine stuck.out_of_sight fun i slot valid => ?_
  have before := (Entry.moves_expireGap emit holdNs now e).slots valid
  exact absurd ((empty i).symm.trans before) (by simp)

theorem flowReset_slots (counted : w.Counted) (idx : Fin 512) (i : Fin 256) :
    (w.flowReset idx key epoch seq now).1.slots idx i = none := by
  simp only [flowReset, counted.dropValid idx, flowDropSlots, Function.update_self]

/-- The flow of the key is used where its epoch is that of the packet; elsewhere a new one, without
packets. -/
theorem Counted.flowLookup_cases (counted : w.Counted) (key : Key) (epoch : BitVec 32) (seq : Seq)
    (now : BitVec 64) :
    (∃ idx flow, w.scan key = (idx, true) ∧ w.flows idx = some flow ∧ flow.epoch = epoch ∧
      w.flowLookup key epoch seq now = (idx, w.touch idx now, [])) ∨
      (∀ idx flow, w.scan key = (idx, true) → w.flows idx = some flow → flow.epoch ≠ epoch) ∧
        ∀ i, (w.flowLookup key epoch seq now).2.1.slots (w.flowLookup key epoch seq now).1 i =
          none := by
  have fresh (idx : Fin 512) : ∀ i, (w.flowReset idx key epoch seq now).1.slots idx i = none :=
    flowReset_slots counted idx
  cases scanned : w.scan key with
  | mk idx hit =>
    cases hit with
    | false =>
      refine .inr ⟨fun idx' flow scanned' => (nomatch scanned'), ?_⟩
      simpa [flowLookup, scanned] using fresh idx
    | true =>
      obtain ⟨flow, valid, same⟩ := scanWays_hit scanned
      by_cases current : flow.epoch = epoch
      · exact .inl ⟨idx, flow, rfl, valid, current, by simp [flowLookup, scanned, valid, current]⟩
      · refine .inr ⟨fun idx' other scanned' valid' => ?_, ?_⟩
        · cases scanned'
          rwa [← Option.some.inj (valid.symm.trans valid')]
        · simpa [flowLookup, scanned, valid, current, touch] using fresh idx

/-- A call does not return just when it finds a flow stuck. -/
theorem submit_returns_iff (emit : α → Bool) (item : α) (counted : w.Counted) (placed : w.Placed) :
    (w.dpUdpReorderSubmit emit holdNs key epoch seq item now).2.2 = true ↔
      ¬ w.StuckFor holdNs key epoch seq now := by
  have looks := looks_flowLookup w key epoch seq now
  have cases := counted.flowLookup_cases key epoch seq now
  unfold dpUdpReorderSubmit
  generalize w.flowLookup key epoch seq now = looked at looks cases
  obtain ⟨idx, w', events⟩ := looked
  obtain ⟨flow', valid'⟩ := looks.valid
  have counted' := (counted.accounts_looks looks).counted.entry valid'
  have placed' : (w'.entry idx flow').Placed := placed.looks looks idx
  simp only [valid']
  refine (Entry.submit_returns_iff emit holdNs now item counted' placed').trans (not_congr ?_)
  rcases cases with ⟨place, flow, scanned, valid, current, used⟩ | ⟨absent, empty⟩
  · cases used
    rw [touch_flows valid, Function.update_self, Option.some.injEq] at valid'
    have alike : ((w.touch idx now).entry idx flow').SameWindow (w.entry idx flow) := by
      rw [← valid']
      exact ⟨rfl, rfl, rfl⟩
    have kept := alike.expireGap emit (fun _ => true) holdNs now (by rw [← valid']; rfl)
    refine kept.stuck_iff.trans ⟨fun stuck => ⟨idx, flow, scanned, valid, current, stuck⟩, ?_⟩
    rintro ⟨idx', other, scanned', valid'', -, stuck⟩
    obtain rfl : idx = idx' := congrArg Prod.fst (scanned.symm.trans scanned')
    rwa [Option.some.inj (valid.symm.trans valid'')]
  · refine ⟨fun stuck => absurd stuck (not_stuck_of_empty empty), ?_⟩
    rintro ⟨idx', other, scanned, valid, current, -⟩
    exact absurd current (absent idx' other scanned valid)

end Worker

end NeEncryptor.Reorder
