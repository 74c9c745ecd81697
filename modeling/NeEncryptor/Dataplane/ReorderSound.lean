import NeEncryptor.Dataplane.ReorderRuns

/-!
# Sound windows

Every packet that a flow holds lies in the window ahead of `next_seq`, so that skips release it.  The
one path that can break this is the skip that a full table forces on a flow: the packet that
waits for its slot may then lie behind `next_seq`.
-/

namespace NeEncryptor.Reorder

open SerialNumber

variable {α : Type*}

namespace Entry

/-- The window of a flow is sound. -/
structure Sound (e : Entry α) : Prop where
  placed : e.Placed
  within : ∀ i slot, e.slots i = some slot →
    0 < delta slot.seq e.flow.nextSeq ∧ delta slot.seq e.flow.nextSeq < 256
  started : e.flow.held ≠ 0 → e.flow.gapSinceNs ≠ 0
  seen : e.flow.lastSeenNs ≠ 0

variable {e e' : Entry α} {emit : α → Bool} {others k : ℕ}

theorem within_iff {s : Seq} :
    (0 < delta s e.flow.nextSeq ∧ delta s e.flow.nextSeq < 256) ↔
      0 < e.ahead s ∧ e.ahead s < 256 := by
  unfold ahead
  constructor
  · rintro ⟨positive, short⟩
    have near := delta_nonneg_iff.mp (le_of_lt positive)
    rw [delta_eq_toNat near] at positive short
    omega
  · rintro ⟨positive, short⟩
    rw [delta_eq_toNat (by omega)]
    omega

theorem Sound.ahead (sound : e.Sound) {i : Fin 256} {slot : Slot α}
    (valid : e.slots i = some slot) : 0 < e.ahead slot.seq ∧ e.ahead slot.seq < 256 :=
  within_iff.mp (sound.within i slot valid)

theorem Sound.inSight (sound : e.Sound) : e.InSight := by
  intro i slot valid
  obtain ⟨positive, short⟩ := sound.within i slot valid
  exact ⟨valid, by omega, by omega⟩

/-- A flow that holds packets has one that a skip finds. -/
theorem Counted.exists_slot (counted : e.Counted others) (some_held : e.flow.held ≠ 0) :
    ∃ i slot, e.slots i = some slot := by
  by_contra none
  refine some_held (counted.held.trans (Multiset.card_eq_zero.mpr ?_))
  refine Finset.sum_eq_zero fun i _ => ?_
  cases valid : e.slots i with
  | none => rfl
  | some slot => exact absurd ⟨i, slot, valid⟩ none

/-- What a flush leaves of a window that starts at `next_seq` is sound. -/
theorem Flushed.within (flushed : e.Flushed k e') (few : k ≤ 256)
    (near : ∀ i slot, e.slots i = some slot → e.ahead slot.seq < 256)
    (stopped : ∀ i slot, e'.slots i = some slot → slot.seq ≠ e'.flow.nextSeq) (i : Fin 256)
    (slot : Slot α) (valid : e'.slots i = some slot) :
    0 < delta slot.seq e'.flow.nextSeq ∧ delta slot.seq e'.flow.nextSeq < 256 := by
  obtain ⟨before, far⟩ := flushed.left i slot valid
  have short := near i slot before
  have shift := flushed.ahead_eq few far
  refine within_iff.mpr ⟨Nat.pos_of_ne_zero fun zero => ?_, by omega⟩
  refine stopped i slot valid ?_
  unfold Entry.ahead at zero
  bv_omega

theorem Sound.flowSkipGap (sound : e.Sound) (counted : e.Counted others) (emit : α → Bool) :
    (e.flowSkipGap emit).1.Sound := by
  rcases flowSkipGap_cases emit sound.placed with ⟨unseen, result⟩ | ⟨first, k, m, skipped⟩
  · have empty : e.flow.held = 0 := by
      by_contra some_held
      obtain ⟨i, slot, valid⟩ := counted.exists_slot some_held
      exact unseen i slot (sound.inSight i slot valid)
    rw [result]
    exact ⟨sound.placed, sound.within, fun some_held => absurd empty some_held, sound.seen⟩
  · have placed := skipped.placed sound.placed
    have near : ∀ i slot, (e.advance first.seq).slots i = some slot →
        (e.advance first.seq).ahead slot.seq < 256 := by
      intro i slot valid
      have seen := sound.inSight i slot valid
      have short := (sound.ahead valid).2
      rw [ahead_advance (skipped.least i slot seen)]
      omega
    have within := skipped.flushed.within skipped.few_released near skipped.stopped
    have result := skipped.result
    generalize (e.flowSkipGap emit).1 = e' at result placed
    subst result
    refine ⟨placed, within, fun some_held => ?_, ?_⟩
    · show (if m.flow.held ≠ 0 then e.flow.lastSeenNs else 0) ≠ 0
      rw [if_pos (show m.flow.held ≠ 0 from some_held)]
      exact sound.seen
    · show m.flow.lastSeenNs ≠ 0
      rw [skipped.flushed.seen]
      exact sound.seen

/-- A skip of a sound flow releases a packet. -/
theorem Sound.held_flowSkipGap (sound : e.Sound) (counted : e.Counted others) (emit : α → Bool)
    (some_held : e.flow.held ≠ 0) : (e.flowSkipGap emit).1.flow.held < e.flow.held := by
  rcases flowSkipGap_cases emit sound.placed with ⟨unseen, _⟩ | ⟨first, k, m, skipped⟩
  · obtain ⟨i, slot, valid⟩ := counted.exists_slot some_held
    exact absurd (sound.inSight i slot valid) (unseen i slot)
  · exact skipped.held_lt counted

/-- As many skips as packets are held release all of them. -/
theorem Sound.skips_release_all (sound : e.Sound) (counted : e.Counted others) (emit : α → Bool)
    (n : ℕ) (enough : e.flow.held ≤ n) (i : Fin 256) :
    ((fun e => (e.flowSkipGap emit).1)^[n] e).slots i = none := by
  induction n generalizing e with
  | zero => exact counted.empty (Nat.le_zero.mp enough) i
  | succ n ih =>
    have kept := (counted.moves (moves_flowSkipGap emit e)).1
    refine ih (sound.flowSkipGap counted emit) kept ?_
    show (e.flowSkipGap emit).1.flow.held ≤ n
    by_cases some_held : e.flow.held = 0
    · have fewer := (counted.moves_le (moves_flowSkipGap emit e)).1
      omega
    · have fewer := sound.held_flowSkipGap counted emit some_held
      omega

theorem Sound.expireGap (sound : e.Sound) (counted : e.Counted others) (emit : α → Bool)
    (holdNs now : BitVec 64) : (e.expireGap emit holdNs now).1.Sound := by
  unfold Entry.expireGap
  split
  · exact sound.flowSkipGap counted emit
  · exact sound

theorem Sound.roomLoop (sound : e.Sound) (counted : e.Counted others) (emit : α → Bool) (seq : Seq)
    (fuel : ℕ) : (e.roomLoop emit seq fuel).1.Sound := by
  induction fuel generalizing e with
  | zero => exact sound
  | succ fuel ih =>
    unfold Entry.roomLoop
    split
    · exact ih (sound.flowSkipGap counted emit) (counted.moves (moves_flowSkipGap emit e)).1
    · exact sound

/-- The packet at `next_seq` passes, and what follows it is flushed. -/
theorem Sound.emitInOrder (sound : e.Sound) (emit : α → Bool) (seq : Seq) (item : α) :
    (e.emitInOrder emit seq item).1.Sound := by
  have placed : (e.advance (e.flow.nextSeq + 1)).Placed := sound.placed
  have near : ∀ i slot, (e.advance (e.flow.nextSeq + 1)).slots i = some slot →
      (e.advance (e.flow.nextSeq + 1)).ahead slot.seq < 256 := by
    intro i slot valid
    have short := sound.ahead valid
    have shift : (slot.seq - (e.flow.nextSeq + 1)).toNat = (slot.seq - e.flow.nextSeq).toNat - 1 := by
      refine toNat_sub_succ fun same => ?_
      simp [Entry.ahead, same] at short
    show (slot.seq - (e.flow.nextSeq + 1)).toNat < 256
    unfold Entry.ahead at short
    omega
  obtain ⟨k, few, m, flushed, closed, stopped⟩ := flushed_flowFlushContiguous emit placed
  have within := flushed.within few near stopped
  have sub : m.flow.held ≤ e.flow.held := by
    rw [flushed.held]
    exact Nat.sub_le _ _
  simp only [Entry.emitInOrder, closed]
  refine ⟨fun i slot valid => sound.placed i slot (flushed.left i slot valid).1, within, ?_, ?_⟩
  · intro some_held
    show (if m.flow.held ≠ 0 then m.flow.gapSinceNs else 0) ≠ 0
    have some_held : m.flow.held ≠ 0 := some_held
    rw [if_pos some_held, flushed.since]
    exact sound.started (by omega)
  · show m.flow.lastSeenNs ≠ 0
    rw [flushed.seen]
    exact sound.seen

/-- The window jumps only while the flow holds nothing. -/
theorem Sound.jumpToWindow (sound : e.Sound) (counted : e.Counted others) {seq : Seq}
    (roomy : e.crowded seq = false) : (e.jumpToWindow seq).1.Sound := by
  unfold Entry.jumpToWindow
  split
  · rename_i beyond
    have empty : e.flow.held = 0 := by simpa [crowded, beyond] using roomy
    refine ⟨sound.placed, fun i slot valid => ?_, fun some_held => absurd empty some_held, sound.seen⟩
    have none := counted.empty empty i
    exact absurd (none.symm.trans valid) (by simp)
  · exact sound

/-- A packet inside the window is held soundly. -/
theorem Sound.hold (sound : e.Sound) {now : BitVec 64} {seq : Seq} (item : α) (later : now ≠ 0)
    (positive : 0 < delta seq e.flow.nextSeq) (short : delta seq e.flow.nextSeq < 256) :
    (e.hold now seq item).1.Sound := by
  have placed := sound.placed.store seq item
  have since : (if e.flow.gapSinceNs = 0 then now else e.flow.gapSinceNs) ≠ 0 := by
    split
    · exact later
    · assumption
  have within : ∀ i slot, Function.update e.slots (place seq) (some ⟨item, seq⟩) i = some slot →
      0 < delta slot.seq e.flow.nextSeq ∧ delta slot.seq e.flow.nextSeq < 256 := by
    intro i slot valid
    by_cases same : i = place seq
    · subst same
      rw [Function.update_self, Option.some.injEq] at valid
      rw [← valid]
      exact ⟨positive, short⟩
    · rw [Function.update_of_ne same] at valid
      exact sound.within i slot valid
  unfold Entry.hold
  split
  · split
    · exact sound
    · exact ⟨placed, within, fun _ => since, sound.seen⟩
  · exact ⟨placed, within, fun _ => since, sound.seen⟩

/-- Held packets, and after them a missing number, come before the packet. -/
def OpenRun (seq : Seq) (e : Entry α) : Prop :=
  ∃ i slot missing, e.slots i = some slot ∧
    (∀ j other, e.slots j = some other → other.seq ≠ missing) ∧
    e.ahead slot.seq < e.ahead missing ∧ e.ahead missing < e.ahead seq

/-- Where a run of held packets ends before the packet, a skip does not reach the packet. -/
theorem Sound.openRun (sound : e.Sound) (emit : α → Bool) {seq : Seq} (open_ : e.OpenRun seq)
    (short : delta seq e.flow.nextSeq < 256) (positive : 0 < delta seq e.flow.nextSeq) :
    0 < delta seq (e.flowSkipGap emit).1.flow.nextSeq ∧
      delta seq (e.flowSkipGap emit).1.flow.nextSeq < 256 := by
  obtain ⟨i, slot, missing, valid, free, before, later⟩ := open_
  have near := within_iff.mp ⟨positive, short⟩
  rcases flowSkipGap_cases emit sound.placed with ⟨unseen, _⟩ | ⟨first, k, m, skipped⟩
  · exact absurd (sound.inSight i slot valid) (unseen i slot)
  · have least := skipped.least i slot (sound.inSight i slot valid)
    have reached : e.ahead first.seq ≤ e.ahead missing := by omega
    have stops : k ≤ (e.advance first.seq).ahead missing := by
      by_contra passed
      obtain ⟨j, other, due, number⟩ := skipped.flushed.due _ (Nat.lt_of_not_le passed)
      refine free j other due (number.trans ?_)
      unfold Entry.ahead
      rw [BitVec.ofNat_toNat, BitVec.setWidth_eq]
      show first.seq + (missing - first.seq) = missing
      bv_omega
    rw [ahead_advance reached] at stops
    have shift := skipped.ahead_eq (s := seq) (by omega)
    exact within_iff.mpr ⟨by omega, by omega⟩

/-- Table and window of a flow are in order. -/
structure Orderly (others : ℕ) (e : Entry α) : Prop where
  counted : e.Counted others
  sound : e.Sound
  capped : e.total ≤ heldCap

theorem Orderly.moves {events : List (Event α)} (orderly : e.Orderly others)
    (moves : Moves emit e events e') (sound : e'.Sound) : e'.Orderly others where
  counted := (orderly.counted.moves moves).1
  sound := sound
  capped := by
    have fewer := orderly.counted.moves_le moves
    have capped := orderly.capped
    omega

/-- The packet finds the table full and its flow without an open run, so that the skip that is
forced on the flow passes the packet. -/
structure Overruns (seq : Seq) (e : Entry α) : Prop where
  full : heldCap ≤ e.total
  some_held : e.flow.held ≠ 0
  positive : 0 < delta seq e.flow.nextSeq
  short : delta seq e.flow.nextSeq < 256
  run : ¬ e.OpenRun seq

theorem Orderly.hold (orderly : e.Orderly others) {now : BitVec 64} {seq : Seq} (item : α)
    (later : now ≠ 0) (free : e.total < heldCap) (positive : 0 < delta seq e.flow.nextSeq)
    (short : delta seq e.flow.nextSeq < 256) : (e.hold now seq item).1.Orderly others where
  counted := (orderly.counted.hold now seq item).1
  sound := orderly.sound.hold item later positive short
  capped := by
    unfold Entry.hold
    split
    · split <;> exact orderly.capped
    · exact free

theorem Orderly.holdCapped (orderly : e.Orderly others) (emit : α → Bool) {now : BitVec 64}
    {seq : Seq} (item : α) (later : now ≠ 0) (positive : 0 < delta seq e.flow.nextSeq)
    (short : delta seq e.flow.nextSeq < 256) (fits : ¬ e.Overruns seq) :
    (e.holdCapped emit now seq item).1.Orderly others := by
  have skipped := orderly.moves (moves_flowSkipGap emit e)
    (orderly.sound.flowSkipGap orderly.counted emit)
  simp only [Entry.holdCapped]
  split
  · rename_i full
    split
    · exact skipped
    · rename_i free
      have some_held : e.flow.held ≠ 0 := by
        intro none
        have fewer := orderly.counted.moves_le (moves_flowSkipGap emit e)
        omega
      have open_ : e.OpenRun seq := by
        by_contra run
        exact fits ⟨full, some_held, positive, short, run⟩
      obtain ⟨positive, short⟩ := orderly.sound.openRun emit open_ short positive
      exact skipped.hold item later (Nat.lt_of_not_le free) positive short
  · rename_i free
    exact orderly.hold item later (Nat.lt_of_not_le free) positive short

theorem Orderly.emitInOrder (orderly : e.Orderly others) (emit : α → Bool) (seq : Seq) (item : α) :
    (e.emitInOrder emit seq item).1.Orderly others := by
  have advanced : (e.advance (e.flow.nextSeq + 1)).Counted others := orderly.counted.idle rfl rfl rfl
  have flushed := moves_flowFlushContiguous emit (e.advance (e.flow.nextSeq + 1))
  have fewer := advanced.moves_le flushed
  have capped := orderly.capped
  refine ⟨(advanced.moves flushed).1, orderly.sound.emitInOrder emit seq item, ?_⟩
  change _ ≤ e.flow.held ∧ _ + e.flow.held = e.total + _ at fewer
  show ((e.advance (e.flow.nextSeq + 1)).flowFlushContiguous emit).1.total ≤ heldCap
  omega

/-- The loop that makes room releases a packet, or it leaves the flow as it is. -/
theorem Orderly.roomLoop (orderly : e.Orderly others) (emit : α → Bool) (seq : Seq) (fuel : ℕ) :
    (e.roomLoop emit seq fuel).1.Orderly others ∧
      ((e.roomLoop emit seq fuel).1 = e ∨ (e.roomLoop emit seq fuel).1.total < e.total) := by
  have loop := orderly.moves (moves_roomLoop emit seq fuel e)
    (orderly.sound.roomLoop orderly.counted emit seq fuel)
  refine ⟨loop, ?_⟩
  cases fuel with
  | zero => exact .inl rfl
  | succ fuel =>
    unfold Entry.roomLoop
    split
    · rename_i full
      have some_held : e.flow.held ≠ 0 := by simpa using (Bool.and_eq_true_iff.mp full).1
      have skip := moves_flowSkipGap emit e
      have fewer := orderly.counted.moves_le skip
      have released := orderly.sound.held_flowSkipGap orderly.counted emit some_held
      have rest := (orderly.counted.moves skip).1.moves_le (moves_roomLoop emit seq fuel _)
      refine .inr ?_
      show ((e.flowSkipGap emit).1.roomLoop emit seq fuel).1.total < e.total
      omega
    · exact .inl rfl

theorem Orderly.submitInWindow (orderly : e.Orderly others) (emit : α → Bool) {now : BitVec 64}
    {seq : Seq} (item : α) (later : now ≠ 0) (short : delta seq e.flow.nextSeq < 256)
    (fits : ¬ e.Overruns seq) : (e.submitInWindow emit now seq item).1.Orderly others := by
  unfold Entry.submitInWindow
  split
  · exact orderly
  · split
    · exact orderly.emitInOrder emit seq item
    · exact orderly.holdCapped emit item later (by omega) short fits

/-- After the room was made, the packet fits into the window. -/
theorem short_jumpToWindow (e : Entry α) (seq : Seq) :
    delta seq (e.jumpToWindow seq).1.flow.nextSeq < 256 := by
  unfold jumpToWindow
  split
  · show delta seq (seq - 255) < 256
    have distance : (seq - (seq - 255)).toNat = 255 := by bv_omega
    rw [delta_eq_toNat (by omega), distance]
    omega
  · rename_i inside
    simpa [beyondWindow] using inside

theorem Sound.not_wedged (sound : e.Sound) (seq : Seq) : ¬ e.Wedged seq :=
  fun wedged => wedged.out_of_sight sound.inSight

theorem Orderly.submitChecked (orderly : e.Orderly others) (emit : α → Bool) {now : BitVec 64}
    {seq : Seq} (item : α) (later : now ≠ 0) (fits : ¬ e.Overruns seq) :
    (e.submitChecked emit now seq item).1.Orderly others := by
  unfold Entry.submitChecked
  split
  · exact orderly
  · split
    · exact orderly.emitInOrder emit seq item
    · obtain ⟨loop, progress⟩ := orderly.roomLoop emit seq e.flow.held
      have roomy := not_crowded_roomLoop emit e.flow.held orderly.counted orderly.sound.placed le_rfl
        (orderly.sound.not_wedged seq)
      simp only [flowMakeWindowRoom, roomy, Bool.false_eq_true, ↓reduceIte]
      generalize (e.roomLoop emit seq e.flow.held).1 = m at loop progress roomy
      have jumped := loop.moves (moves_jumpToWindow emit roomy)
        (loop.sound.jumpToWindow loop.counted roomy)
      refine jumped.submitInWindow emit item later (short_jumpToWindow m seq) fun overruns => ?_
      have total : (m.jumpToWindow seq).1.total = m.total ∧
          (m.jumpToWindow seq).1.flow.held = m.flow.held := by
        unfold Entry.jumpToWindow
        split <;> exact ⟨rfl, rfl⟩
      have full := overruns.full
      have capped := orderly.capped
      rcases progress with rfl | released
      · have inside : m.beyondWindow seq = false := by
          have some_held := overruns.some_held
          rw [total.2] at some_held
          simpa [crowded, some_held] using roomy
        rw [Entry.jumpToWindow, if_neg (by simp [inside])] at overruns
        exact fits overruns
      · omega

theorem Orderly.expireGap (orderly : e.Orderly others) (emit : α → Bool) (holdNs now : BitVec 64) :
    (e.expireGap emit holdNs now).1.Orderly others :=
  orderly.moves (moves_expireGap emit holdNs now e)
    (orderly.sound.expireGap orderly.counted emit holdNs now)

/-- A submit keeps the window sound unless the packet overruns it. -/
theorem Orderly.submit (orderly : e.Orderly others) (emit : α → Bool) (holdNs : BitVec 64)
    {now : BitVec 64} {seq : Seq} (item : α) (later : now ≠ 0)
    (fits : e.gapExpired holdNs now = false → ¬ e.Overruns seq) :
    (e.submit emit holdNs now seq item).1.Orderly others := by
  have expired := orderly.expireGap emit holdNs now
  simp only [Entry.submit]
  refine expired.submitChecked emit item later fun overruns => ?_
  cases inTime : e.gapExpired holdNs now with
  | false =>
    rw [Entry.expireGap, inTime] at overruns
    exact fits inTime overruns
  | true =>
    have some_held : e.flow.held ≠ 0 := by
      have held := (Bool.and_eq_true_iff.mp (Bool.and_eq_true_iff.mp inTime).1).1
      simpa using held
    have skips : (e.expireGap emit holdNs now).1 = (e.flowSkipGap emit).1 := by
      rw [Entry.expireGap, inTime, if_pos rfl]
    have released := orderly.sound.held_flowSkipGap orderly.counted emit some_held
    have fewer := orderly.counted.moves_le (moves_flowSkipGap emit e)
    have full := overruns.full
    have capped := orderly.capped
    rw [skips] at full
    omega

end Entry

namespace Worker

/-- The table is in order, and every window is sound. -/
structure Orderly (w : Worker α) : Prop where
  counted : w.Counted
  sound : ∀ idx flow, w.flows idx = some flow → (w.entry idx flow).Sound
  capped : w.held ≤ heldCap

variable {w w' : Worker α} {idx : Fin 512} {flow : Flow} {events : List (Event α)}

theorem Orderly.entry (orderly : w.Orderly) (valid : w.flows idx = some flow) :
    (w.entry idx flow).Orderly (w.others idx) :=
  ⟨orderly.counted.entry valid, orderly.sound idx flow valid, orderly.capped⟩

/-- Soundness of a window does not depend on the other flows. -/
theorem sound_congr {e e' : Entry α} (sound : e.Sound) (flow : e'.flow = e.flow)
    (slots : e'.slots = e.slots) : e'.Sound := by
  obtain ⟨f, s, t⟩ := e
  obtain ⟨f', s', t'⟩ := e'
  cases flow
  cases slots
  exact ⟨sound.placed, sound.within, sound.started, sound.seen⟩

theorem Orderly.writes {stored : Option Flow} {slots : Fin 256 → Option (Slot α)}
    (orderly : w.Orderly) (writes : w.Writes idx stored slots w') (counted : w'.Counted)
    (sound : ∀ flow, stored = some flow → Entry.Sound ⟨flow, slots, 0⟩) (capped : w'.held ≤ heldCap) :
    w'.Orderly where
  counted := counted
  capped := capped
  sound := fun j flow valid => by
    by_cases same : j = idx
    · subst same
      rw [writes.flows, Function.update_self] at valid
      refine sound_congr (sound flow valid) rfl ?_
      show w'.slots j = slots
      rw [writes.slots, Function.update_self]
    · rw [writes.flows, Function.update_of_ne same] at valid
      refine sound_congr (orderly.sound j flow valid) rfl ?_
      show w'.slots j = w.slots j
      rw [writes.slots, Function.update_of_ne same]

theorem Orderly.put {e : Entry α} (orderly : w.Orderly) (written : e.Orderly (w.others idx)) :
    (w.put idx e).Orderly := by
  refine orderly.writes (writes_put w idx e) (orderly.counted.put written.counted) ?_ written.capped
  rintro flow ⟨⟩
  exact sound_congr written.sound rfl rfl

theorem Orderly.touch (orderly : w.Orderly) (valid : w.flows idx = some flow) {now : BitVec 64}
    (later : now ≠ 0) : (w.touch idx now).Orderly := by
  have sound := orderly.sound idx flow valid
  have writes : w.Writes idx (some { flow with lastSeenNs := now, stamp := w.stamp + 1 })
      (w.slots idx) (w.touch idx now) :=
    ⟨touch_flows valid now, by rw [Function.update_eq_self]; rfl⟩
  refine orderly.writes writes (orderly.counted.accounts_touch valid now).counted ?_ orderly.capped
  rintro other ⟨⟩
  exact ⟨sound.placed, sound.within, sound.started, later⟩

theorem Orderly.flowReset (orderly : w.Orderly) (idx : Fin 512) (key : Key) (epoch : BitVec 32)
    (seq : Seq) {now : BitVec 64} (later : now ≠ 0) :
    (w.flowReset idx key epoch seq now).1.Orderly := by
  have counted := (orderly.counted.accounts_flowReset idx key epoch seq now).counted
  have writes : w.Writes idx (some (freshFlow key epoch seq now (w.stamp + 1))) (fun _ => none)
      (w.flowReset idx key epoch seq now).1 := by
    refine ⟨flowReset_flows w idx key epoch seq now, ?_⟩
    simp only [Worker.flowReset, orderly.counted.dropValid idx, flowDropSlots]
  have capped : (w.flowReset idx key epoch seq now).1.held ≤ heldCap := by
    simp only [Worker.flowReset, orderly.counted.dropValid idx, flowDropSlots]
    exact le_trans (Nat.sub_le _ _) orderly.capped
  refine orderly.writes writes counted ?_ capped
  rintro flow ⟨⟩
  exact ⟨fun _ _ none => absurd none.symm (Option.some_ne_none _),
    fun _ _ none => absurd none.symm (Option.some_ne_none _),
    fun some_held => absurd rfl some_held, later⟩

theorem Orderly.looks {key : Key} {epoch : BitVec 32} {seq : Seq} {now : BitVec 64}
    (orderly : w.Orderly) (later : now ≠ 0)
    (looks : w.Looks key epoch seq now (idx, w', events)) : w'.Orderly := by
  cases looks with
  | found _ valid => exact orderly.touch valid later
  | outdated =>
    exact (orderly.flowReset idx key epoch seq later).touch
      (flowReset_valid w idx key epoch seq now) later
  | missed => exact orderly.flowReset idx key epoch seq later

/-- A flow without packets, and freed flows. -/
theorem Orderly.free (orderly : w.Orderly) (valid : w.flows idx = some flow) (held : flow.held = 0) :
    Orderly { w with flows := Function.update w.flows idx none } := by
  have writes : w.Writes idx none (w.slots idx) { w with flows := Function.update w.flows idx none } :=
    ⟨rfl, by rw [Function.update_eq_self]⟩
  exact orderly.writes writes (orderly.counted.accounts_free valid held).counted
    (fun _ none => nomatch none) orderly.capped

theorem Orderly.gcFlow (orderly : w.Orderly) (emit : α → Bool) (holdNs now : BitVec 64)
    (idx : Fin 512) : (w.gcFlow emit holdNs now idx).1.Orderly := by
  unfold Worker.gcFlow
  split
  · exact orderly
  · rename_i flow valid
    have expired := (orderly.entry valid).expireGap emit holdNs now
    generalize (w.entry idx flow).expireGap emit holdNs now = result at expired
    have written := orderly.put expired
    simp only
    split
    · rename_i idle
      have stored : (w.put idx result.1).flows idx = some result.1.flow := Function.update_self ..
      exact written.free stored idle.1
    · exact written

theorem Orderly.gc (orderly : w.Orderly) (emit : α → Bool) (holdNs now : BitVec 64) :
    (w.dpUdpReorderGc emit holdNs now).1.Orderly := by
  have loop := forFlows_keeps (I := Orderly) (f := Worker.gcFlow emit holdNs now)
    (fun idx _ orderly => orderly.gcFlow emit holdNs now idx) w.gcSlice orderly
  have counted := (orderly.counted.accounts_gc emit holdNs now).counted
  exact ⟨counted, fun idx flow valid => loop.sound idx flow valid, loop.capped⟩

theorem Counted.orderly_resetWorker (counted : w.Counted) : w.dpUdpReorderResetWorker.1.Orderly := by
  have kept := counted.accounts_resetWorker.counted
  have freed (idx : Fin 512) : (forFlows resetFlow (List.finRange 512) w).1.flows idx = none := by
    rw [forFlows_resetFlow_flows, if_pos (List.mem_finRange idx)]
  simp only [dpUdpReorderResetWorker] at kept ⊢
  generalize forFlows resetFlow (List.finRange 512) w = result at kept freed ⊢
  exact ⟨kept, fun idx flow valid => absurd ((freed idx).symm.trans valid) (by simp), Nat.zero_le _⟩

theorem Orderly.submit (orderly : w.Orderly) (emit : α → Bool) (holdNs : BitVec 64)
    (key : Key) (epoch : BitVec 32) (seq : Seq) (item : α) {now : BitVec 64} (later : now ≠ 0)
    (fits : ∀ idx flow, w.scan key = (idx, true) → w.flows idx = some flow → flow.epoch = epoch →
      (w.entry idx flow).gapExpired holdNs now = false → ¬ (w.entry idx flow).Overruns seq) :
    (w.dpUdpReorderSubmit emit holdNs key epoch seq item now).1.Orderly := by
  have looks := looks_flowLookup w key epoch seq now
  unfold dpUdpReorderSubmit
  generalize w.flowLookup key epoch seq now = looked at looks
  obtain ⟨idx, w₁, events⟩ := looked
  have looked := orderly.looks later looks
  obtain ⟨flow, valid⟩ := looks.valid
  have fits₁ : (w₁.entry idx flow).gapExpired holdNs now = false →
      ¬ (w₁.entry idx flow).Overruns seq := by
    intro inTime overruns
    cases looks with
    | @found _ before scanned stored same current =>
      rw [touch_flows stored, Function.update_self, Option.some.injEq] at valid
      subst valid
      exact fits idx before scanned stored current inTime
        ⟨overruns.full, overruns.some_held, overruns.positive, overruns.short, overruns.run⟩
    | outdated =>
      rw [touch_flows (flowReset_valid w idx key epoch seq now), Function.update_self,
        Option.some.injEq] at valid
      subst valid
      exact overruns.some_held rfl
    | missed =>
      rw [flowReset_valid, Option.some.injEq] at valid
      subst valid
      exact overruns.some_held rfl
  have submitted := (looked.entry valid).submit emit holdNs item later fits₁
  simp only [valid]
  generalize (w₁.entry idx flow).submit emit holdNs now seq item = result at submitted
  exact looked.put submitted

/-- What the table of a worker means. -/
structure Represented (w : Worker α) : Prop where
  /-- A packet is in its place of the window ahead of `next_seq`. -/
  window : ∀ idx flow i slot, w.flows idx = some flow → w.slots idx i = some slot →
    place slot.seq = i ∧ 0 < delta slot.seq flow.nextSeq ∧ delta slot.seq flow.nextSeq < 256
  /-- `held` counts the valid slots. -/
  held : ∀ idx flow, w.flows idx = some flow →
    flow.held = (Finset.univ.filter fun i => (w.slots idx i).isSome = true).card
  /-- A gap has its time. -/
  gap : ∀ idx flow, w.flows idx = some flow → 0 < flow.held → flow.gapSinceNs ≠ 0
  /-- The worker's counter is the sum of the flows' counters. -/
  total : w.held = ∑ idx, ((w.flows idx).map Flow.held).getD 0
  capped : w.held ≤ heldCap
  /-- As many skips as packets are held release all packets. -/
  released : ∀ idx flow emit i, w.flows idx = some flow →
    ((fun e => (Entry.flowSkipGap emit e).1)^[flow.held] (w.entry idx flow)).slots i = none

theorem Counted.total_flows (counted : w.Counted) :
    w.held = ∑ idx, ((w.flows idx).map Flow.held).getD 0 := by
  rw [counted.total, heldItems, Multiset.card_sum]
  refine Finset.sum_congr rfl fun idx _ => ?_
  cases valid : w.flows idx with
  | none => rw [counted.windowItems_free valid]; rfl
  | some flow => exact (counted.flow idx flow valid).symm

theorem Orderly.represented (orderly : w.Orderly) : w.Represented where
  window := fun idx flow i slot valid stored =>
    have sound := orderly.sound idx flow valid
    ⟨sound.placed i slot stored, sound.within i slot stored⟩
  held := fun idx flow valid => by rw [orderly.counted.flow idx flow valid, card_windowItems]
  gap := fun idx flow valid some_held =>
    (orderly.sound idx flow valid).started (Nat.ne_of_gt some_held)
  total := orderly.counted.total_flows
  capped := orderly.capped
  released := fun idx flow emit i valid =>
    (orderly.sound idx flow valid).skips_release_all (orderly.counted.entry valid) emit flow.held
      le_rfl i

end Worker

/-- The time of a submit is positive. -/
def Call.Timed : Call α → Prop
  | .submit _ _ _ _ now _ => now ≠ 0
  | _ => True

namespace Run

variable {settings : Settings} {s : Run α} {c : Call α}

/-- A submit whose packet overruns the flow that it finds, before the hold time is over. -/
def Overruns (settings : Settings) (s : Run α) : Call α → Prop
  | .submit key epoch seq _ now _ =>
    settings.enabled = true ∧ ∃ idx flow, s.worker.scan key = (idx, true) ∧
      s.worker.flows idx = some flow ∧ flow.epoch = epoch ∧
      (s.worker.entry idx flow).gapExpired settings.holdNs now = false ∧
      (s.worker.entry idx flow).Overruns seq
  | _ => False

theorem orderly_call (orderly : s.worker.Orderly) (timed : c.Timed)
    (fits : ¬ s.Overruns settings c) : (s.call settings c).worker.Orderly := by
  cases c with
  | submit key epoch seq item now emit =>
    cases enabled : settings.enabled with
    | true =>
      rw [call_submit enabled]
      exact orderly.submit emit settings.holdNs key epoch seq item timed
        fun idx flow scanned valid current inTime overruns =>
          fits ⟨enabled, idx, flow, scanned, valid, current, inTime, overruns⟩
    | false =>
      rw [call_passThrough enabled]
      exact orderly
  | gc now emit => exact orderly.gc emit settings.holdNs now
  | resetWorker =>
    have reset := orderly.counted.orderly_resetWorker
    rw [call_resetWorker]
    generalize s.worker.dpUdpReorderResetWorker = result at reset ⊢
    exact reset

theorem orderly_initial : (initial : Run α).worker.Orderly :=
  ⟨Worker.counted_initial, fun _ _ none => (nomatch none), Nat.zero_le _⟩

/-- While no packet overruns its flow, the table means what it should: every held packet lies in the
window ahead of `next_seq`, the counters count, and skips release all that is held. -/
theorem windows_represented (settings : Settings) (s : Run α)
    (reached : Transition.ReachableWith (step settings)
      (fun s c => c.Timed ∧ ¬ s.Overruns settings c) initial s) : s.worker.Represented := by
  refine Worker.Orderly.represented (reached.invariant (I := fun s => s.worker.Orderly)
    orderly_initial fun s c t orderly admitted enabled => ?_)
  rw [(step_eq_some enabled).2]
  exact orderly_call orderly admitted.1 admitted.2

theorem windows_represented_sample :
    (sampleHeld.worker.held = 1 ∧ sampleFlush.worker.held = 0) ∧
      sampleFlush.worker.Represented := by
  refine ⟨by decide +kernel, windows_represented sampleSettings _
    (reached_sampleFlush ⟨?_, ?_⟩ ⟨trivial, id⟩)⟩
  · show (5 : BitVec 64) ≠ 0
    decide
  · rintro ⟨_, idx, flow, _, valid, _⟩
    exact nomatch valid

end Run

end NeEncryptor.Reorder
