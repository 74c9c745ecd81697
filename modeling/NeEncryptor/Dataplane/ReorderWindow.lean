import NeEncryptor.Dataplane.ReorderItems

/-!
# The window of a reorder flow

What a flush and a skip do to the window, exactly: a flush releases the packets of a run of
consecutive numbers, a skip does so from the least packet ahead.  While every packet lies in the
window ahead of `next_seq`, each skip releases one at least.
-/

namespace NeEncryptor.Reorder

open SerialNumber

variable {α : Type*}

namespace Entry

/-- How far a number lies ahead of `next_seq`. -/
def ahead (e : Entry α) (s : Seq) : ℕ := (s - e.flow.nextSeq).toNat

/-- Every packet is at the place of its number. -/
def Placed (e : Entry α) : Prop := ∀ i slot, e.slots i = some slot → place slot.seq = i

/-- A flush that releases the `k` numbers from `next_seq` on. -/
structure Flushed (e : Entry α) (k : ℕ) (e' : Entry α) : Prop where
  next : e'.flow.nextSeq = e.flow.nextSeq + BitVec.ofNat 32 k
  due : ∀ j < k, ∃ i slot, e.slots i = some slot ∧ slot.seq = e.flow.nextSeq + BitVec.ofNat 32 j
  kept : ∀ i slot, e.slots i = some slot → k ≤ e.ahead slot.seq → e'.slots i = some slot
  left : ∀ i slot, e'.slots i = some slot → e.slots i = some slot ∧ k ≤ e.ahead slot.seq
  held : e'.flow.held = e.flow.held - k
  seen : e'.flow.lastSeenNs = e.flow.lastSeenNs
  since : e'.flow.gapSinceNs = e.flow.gapSinceNs

variable {e e' : Entry α} {emit : α → Bool} {k : ℕ}

theorem Flushed.refl (e : Entry α) : e.Flushed 0 e where
  next := by simp
  due := fun _ below => absurd below (Nat.not_lt_zero _)
  kept := fun _ _ valid _ => valid
  left := fun _ _ valid => ⟨valid, Nat.zero_le _⟩
  held := rfl
  seen := rfl
  since := rfl

theorem release_slots_iff {i : Fin 256} {slot : Slot α} :
    e.release.slots i = some slot ↔ i ≠ place e.flow.nextSeq ∧ e.slots i = some slot := by
  by_cases same : i = place e.flow.nextSeq
  · simp [Entry.release, same]
  · simp [Entry.release, same]

theorem Placed.release (placed : e.Placed) : e.release.Placed :=
  fun i slot valid => placed i slot (release_slots_iff.mp valid).2

/-- One more number is released before the flush. -/
theorem Flushed.cons {slot : Slot α} (placed : e.Placed)
    (valid : e.slots (place e.flow.nextSeq) = some slot) (due : slot.seq = e.flow.nextSeq)
    (rest : e.release.Flushed k e') : e.Flushed (k + 1) e' where
  next := by
    rw [rest.next]
    show e.flow.nextSeq + 1 + BitVec.ofNat 32 k = _
    bv_omega
  due := fun j below => by
    cases j with
    | zero => exact ⟨_, slot, valid, by simpa using due⟩
    | succ j =>
      obtain ⟨i, other, found, number⟩ := rest.due j (by omega)
      refine ⟨i, other, (release_slots_iff.mp found).2, number.trans ?_⟩
      show e.flow.nextSeq + 1 + BitVec.ofNat 32 j = _
      bv_omega
  kept := fun i other found far => by
    have later : other.seq ≠ e.flow.nextSeq := by
      intro same
      simp [ahead, same] at far
    have apart : i ≠ place e.flow.nextSeq := by
      rintro rfl
      exact later (Option.some.inj (valid.symm.trans found) ▸ due)
    refine rest.kept i other (release_slots_iff.mpr ⟨apart, found⟩) ?_
    have shorter := toNat_sub_succ later
    show k ≤ (other.seq - (e.flow.nextSeq + 1)).toNat
    rw [shorter]
    exact Nat.le_sub_one_of_lt far
  left := fun i other found => by
    obtain ⟨before, far⟩ := rest.left i other found
    obtain ⟨apart, before⟩ := release_slots_iff.mp before
    have later : other.seq ≠ e.flow.nextSeq := fun same =>
      apart ((placed i other before).symm.trans (congrArg place same))
    have shorter := toNat_sub_succ later
    have far : k ≤ (other.seq - (e.flow.nextSeq + 1)).toNat := far
    have apart : (other.seq - e.flow.nextSeq).toNat ≠ 0 := by
      intro zero
      exact later (by bv_omega)
    refine ⟨before, ?_⟩
    show k + 1 ≤ (other.seq - e.flow.nextSeq).toNat
    omega
  held := by
    rw [rest.held]
    show e.flow.held - 1 - k = _
    omega
  seen := rest.seen
  since := rest.since

/-- The loop releases a run of numbers, and stops only before a number that is not held. -/
theorem flushed_flushLoop (emit : α → Bool) (fuel : ℕ) (placed : e.Placed) :
    ∃ k ≤ fuel, e.Flushed k (e.flushLoop emit fuel).1 ∧
      (k < fuel → ∀ i slot, (e.flushLoop emit fuel).1.slots i = some slot →
        slot.seq ≠ (e.flushLoop emit fuel).1.flow.nextSeq) := by
  induction fuel generalizing e with
  | zero => exact ⟨0, le_rfl, .refl e, fun below => absurd below (lt_irrefl 0)⟩
  | succ fuel ih =>
    have undue (free : ∀ slot, e.slots (place e.flow.nextSeq) = some slot →
        slot.seq ≠ e.flow.nextSeq) : ∀ i slot, e.slots i = some slot →
        slot.seq ≠ e.flow.nextSeq := by
      intro i slot valid same
      rw [← placed i slot valid, same] at valid
      exact free slot valid same
    unfold flushLoop
    split
    · rename_i free
      exact ⟨0, Nat.zero_le _, .refl e, fun _ => undue fun slot valid => by simp [free] at valid⟩
    · rename_i slot valid
      split
      · rename_i due
        obtain ⟨k, below, rest, stops⟩ := ih placed.release
        exact ⟨k + 1, by omega, rest.cons placed valid due,
          fun short => stops (by omega)⟩
      · rename_i apart
        refine ⟨0, Nat.zero_le _, .refl e, fun _ => undue fun other found => ?_⟩
        rwa [← Option.some.inj (valid.symm.trans found)]

/-- A window has 256 places, so a run of 256 numbers is all that it holds. -/
theorem Flushed.all (placed : e.Placed) (flushed : e.Flushed 256 e') (i : Fin 256) :
    e'.slots i = none := by
  cases found : e'.slots i with
  | none => rfl
  | some slot =>
    obtain ⟨valid, far⟩ := flushed.left i slot found
    let j := (i.val + 256 - e.flow.nextSeq.toNat % 256) % 256
    have below : j < 256 := Nat.mod_lt _ (by decide)
    obtain ⟨i', due, dueValid, number⟩ := flushed.due j below
    have here : i' = i := by
      rw [← placed i' due dueValid, number]
      refine Fin.ext ?_
      show (e.flow.nextSeq + BitVec.ofNat 32 j).toNat % 256 = i.val
      have := i.isLt
      have jdef : j = (i.val + 256 - e.flow.nextSeq.toNat % 256) % 256 := rfl
      rw [BitVec.toNat_add, BitVec.toNat_ofNat]
      omega
    rw [here, valid] at dueValid
    rw [Option.some.inj dueValid, ahead, number, toNat_add_sub _ (by omega)] at far
    omega

/-- `flow_flush_contiguous` releases the run that starts at `next_seq`. -/
theorem flushed_flowFlushContiguous (emit : α → Bool) (placed : e.Placed) :
    ∃ k ≤ 256, ∃ m, e.Flushed k m ∧ (e.flowFlushContiguous emit).1 = m.closeGap ∧
      ∀ i slot, m.slots i = some slot → slot.seq ≠ m.flow.nextSeq := by
  obtain ⟨k, below, flushed, stops⟩ := flushed_flushLoop emit 256 placed
  refine ⟨k, below, _, flushed, rfl, ?_⟩
  rcases Nat.lt_or_eq_of_le below with short | full
  · exact stops short
  · subst full
    intro i slot found
    rw [flushed.all placed i] at found
    cases found

/-- A skip that starts at the least packet ahead and releases a run of `k` numbers. -/
structure Skipped (e : Entry α) (first : Slot α) (k : ℕ) (m e' : Entry α) : Prop where
  found : ∃ i, e.AheadSlot i first
  least : ∀ i other, e.AheadSlot i other → e.ahead first.seq ≤ e.ahead other.seq
  flushed : (e.advance first.seq).Flushed k m
  some_released : 0 < k
  few_released : k ≤ 256
  stopped : ∀ i slot, m.slots i = some slot → slot.seq ≠ m.flow.nextSeq
  result : e' = m.setGap (if m.flow.held ≠ 0 then e.flow.lastSeenNs else 0)

theorem AheadSlot.delta_eq {i : Fin 256} {slot : Slot α} (seen : e.AheadSlot i slot) :
    delta slot.seq e.flow.nextSeq = e.ahead slot.seq :=
  delta_eq_toNat (delta_nonneg_iff.mp seen.2.1)

theorem advance_self (e : Entry α) : e.advance e.flow.nextSeq = e := rfl

/-- `flow_skip_gap` skips to the least packet ahead, or finds none. -/
theorem flowSkipGap_cases (emit : α → Bool) (placed : e.Placed) :
    ((∀ i slot, ¬ e.AheadSlot i slot) ∧ (e.flowSkipGap emit).1 = e.setGap 0) ∨
      ∃ first k m, e.Skipped first k m (e.flowSkipGap emit).1 := by
  unfold flowSkipGap
  split
  · rename_i missing
    exact .inl ⟨fun i slot => flowSmallestAhead_none missing, rfl⟩
  · rename_i d seq found
    obtain ⟨rfl, ⟨i, first, seen, rfl⟩, least⟩ := flowSmallestAhead_some found
    have started : (if 0 < delta first.seq e.flow.nextSeq then e.advance first.seq else e) =
        e.advance first.seq := by
      split
      · rfl
      · have here : first.seq = e.flow.nextSeq := by
          have := seen.2.1
          exact delta_eq_zero_iff.mp (by omega)
        rw [here, advance_self]
    obtain ⟨k, few, m, flushed, closed, stopped⟩ :=
      flushed_flowFlushContiguous (e := e.advance first.seq) emit placed
    simp only [started, closed]
    refine .inr ⟨first, k, m, ⟨i, seen⟩, fun j other ahead => ?_, flushed, ?_, few, stopped, ?_⟩
    · have := least j other ahead
      rw [seen.delta_eq, ahead.delta_eq] at this
      exact_mod_cast this
    · refine Nat.pos_of_ne_zero fun none => ?_
      subst none
      refine stopped i first (flushed.kept i first seen.1 (Nat.zero_le _)) ?_
      rw [flushed.next]
      simp [advance]
    · show (if m.flow.held ≠ 0 then m.closeGap.setGap m.flow.lastSeenNs else m.closeGap) = _
      rw [flushed.seen]
      unfold closeGap
      split <;> rfl

theorem Flushed.ahead_eq {s : Seq} (flushed : e.Flushed k e') (few : k ≤ 256)
    (reached : k ≤ e.ahead s) : e'.ahead s = e.ahead s - k := by
  unfold ahead at reached ⊢
  rw [flushed.next, toNat_sub_add (by omega) reached]

/-- Distances from the packet that a skip starts at. -/
theorem ahead_advance {s first : Seq} (reached : e.ahead first ≤ e.ahead s) :
    (e.advance first).ahead s = e.ahead s - e.ahead first :=
  toNat_sub_of_advance reached

namespace Skipped

variable {first : Slot α} {m : Entry α}

theorem placed (skipped : e.Skipped first k m e') (placed : e.Placed) : e'.Placed := by
  rw [skipped.result]
  exact fun i slot valid => placed i slot (skipped.flushed.left i slot valid).1

theorem ahead_eq {s : Seq} (skipped : e.Skipped first k m e')
    (reached : e.ahead first.seq + k ≤ e.ahead s) :
    e'.ahead s = e.ahead s - (e.ahead first.seq + k) := by
  have before : (e.advance first.seq).ahead s = _ := ahead_advance (by omega)
  have after := skipped.flushed.ahead_eq skipped.few_released (s := s) (by omega)
  rw [skipped.result]
  show m.ahead s = _
  omega

theorem ahead_next (skipped : e.Skipped first k m e') (near : e.ahead first.seq < 2 ^ 31) :
    (e'.flow.nextSeq - e.flow.nextSeq).toNat = e.ahead first.seq + k := by
  have next : e'.flow.nextSeq = first.seq + BitVec.ofNat 32 k := by
    rw [skipped.result]
    exact skipped.flushed.next
  have few := skipped.few_released
  unfold ahead at near ⊢
  rw [next, toNat_add_ofNat_sub (by omega)]

/-- What is left was there and lies past the run. -/
theorem left {i : Fin 256} {slot : Slot α} (skipped : e.Skipped first k m e')
    (valid : e'.slots i = some slot) :
    e.slots i = some slot ∧ k ≤ (e.advance first.seq).ahead slot.seq := by
  rw [skipped.result] at valid
  exact skipped.flushed.left i slot valid

theorem held_lt {others : ℕ} (skipped : e.Skipped first k m e') (counted : e.Counted others) :
    e'.flow.held < e.flow.held := by
  obtain ⟨i, seen⟩ := skipped.found
  have some_held : e.flow.held ≠ 0 := by
    intro none
    exact absurd ((counted.empty none i).symm.trans seen.1) (by simp)
  have fewer : e'.flow.held = e.flow.held - k := by
    rw [skipped.result]
    exact skipped.flushed.held
  have := skipped.some_released
  omega

end Skipped

/-- Moves add no packets. -/
theorem Moves.slots {events : List (Event α)} {i : Fin 256} {slot : Slot α}
    (moves : Moves emit e events e') (valid : e'.slots i = some slot) : e.slots i = some slot := by
  induction moves with
  | refl => exact valid
  | setGap _ _ ih => exact ih valid
  | release _ _ _ ih => exact (release_slots_iff.mp (ih valid)).2
  | skip _ _ _ _ ih => exact ih valid
  | jump _ _ _ ih => exact ih valid

theorem Placed.moves {events : List (Event α)} (placed : e.Placed)
    (moves : Moves emit e events e') : e'.Placed :=
  fun i slot valid => placed i slot (moves.slots valid)

theorem Placed.store (placed : e.Placed) (seq : Seq) (item : α) : (e.store seq item).Placed := by
  intro i slot valid
  change Function.update e.slots (place seq) (some ⟨item, seq⟩) i = some slot at valid
  by_cases same : i = place seq
  · subst same
    rw [Function.update_self, Option.some.injEq] at valid
    rw [← valid]
  · rw [Function.update_of_ne same] at valid
    exact placed i slot valid

theorem Placed.hold (placed : e.Placed) (now : BitVec 64) (seq : Seq) (item : α) :
    (e.hold now seq item).1.Placed := by
  have stored := placed.store seq item
  unfold Entry.hold
  split
  · split
    · exact placed
    · exact stored
  · exact stored

theorem Placed.submits {now : BitVec 64} {seq : Seq} {item : α} {events : List (Event α)}
    {returned : Bool} (placed : e.Placed)
    (submits : Submits emit now seq item e (e', events, returned)) : e'.Placed := by
  cases submits with
  | stuck moves => exact placed.moves moves
  | returns arrives =>
    cases arrives with
    | refused moves => exact placed.moves moves
    | @passed m _ _ _ moves due flushed =>
      have before := placed.moves moves
      have advanced : (m.advance (seq + 1)).Placed := before
      exact advanced.moves flushed
    | held moves => exact (placed.moves moves).hold now seq item

/-! ## The loop that makes room -/

/-- Every packet is one that `flow_smallest_ahead` looks at. -/
def InSight (e : Entry α) : Prop := ∀ i slot, e.slots i = some slot → e.AheadSlot i slot

theorem Skipped.inSight {first : Slot α} {m : Entry α} (skipped : e.Skipped first k m e')
    (sight : e.InSight) : e'.InSight := by
  intro i slot valid
  obtain ⟨before, far⟩ := skipped.left valid
  have seen := sight i slot before
  have reached := skipped.least i slot seen
  rw [ahead_advance reached] at far
  have after := skipped.ahead_eq (s := slot.seq) (by omega)
  have bound := seen.2.2
  rw [seen.delta_eq] at bound
  have short : e'.ahead slot.seq < 2 ^ 31 := by omega
  have delta_after : delta slot.seq e'.flow.nextSeq = e'.ahead slot.seq := delta_eq_toNat short
  exact ⟨valid, by omega, by omega⟩

/-- The packet lies past everything that can be released, and a packet that cannot is held. -/
structure Wedged (seq : Seq) (e : Entry α) : Prop where
  out_of_sight : ¬ e.InSight
  beyond : 256 ≤ delta seq e.flow.nextSeq
  past : ∀ i slot, e.AheadSlot i slot → 257 ≤ delta seq slot.seq

/-- A skip does not wedge a flow. -/
theorem Skipped.wedged {first : Slot α} {m : Entry α} {seq : Seq}
    (skipped : e.Skipped first k m e') (beyond : 256 ≤ delta seq e.flow.nextSeq)
    (wedged : e'.Wedged seq) : e.Wedged seq where
  out_of_sight := fun sight => wedged.out_of_sight (skipped.inSight sight)
  beyond := beyond
  past := fun i slot seen => by
    have reached := skipped.least i slot seen
    have bound := seen.2.2
    rw [seen.delta_eq] at bound
    have near := delta_nonneg_iff.mp (by omega : 0 ≤ delta seq e.flow.nextSeq)
    have far := beyond
    rw [delta_eq_toNat near] at far
    have few := skipped.few_released
    by_cases released : (e.advance first.seq).ahead slot.seq < k
    · have after := wedged.beyond
      have next := skipped.ahead_next (by omega)
      rw [ahead_advance reached] at released
      rw [delta_eq_sub e.flow.nextSeq (by rw [next]; omega) (by omega), next] at after
      rw [delta_eq_sub e.flow.nextSeq (show e.ahead slot.seq ≤ _ by omega) (by omega)]
      show 257 ≤ ((seq - e.flow.nextSeq).toNat : ℤ) - e.ahead slot.seq
      omega
    · rw [ahead_advance reached] at released
      have kept : e'.slots i = some slot := by
        rw [skipped.result]
        refine skipped.flushed.kept i slot seen.1 ?_
        rw [ahead_advance reached]
        omega
      have after := skipped.ahead_eq (s := slot.seq) (by omega)
      have short : e'.ahead slot.seq < 2 ^ 31 := by omega
      have delta_after : delta slot.seq e'.flow.nextSeq = e'.ahead slot.seq := delta_eq_toNat short
      exact wedged.past i slot ⟨kept, by omega, by omega⟩

/-- A flow that nothing can be released from stays as full as it is. -/
theorem crowded_roomLoop_of_unseen (emit : α → Bool) {seq : Seq} (fuel : ℕ)
    (placed : e.Placed) (unseen : ∀ i slot, ¬ e.AheadSlot i slot) (full : e.crowded seq = true) :
    (e.roomLoop emit seq fuel).1.crowded seq = true := by
  induction fuel generalizing e with
  | zero => exact full
  | succ fuel ih =>
    unfold roomLoop
    rw [if_pos full]
    rcases flowSkipGap_cases emit placed with ⟨-, closed⟩ | ⟨first, k, m, skipped⟩
    · show ((e.flowSkipGap emit).1.roomLoop emit seq fuel).1.crowded seq = true
      rw [closed]
      exact ih placed unseen full
    · obtain ⟨i, seen⟩ := skipped.found
      exact absurd seen (unseen i first)

/-- Unless the flow is wedged, as many rounds as packets are held make room. -/
theorem not_crowded_roomLoop {others : ℕ} (emit : α → Bool) {seq : Seq} (fuel : ℕ)
    (counted : e.Counted others) (placed : e.Placed) (enough : e.flow.held ≤ fuel)
    (free : ¬ e.Wedged seq) : (e.roomLoop emit seq fuel).1.crowded seq = false := by
  induction fuel generalizing e with
  | zero => simp [roomLoop, crowded, Nat.le_zero.mp enough]
  | succ fuel ih =>
    unfold roomLoop
    cases full : e.crowded seq with
    | false => simpa using full
    | true =>
      have beyond : 256 ≤ delta seq e.flow.nextSeq := by
        simpa [beyondWindow] using (Bool.and_eq_true_iff.mp full).2
      have some_held : e.flow.held ≠ 0 := by simpa using (Bool.and_eq_true_iff.mp full).1
      simp only [↓reduceIte]
      rcases flowSkipGap_cases emit placed with ⟨unseen, _⟩ | ⟨first, k, m, skipped⟩
      · refine absurd ⟨fun sight => ?_, beyond, fun i slot seen => absurd seen (unseen i slot)⟩ free
        refine some_held ((counted.held).trans (Multiset.card_eq_zero.mpr ?_))
        refine Finset.sum_eq_zero fun i _ => ?_
        cases valid : e.slots i with
        | none => rfl
        | some slot => exact absurd (sight i slot valid) (unseen i slot)
      · have kept := (counted.moves (moves_flowSkipGap emit e)).1
        have fewer := skipped.held_lt counted
        exact ih kept (skipped.placed placed) (by omega) fun wedged =>
          free (skipped.wedged beyond wedged)

/-- A call returns unless it finds its flow wedged. -/
theorem submitChecked_returns {others : ℕ} (emit : α → Bool) (now : BitVec 64) {seq : Seq}
    (item : α) (counted : e.Counted others) (placed : e.Placed) (free : ¬ e.Wedged seq) :
    (e.submitChecked emit now seq item).2.2 = true := by
  have roomy := not_crowded_roomLoop emit e.flow.held counted placed le_rfl free
  have room : (e.flowMakeWindowRoom emit seq).2.2 = true := by
    simp [flowMakeWindowRoom, roomy]
  unfold submitChecked
  split
  · rfl
  · split
    · rfl
    · split
      · rename_i stuck
        rw [stuck] at room
        cases room
      · rfl

end Entry

end NeEncryptor.Reorder
