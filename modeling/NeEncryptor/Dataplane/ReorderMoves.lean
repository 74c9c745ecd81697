import Mathlib.Data.List.Induction
import NeEncryptor.Dataplane.UdpReorder

/-!
# Moves of a reorder flow

What the flushes and skips of a flow can do, said once: they release the slot that is due, jump to the
least packet ahead, jump over an empty window, or set the time of the gap.  Every property of the
buffer between two arrivals is an induction over these moves.
-/

namespace NeEncryptor.Reorder

open SerialNumber

variable {α : Type*}

namespace Entry

/-- A valid slot that `flow_smallest_ahead` looks at: `INT32_MAX` is its mark for no packet. -/
def AheadSlot (e : Entry α) (i : Fin 256) (slot : Slot α) : Prop :=
  e.slots i = some slot ∧ 0 ≤ delta slot.seq e.flow.nextSeq ∧
    delta slot.seq e.flow.nextSeq < 2147483647

/-- A sequence of moves with the callbacks that it makes. -/
inductive Moves (emit : α → Bool) : Entry α → List (Event α) → Entry α → Prop
  | refl (e : Entry α) : Moves emit e [] e
  | setGap {e e' : Entry α} {events : List (Event α)} (since : BitVec 64)
      (rest : Moves emit (e.setGap since) events e') : Moves emit e events e'
  | release {e e' : Entry α} {events : List (Event α)} {slot : Slot α}
      (valid : e.slots (place e.flow.nextSeq) = some slot) (due : slot.seq = e.flow.nextSeq)
      (rest : Moves emit e.release events e') :
      Moves emit e (itemEmit emit slot.seq slot.item ++ events) e'
  | skip {e e' : Entry α} {events : List (Event α)} {i : Fin 256} {slot : Slot α}
      (valid : e.slots i = some slot) (ahead : 0 < delta slot.seq e.flow.nextSeq)
      (least : ∀ j other, e.AheadSlot j other →
        delta slot.seq e.flow.nextSeq ≤ delta other.seq e.flow.nextSeq)
      (rest : Moves emit (e.advance slot.seq) events e') :
      Moves emit e (.gap slot.seq :: events) e'
  | jump {e e' : Entry α} {events : List (Event α)} {next : Seq} (empty : e.flow.held = 0)
      (ahead : 0 < delta next e.flow.nextSeq) (rest : Moves emit (e.advance next) events e') :
      Moves emit e (.gap next :: events) e'

variable {emit : α → Bool} {e e₁ e₂ : Entry α} {events more : List (Event α)}

theorem Moves.trans (first : Moves emit e events e₁) (second : Moves emit e₁ more e₂) :
    Moves emit e (events ++ more) e₂ := by
  induction first with
  | refl => exact second
  | setGap since _ ih => exact .setGap since (ih second)
  | release valid due _ ih =>
    rw [List.append_assoc]
    exact .release valid due (ih second)
  | skip valid ahead least _ ih => exact .skip valid ahead least (ih second)
  | jump empty ahead _ ih => exact .jump empty ahead (ih second)

theorem Moves.gap (since : BitVec 64) : Moves emit e [] (e.setGap since) :=
  .setGap since (.refl _)

/-! ## The search for the least packet ahead -/

/-- The best packet found by `flow_smallest_ahead` among the places it has seen. -/
structure Best (e : Entry α) (seen : List (Fin 256)) (best : ℤ × Seq) : Prop where
  bound : best.1 ≤ 2147483647
  found : best.1 ≠ 2147483647 →
    ∃ i slot, e.AheadSlot i slot ∧ best = (delta slot.seq e.flow.nextSeq, slot.seq)
  least : ∀ i ∈ seen, ∀ slot, e.AheadSlot i slot → best.1 ≤ delta slot.seq e.flow.nextSeq

theorem best_aheadStep {seen : List (Fin 256)} {best : ℤ × Seq} (i : Fin 256)
    (found : e.Best seen best) : e.Best (seen ++ [i]) (e.aheadStep best i) := by
  cases valid : e.slots i with
  | none =>
    simp only [aheadStep, valid]
    refine ⟨found.bound, found.found, fun j member slot ahead => ?_⟩
    rcases List.mem_append.mp member with member | member
    · exact found.least j member slot ahead
    · rw [List.mem_singleton.mp member] at ahead
      exact absurd (valid.symm.trans ahead.1) (by simp)
  | some new =>
    simp only [aheadStep, valid]
    split
    · rename_i better
      have bound := found.bound
      refine ⟨?_, fun _ => ⟨i, new, ⟨valid, better.1, by omega⟩, rfl⟩,
        fun j member slot ahead => ?_⟩
      · show delta new.seq _ ≤ _
        omega
      rcases List.mem_append.mp member with member | member
      · have := found.least j member slot ahead
        show delta new.seq _ ≤ _
        omega
      · rw [List.mem_singleton.mp member] at ahead
        have same : new = slot := Option.some.inj (valid.symm.trans ahead.1)
        rw [same]
    · rename_i worse
      refine ⟨found.bound, found.found, fun j member slot ahead => ?_⟩
      rcases List.mem_append.mp member with member | member
      · exact found.least j member slot ahead
      · rw [List.mem_singleton.mp member] at ahead
        have same : new = slot := Option.some.inj (valid.symm.trans ahead.1)
        have := ahead.2.1
        rw [same] at worse
        omega

theorem best_foldl (rest seen : List (Fin 256)) (best : ℤ × Seq) (found : e.Best seen best) :
    e.Best (seen ++ rest) (rest.foldl e.aheadStep best) := by
  induction rest generalizing seen best with
  | nil => simpa using found
  | cons i rest ih =>
    have stepped := ih (seen ++ [i]) _ (best_aheadStep i found)
    rwa [List.append_assoc, List.singleton_append] at stepped

theorem best_all :
    e.Best (List.finRange 256) ((List.finRange 256).foldl e.aheadStep (2147483647, 0)) :=
  best_foldl _ [] _ ⟨le_rfl, fun apart => absurd rfl apart, fun _ member => by simp at member⟩

/-- `flow_smallest_ahead` finds the least packet ahead. -/
theorem flowSmallestAhead_some {d : ℤ} {seq : Seq} (found : e.flowSmallestAhead = some (d, seq)) :
    d = delta seq e.flow.nextSeq ∧ (∃ i slot, e.AheadSlot i slot ∧ slot.seq = seq) ∧
      ∀ i slot, e.AheadSlot i slot → d ≤ delta slot.seq e.flow.nextSeq := by
  unfold flowSmallestAhead at found
  have best := best_all (e := e)
  generalize (List.finRange 256).foldl e.aheadStep (2147483647, 0) = result at best found
  by_cases apart : result.1 = 2147483647
  · simp [apart] at found
  · simp only [apart, ↓reduceIte, Option.some.injEq] at found
    subst found
    obtain ⟨i, slot, ahead, same⟩ := best.found apart
    rw [Prod.mk.injEq] at same
    exact ⟨same.2 ▸ same.1, ⟨i, slot, ahead, same.2.symm⟩,
      fun j other => best.least j (List.mem_finRange j) other⟩

theorem flowSmallestAhead_none (missing : e.flowSmallestAhead = none) {i : Fin 256} {slot : Slot α} :
    ¬ e.AheadSlot i slot := by
  intro ahead
  unfold flowSmallestAhead at missing
  have best := best_all (e := e)
  generalize (List.finRange 256).foldl e.aheadStep (2147483647, 0) = result at best missing
  have mark : result.1 = 2147483647 := by
    by_contra apart
    simp [apart] at missing
  have least := best.least i (List.mem_finRange i) slot ahead
  have bound := ahead.2.2
  omega

/-! ## The operations are moves -/

theorem moves_flushLoop (emit : α → Bool) (fuel : ℕ) (e : Entry α) :
    Moves emit e (e.flushLoop emit fuel).2 (e.flushLoop emit fuel).1 := by
  induction fuel generalizing e with
  | zero => exact .refl e
  | succ fuel ih =>
    unfold flushLoop
    split
    · exact .refl e
    · rename_i slot valid
      split
      · rename_i due
        exact .release valid due (ih e.release)
      · exact .refl e

theorem moves_flowFlushContiguous (emit : α → Bool) (e : Entry α) :
    Moves emit e (e.flowFlushContiguous emit).2 (e.flowFlushContiguous emit).1 := by
  have flushed := moves_flushLoop emit 256 e
  rw [← List.append_nil (e.flowFlushContiguous emit).2]
  exact flushed.trans (.gap _)

theorem moves_flowSkipGap (emit : α → Bool) (e : Entry α) :
    Moves emit e (e.flowSkipGap emit).2 (e.flowSkipGap emit).1 := by
  unfold flowSkipGap
  split
  · exact .gap 0
  · rename_i d seq found
    obtain ⟨rfl, ⟨i, slot, ahead, rfl⟩, least⟩ := flowSmallestAhead_some found
    have close (flushed : Entry α) : Moves emit flushed []
        (if flushed.flow.held ≠ 0 then flushed.setGap flushed.flow.lastSeenNs else flushed) := by
      split
      · exact .gap _
      · exact .refl _
    by_cases skips : 0 < delta slot.seq e.flow.nextSeq
    · simp only [skips, ↓reduceIte]
      have flushed := moves_flowFlushContiguous emit (e.advance slot.seq)
      simpa using Moves.skip ahead.1 skips least (flushed.trans (close _))
    · simp only [skips, ↓reduceIte]
      simpa using (moves_flowFlushContiguous emit e).trans (close _)

theorem moves_expireGap (emit : α → Bool) (holdNs now : BitVec 64) (e : Entry α) :
    Moves emit e (e.expireGap emit holdNs now).2 (e.expireGap emit holdNs now).1 := by
  unfold expireGap
  split
  · exact moves_flowSkipGap emit e
  · exact .refl e

theorem moves_roomLoop (emit : α → Bool) (seq : Seq) (fuel : ℕ) (e : Entry α) :
    Moves emit e (e.roomLoop emit seq fuel).2 (e.roomLoop emit seq fuel).1 := by
  induction fuel generalizing e with
  | zero => exact .refl e
  | succ fuel ih =>
    unfold roomLoop
    split
    · exact (moves_flowSkipGap emit e).trans (ih _)
    · exact .refl e

theorem moves_jumpToWindow (emit : α → Bool) {seq : Seq} (roomy : e.crowded seq = false) :
    Moves emit e (e.jumpToWindow seq).2 (e.jumpToWindow seq).1 := by
  unfold jumpToWindow
  split
  · rename_i beyond
    have empty : e.flow.held = 0 := by simpa [crowded, beyond] using roomy
    have far : 256 ≤ delta seq e.flow.nextSeq := by simpa [beyondWindow] using beyond
    exact .jump empty (delta_sub_pos far) (.refl _)
  · exact .refl _

theorem moves_flowMakeWindowRoom (emit : α → Bool) (seq : Seq) (e : Entry α) :
    Moves emit e (e.flowMakeWindowRoom emit seq).2.1 (e.flowMakeWindowRoom emit seq).1 := by
  have rounds := moves_roomLoop emit seq e.flow.held e
  simp only [flowMakeWindowRoom]
  split
  · exact rounds
  · rename_i roomy
    exact rounds.trans (moves_jumpToWindow emit (by simpa using roomy))

/-! ## Arrivals -/

/-- What `dp_udp_reorder_submit` does with the packet when it returns. -/
inductive Arrives (emit : α → Bool) (now : BitVec 64) (seq : Seq) (item : α) (e : Entry α) :
    List (Event α) → Entry α → Prop
  /-- Late, or one packet too many. -/
  | refused {m : Entry α} {events : List (Event α)} (moves : Moves emit e events m) :
      Arrives emit now seq item e (events ++ [.drop item]) m
  /-- The packet that is due. -/
  | passed {m e' : Entry α} {events more : List (Event α)} (moves : Moves emit e events m)
      (due : seq = m.flow.nextSeq) (flushed : Moves emit (m.advance (seq + 1)) more e') :
      Arrives emit now seq item e (events ++ (itemEmit emit seq item ++ more)) e'
  /-- The packet goes to its slot, unless a packet of the same number is there. -/
  | held {m : Entry α} {events : List (Event α)} (moves : Moves emit e events m) :
      Arrives emit now seq item e (events ++ (m.hold now seq item).2) (m.hold now seq item).1

/-- What a call of `dp_udp_reorder_submit` does, also one that does not return. -/
inductive Submits (emit : α → Bool) (now : BitVec 64) (seq : Seq) (item : α) (e : Entry α) :
    Entry α × List (Event α) × Bool → Prop
  | returns {e' : Entry α} {events : List (Event α)}
      (arrives : Arrives emit now seq item e events e') : Submits emit now seq item e (e', events, true)
  /-- The loop of `flow_make_window_room` does not end. -/
  | stuck {e' : Entry α} {events : List (Event α)} (moves : Moves emit e events e') :
      Submits emit now seq item e (e', events, false)

variable {now : BitVec 64} {seq : Seq} {item : α}

theorem Arrives.after (moves : Moves emit e events e₁)
    (arrives : Arrives emit now seq item e₁ more e₂) :
    Arrives emit now seq item e (events ++ more) e₂ := by
  cases arrives with
  | refused moved =>
    rw [← List.append_assoc]
    exact .refused (moves.trans moved)
  | passed moved due flushed =>
    rw [← List.append_assoc]
    exact .passed (moves.trans moved) due flushed
  | held moved =>
    rw [← List.append_assoc]
    exact .held (moves.trans moved)

theorem Submits.after {returned : Bool} (moves : Moves emit e events e₁)
    (submits : Submits emit now seq item e₁ (e₂, more, returned)) :
    Submits emit now seq item e (e₂, events ++ more, returned) := by
  cases submits with
  | returns arrives => exact .returns (arrives.after moves)
  | stuck moved => exact .stuck (moves.trans moved)

theorem arrives_emitInOrder (emit : α → Bool) (now : BitVec 64) (item : α)
    (due : seq = e.flow.nextSeq) :
    Arrives emit now seq item e (e.emitInOrder emit seq item).2 (e.emitInOrder emit seq item).1 := by
  have flushed := moves_flowFlushContiguous emit (e.advance (e.flow.nextSeq + 1))
  simp only [emitInOrder]
  rw [← due] at flushed ⊢
  exact .passed (.refl e) due flushed

theorem arrives_holdCapped (emit : α → Bool) (now : BitVec 64) (seq : Seq) (item : α)
    (e : Entry α) :
    Arrives emit now seq item e (e.holdCapped emit now seq item).2
      (e.holdCapped emit now seq item).1 := by
  have skipped := moves_flowSkipGap emit e
  simp only [holdCapped]
  split
  · split
    · exact .refused skipped
    · exact .held skipped
  · exact .held (.refl e)

theorem arrives_submitInWindow (emit : α → Bool) (now : BitVec 64) (seq : Seq) (item : α)
    (e : Entry α) :
    Arrives emit now seq item e (e.submitInWindow emit now seq item).2
      (e.submitInWindow emit now seq item).1 := by
  unfold submitInWindow
  split
  · exact .refused (.refl e)
  · split
    · rename_i due
      exact arrives_emitInOrder emit now item (delta_eq_zero_iff.mp due)
    · exact arrives_holdCapped emit now seq item e

theorem submits_submitChecked (emit : α → Bool) (now : BitVec 64) (seq : Seq) (item : α)
    (e : Entry α) : Submits emit now seq item e (e.submitChecked emit now seq item) := by
  unfold submitChecked
  split
  · exact .returns (.refused (.refl e))
  · split
    · rename_i due
      exact .returns (arrives_emitInOrder emit now item (delta_eq_zero_iff.mp due))
    · have room := moves_flowMakeWindowRoom emit seq e
      split
      · rename_i stuck
        rw [stuck] at room
        exact .stuck room
      · rename_i e₁ _ roomy
        rw [roomy] at room
        exact .returns ((arrives_submitInWindow emit now seq item e₁).after room)

theorem submits_submit (emit : α → Bool) (holdNs now : BitVec 64) (seq : Seq) (item : α)
    (e : Entry α) : Submits emit now seq item e (e.submit emit holdNs now seq item) := by
  have expired := moves_expireGap emit holdNs now e
  simp only [submit]
  generalize e.expireGap emit holdNs now = first at expired
  have submitted := submits_submitChecked emit now seq item first.1
  generalize first.1.submitChecked emit now seq item = second at submitted
  exact submitted.after expired

end Entry

end NeEncryptor.Reorder
