import Mathlib.Algebra.BigOperators.Ring.Finset
import Mathlib.Tactic.Abel
import NeEncryptor.Dataplane.ReorderMoves

/-!
# Items of the reorder buffer

Where the submitted items are: handed to `ops.emit` with success, handed to `ops.drop`, or in a slot.
Every operation on a flow moves items between these places and keeps the two counters of held packets.
-/

namespace NeEncryptor.Reorder

open SerialNumber

variable {α : Type*}

/-! ## Slots -/

/-- The item of a slot. -/
def slotItems (slot : Option (Slot α)) : Multiset α := (slot.map Slot.item).elim 0 singleton

/-- The items of a window. -/
def windowItems (slots : Fin 256 → Option (Slot α)) : Multiset α := ∑ i, slotItems (slots i)

theorem slotItems_none : slotItems (none : Option (Slot α)) = 0 := rfl

theorem slotItems_some (slot : Slot α) : slotItems (some slot) = {slot.item} := rfl

/-- Writing one place of a table changes a sum over the table by that place. -/
theorem sum_update {ι β M : Type*} [Fintype ι] [DecidableEq ι] [AddCommMonoid M] (f : β → M)
    (table : ι → β) (i : ι) (b : β) :
    f (table i) + ∑ j, f (Function.update table i b j) = f b + ∑ j, f (table j) := by
  have rest : ∀ t : ι → β, ∑ j, f (t j) = f (t i) + ∑ j ∈ Finset.univ.erase i, f (t j) :=
    fun t => (Finset.add_sum_erase _ _ (Finset.mem_univ i)).symm
  have same : ∑ j ∈ Finset.univ.erase i, f (Function.update table i b j) =
      ∑ j ∈ Finset.univ.erase i, f (table j) := by
    refine Finset.sum_congr rfl fun j hj => ?_
    rw [Function.update_of_ne (Finset.ne_of_mem_erase hj)]
  rw [rest (Function.update table i b), rest table, Function.update_self, same]
  abel

theorem windowItems_update (slots : Fin 256 → Option (Slot α)) (i : Fin 256)
    (slot : Option (Slot α)) :
    slotItems (slots i) + windowItems (Function.update slots i slot) =
      slotItems slot + windowItems slots :=
  sum_update slotItems slots i slot

theorem windowItems_empty : windowItems (fun _ => none : Fin 256 → Option (Slot α)) = 0 :=
  Finset.sum_eq_zero fun _ _ => rfl

/-- The number of items is the number of valid slots. -/
theorem card_windowItems (slots : Fin 256 → Option (Slot α)) :
    (windowItems slots).card = (Finset.univ.filter fun i => (slots i).isSome = true).card := by
  rw [windowItems, Multiset.card_sum, Finset.card_filter]
  refine Finset.sum_congr rfl fun i _ => ?_
  cases slots i <;> rfl

theorem windowItems_eq_zero {slots : Fin 256 → Option (Slot α)} (empty : windowItems slots = 0)
    (i : Fin 256) : slots i = none := by
  have card := card_windowItems slots
  rw [empty, Multiset.card_zero, eq_comm, Finset.card_eq_zero, Finset.filter_eq_empty_iff] at card
  exact Option.not_isSome_iff_eq_none.mp (card (Finset.mem_univ i))

/-! ## Callbacks -/

/-- The item handed to `ops.emit` with success. -/
def Event.emitted : Event α → Option α
  | .emit _ item true => some item
  | _ => none

/-- The item handed to `ops.drop`. -/
def Event.dropped : Event α → Option α
  | .drop item => some item
  | _ => none

def emittedItems (events : List (Event α)) : Multiset α := events.filterMap Event.emitted

def droppedItems (events : List (Event α)) : Multiset α := events.filterMap Event.dropped

/-- The items that have left the buffer. -/
def disposedItems (events : List (Event α)) : Multiset α :=
  emittedItems events + droppedItems events

@[simp] theorem disposedItems_nil : disposedItems ([] : List (Event α)) = 0 := rfl

@[simp] theorem disposedItems_append (events more : List (Event α)) :
    disposedItems (events ++ more) = disposedItems events + disposedItems more := by
  simp only [disposedItems, emittedItems, droppedItems, List.filterMap_append,
    ← Multiset.coe_add]
  abel

@[simp] theorem disposedItems_drop (item : α) : disposedItems [Event.drop item] = {item} := rfl

@[simp] theorem disposedItems_gap (next : Seq) : disposedItems [Event.gap (α := α) next] = 0 := rfl

@[simp] theorem disposedItems_reset (next : Seq) :
    disposedItems [Event.reset (α := α) next] = 0 := rfl

@[simp] theorem disposedItems_cons_gap (next : Seq) (events : List (Event α)) :
    disposedItems (Event.gap next :: events) = disposedItems events := rfl

/-- An item that is emitted leaves once, whatever the callback returns. -/
@[simp] theorem disposedItems_itemEmit (emit : α → Bool) (seq : Seq) (item : α) :
    disposedItems (itemEmit emit seq item) = {item} := by
  unfold itemEmit
  split <;> rfl

/-! ## Flows -/

namespace Entry

/-- The counters of a flow, where the other flows of the worker hold `others` packets. -/
structure Counted (others : ℕ) (e : Entry α) : Prop where
  held : e.flow.held = (windowItems e.slots).card
  total : e.total = others + e.flow.held

variable {others : ℕ} {e e₁ : Entry α} {emit : α → Bool} {events : List (Event α)}

/-- A step that touches neither slots nor counters. -/
theorem Counted.idle (counted : e.Counted others) (slots : e₁.slots = e.slots)
    (held : e₁.flow.held = e.flow.held) (total : e₁.total = e.total) : e₁.Counted others :=
  ⟨by rw [held, slots]; exact counted.held, by rw [held, total]; exact counted.total⟩

/-- A flow that holds no packets has no valid slot. -/
theorem Counted.empty (counted : e.Counted others) (held : e.flow.held = 0) (i : Fin 256) :
    e.slots i = none :=
  windowItems_eq_zero (Multiset.card_eq_zero.mp (counted.held ▸ held)) i

/-- Releasing a valid slot. -/
theorem counted_release {slot : Slot α} (counted : e.Counted others)
    (valid : e.slots (place e.flow.nextSeq) = some slot) :
    e.release.Counted others ∧ windowItems e.slots = {slot.item} + windowItems e.release.slots := by
  have items := windowItems_update e.slots (place e.flow.nextSeq) none
  rw [valid, slotItems_some, slotItems_none, zero_add] at items
  have card := congrArg Multiset.card items
  rw [Multiset.card_add, Multiset.card_singleton] at card
  have held := counted.held
  have total := counted.total
  refine ⟨⟨?_, ?_⟩, items.symm⟩
  · show e.flow.held - 1 = (windowItems e.release.slots).card
    rw [held, ← card, release, Nat.add_sub_cancel_left]
  · show e.total - 1 = others + (e.flow.held - 1)
    omega

/-- Moves keep the counters, and every item that leaves the window is disposed of. -/
theorem Counted.moves (counted : e.Counted others) (moves : Moves emit e events e₁) :
    e₁.Counted others ∧ windowItems e.slots = disposedItems events + windowItems e₁.slots := by
  induction moves with
  | refl => exact ⟨counted, by simp⟩
  | setGap since _ ih => exact ih (counted.idle rfl rfl rfl)
  | release valid due _ ih =>
    obtain ⟨released, items⟩ := counted_release counted valid
    obtain ⟨kept, rest⟩ := ih released
    rw [rest] at items
    refine ⟨kept, ?_⟩
    rw [items, disposedItems_append, disposedItems_itemEmit, add_assoc]
  | skip _ _ _ _ ih =>
    obtain ⟨kept, rest⟩ := ih (counted.idle rfl rfl rfl)
    exact ⟨kept, by rwa [disposedItems_cons_gap]⟩
  | jump _ _ _ ih =>
    obtain ⟨kept, rest⟩ := ih (counted.idle rfl rfl rfl)
    exact ⟨kept, by rwa [disposedItems_cons_gap]⟩

/-- Moves release packets, they hold no new ones. -/
theorem Counted.moves_le (counted : e.Counted others) (moves : Moves emit e events e₁) :
    e₁.flow.held ≤ e.flow.held ∧ e₁.total + e.flow.held = e.total + e₁.flow.held := by
  obtain ⟨kept, items⟩ := counted.moves moves
  have cards := congrArg Multiset.card items
  rw [Multiset.card_add, ← counted.held, ← kept.held] at cards
  have before := counted.total
  have after := kept.total
  omega

/-- Holding a packet keeps the counters; it or the packet in its slot may be dropped. -/
theorem Counted.hold (counted : e.Counted others) (now : BitVec 64) (seq : Seq) (item : α) :
    (e.hold now seq item).1.Counted others ∧
      {item} + windowItems e.slots =
        disposedItems (e.hold now seq item).2 + windowItems (e.hold now seq item).1.slots := by
  have items := windowItems_update e.slots (place seq) (some ⟨item, seq⟩)
  have card := congrArg Multiset.card items
  have held := counted.held
  have total := counted.total
  unfold Entry.hold
  split
  · rename_i slot valid
    rw [valid, slotItems_some, slotItems_some] at items card
    simp only [Multiset.card_add, Multiset.card_singleton] at card
    split
    · exact ⟨counted, by rw [disposedItems_drop]⟩
    · refine ⟨⟨?_, total⟩, items.symm⟩
      show e.flow.held = _
      rw [held]
      exact (Nat.add_left_cancel card).symm
  · rename_i free
    rw [free, slotItems_none, slotItems_some, zero_add] at items card
    simp only [Multiset.card_add, Multiset.card_singleton] at card
    refine ⟨⟨?_, ?_⟩, ?_⟩
    · show e.flow.held + 1 = _
      rw [held, Nat.add_comm]
      exact card.symm
    · show e.total + 1 = others + (e.flow.held + 1)
      omega
    · rw [disposedItems_nil, zero_add]
      exact items.symm

/-- The packet of a call that returns is disposed of or in the window. -/
theorem Counted.arrives {now : BitVec 64} {seq : Seq} {item : α} (counted : e.Counted others)
    (arrives : Arrives emit now seq item e events e₁) :
    e₁.Counted others ∧
      {item} + windowItems e.slots = disposedItems events + windowItems e₁.slots := by
  cases arrives with
  | refused moves =>
    obtain ⟨kept, items⟩ := counted.moves moves
    refine ⟨kept, ?_⟩
    rw [items, disposedItems_append, disposedItems_drop]
    abel
  | @passed m _ _ _ moves due flushed =>
    obtain ⟨kept, items⟩ := counted.moves moves
    have advanced : (m.advance (seq + 1)).Counted others := kept.idle rfl rfl rfl
    obtain ⟨last, rest⟩ := advanced.moves flushed
    have rest : windowItems m.slots = _ := rest
    refine ⟨last, ?_⟩
    rw [items, rest, disposedItems_append, disposedItems_append, disposedItems_itemEmit]
    abel
  | @held m before moves =>
    obtain ⟨kept, items⟩ := counted.moves moves
    obtain ⟨last, rest⟩ := kept.hold now seq item
    refine ⟨last, ?_⟩
    calc {item} + windowItems e.slots
        = disposedItems before + ({item} + windowItems m.slots) := by rw [items]; abel
      _ = _ := by rw [rest, disposedItems_append, add_assoc]

end Entry

end NeEncryptor.Reorder
