import NeEncryptor.Dataplane.ReorderWindow

/-!
# Accounts of a reorder worker

The counters of a worker's table and the items that it holds, through every call: what goes in is
disposed of or in a slot.
-/

namespace NeEncryptor.Reorder

open SerialNumber

variable {α : Type*}

namespace Worker

/-- The items in the slots of all flows. -/
def heldItems (w : Worker α) : Multiset α := ∑ idx, windowItems (w.slots idx)

/-- The counters of the table. -/
structure Counted (w : Worker α) : Prop where
  free : ∀ idx, w.flows idx = none → ∀ i, w.slots idx i = none
  flow : ∀ idx flow, w.flows idx = some flow → flow.held = (windowItems (w.slots idx)).card
  total : w.held = w.heldItems.card

/-- A step of the table that takes `input` in: no item is lost or doubled. -/
structure Accounts (w : Worker α) (input : Multiset α) (events : List (Event α)) (w' : Worker α) :
    Prop where
  counted : w'.Counted
  items : input + w.heldItems = disposedItems events + w'.heldItems

variable {w w' w'' : Worker α} {idx : Fin 512} {flow : Flow} {input more : Multiset α}
  {events events₁ : List (Event α)} {emit : α → Bool}

theorem counted_initial : (initial : Worker α).Counted where
  free := fun _ _ _ => rfl
  flow := fun _ _ valid => nomatch valid
  total := by simp [initial, heldItems, windowItems_empty]

theorem Counted.accounts_refl (counted : w.Counted) : w.Accounts 0 [] w :=
  ⟨counted, by simp⟩

theorem Accounts.trans (first : w.Accounts input events w') (second : w'.Accounts more events₁ w'') :
    w.Accounts (input + more) (events ++ events₁) w'' where
  counted := second.counted
  items := by
    calc input + more + w.heldItems = more + (input + w.heldItems) := by abel
      _ = disposedItems events + (more + w'.heldItems) := by rw [first.items]; abel
      _ = disposedItems (events ++ events₁) + w''.heldItems := by
        rw [second.items, disposedItems_append, add_assoc]

/-! ## One flow -/

/-- The packets that the other flows hold. -/
def others (w : Worker α) (idx : Fin 512) : ℕ :=
  (∑ j ∈ Finset.univ.erase idx, windowItems (w.slots j)).card

theorem card_heldItems (w : Worker α) (idx : Fin 512) :
    w.heldItems.card = w.others idx + (windowItems (w.slots idx)).card := by
  rw [heldItems, others, ← Finset.add_sum_erase _ _ (Finset.mem_univ idx), Multiset.card_add,
    add_comm]

theorem Counted.entry (counted : w.Counted) (valid : w.flows idx = some flow) :
    (w.entry idx flow).Counted (w.others idx) where
  held := counted.flow idx flow valid
  total := by
    show w.held = w.others idx + flow.held
    rw [counted.total, card_heldItems w idx, counted.flow idx flow valid]

/-- A table that differs from `w` in one flow and its slots. -/
structure Writes (w : Worker α) (idx : Fin 512) (stored : Option Flow)
    (slots : Fin 256 → Option (Slot α)) (w' : Worker α) : Prop where
  flows : w'.flows = Function.update w.flows idx stored
  slots : w'.slots = Function.update w.slots idx slots

theorem Writes.heldItems {stored : Option Flow} {slots : Fin 256 → Option (Slot α)}
    (writes : w.Writes idx stored slots w') :
    windowItems (w.slots idx) + w'.heldItems = windowItems slots + w.heldItems := by
  have sums := sum_update windowItems w.slots idx slots
  rw [← writes.slots] at sums
  rw [Worker.heldItems, Worker.heldItems, sums]

theorem Writes.others {stored : Option Flow} {slots : Fin 256 → Option (Slot α)}
    (writes : w.Writes idx stored slots w') : w'.others idx = w.others idx := by
  unfold Worker.others
  refine congrArg Multiset.card (Finset.sum_congr rfl fun j member => ?_)
  rw [writes.slots, Function.update_of_ne (Finset.ne_of_mem_erase member)]

/-- Writing a flow and slots that agree keeps the counters. -/
theorem Counted.writes {stored : Option Flow} {slots : Fin 256 → Option (Slot α)}
    (counted : w.Counted) (writes : w.Writes idx stored slots w')
    (free : stored = none → windowItems slots = 0)
    (flow : ∀ flow, stored = some flow → flow.held = (windowItems slots).card)
    (total : w'.held = w.others idx + (windowItems slots).card) : w'.Counted := by
  refine ⟨fun j none i => ?_, fun j other valid => ?_, ?_⟩
  · by_cases same : j = idx
    · subst same
      rw [writes.flows, Function.update_self] at none
      rw [writes.slots, Function.update_self]
      exact windowItems_eq_zero (free none) i
    · rw [writes.flows, Function.update_of_ne same] at none
      rw [writes.slots, Function.update_of_ne same]
      exact counted.free j none i
  · by_cases same : j = idx
    · subst same
      rw [writes.flows, Function.update_self] at valid
      rw [writes.slots, Function.update_self]
      exact flow other valid
    · rw [writes.flows, Function.update_of_ne same] at valid
      rw [writes.slots, Function.update_of_ne same]
      exact counted.flow j other valid
  · rw [card_heldItems _ idx, writes.others, writes.slots, Function.update_self, total]

theorem Writes.items {stored : Option Flow} {slots : Fin 256 → Option (Slot α)}
    (writes : w.Writes idx stored slots w')
    (items : input + windowItems (w.slots idx) = disposedItems events + windowItems slots) :
    input + w.heldItems = disposedItems events + w'.heldItems := by
  have cancel : windowItems (w.slots idx) + (input + w.heldItems) =
      windowItems (w.slots idx) + (disposedItems events + w'.heldItems) := by
    calc windowItems (w.slots idx) + (input + w.heldItems)
        = (input + windowItems (w.slots idx)) + w.heldItems := by abel
      _ = disposedItems events + (windowItems slots + w.heldItems) := by rw [items]; abel
      _ = _ := by rw [← writes.heldItems]; abel
  exact Multiset.add_right_inj.mp cancel

theorem writes_put (w : Worker α) (idx : Fin 512) (e : Entry α) :
    w.Writes idx (some e.flow) e.slots (w.put idx e) := ⟨rfl, rfl⟩

theorem Counted.put {e : Entry α} (counted : w.Counted) (written : e.Counted (w.others idx)) :
    (w.put idx e).Counted := by
  refine counted.writes (writes_put w idx e) (fun none => nomatch none) ?_ ?_
  · rintro flow ⟨⟩
    exact written.held
  · show e.total = _
    rw [written.total, written.held]

theorem Counted.accounts_put {e : Entry α} (counted : w.Counted)
    (written : e.Counted (w.others idx))
    (items : input + windowItems (w.slots idx) = disposedItems events + windowItems e.slots) :
    w.Accounts input events (w.put idx e) :=
  ⟨counted.put written, (writes_put w idx e).items items⟩

theorem Counted.accounts_moves {e : Entry α} (counted : w.Counted)
    (valid : w.flows idx = some flow) (moves : Entry.Moves emit (w.entry idx flow) events e) :
    w.Accounts 0 events (w.put idx e) := by
  obtain ⟨kept, items⟩ := (counted.entry valid).moves moves
  exact counted.accounts_put kept (by rw [zero_add]; exact items)

theorem Counted.accounts_submits {now : BitVec 64} {seq : Seq} {item : α} {e : Entry α}
    {returned : Bool} (counted : w.Counted) (valid : w.flows idx = some flow)
    (submits : Entry.Submits emit now seq item (w.entry idx flow) (e, events, returned)) :
    w.Accounts (if returned then {item} else 0) events (w.put idx e) := by
  cases submits with
  | returns arrives =>
    obtain ⟨kept, items⟩ := (counted.entry valid).arrives arrives
    exact counted.accounts_put kept items
  | stuck moves => exact counted.accounts_moves valid moves

/-! ## Flows come and go -/

theorem disposedItems_slotDrops (slots : Fin 256 → Option (Slot α)) :
    disposedItems (slotDrops slots) = windowItems slots := by
  have tail (places : List (Fin 256)) :
      disposedItems (places.filterMap fun i => (slots i).map fun slot => Event.drop slot.item) =
        (places.map fun i => slotItems (slots i)).sum := by
    induction places with
    | nil => rfl
    | cons i places ih =>
      rw [List.map_cons, List.sum_cons, ← ih]
      cases valid : slots i with
      | none => simp [valid, slotItems_none]
      | some slot =>
        rw [List.filterMap_cons_some (by rw [valid]; rfl), slotItems_some,
          ← disposedItems_drop, ← disposedItems_append]
        rfl
  rw [slotDrops, tail, windowItems]
  rfl

theorem length_slotDrops (slots : Fin 256 → Option (Slot α)) :
    (slotDrops slots).length = (windowItems slots).card := by
  have drops : ∀ event ∈ slotDrops slots, ∃ item, event = .drop item := by
    intro event member
    obtain ⟨i, _, dropped⟩ := List.mem_filterMap.mp member
    obtain ⟨slot, _, rfl⟩ := Option.map_eq_some_iff.mp dropped
    exact ⟨slot.item, rfl⟩
  have size (events : List (Event α)) (drops : ∀ event ∈ events, ∃ item, event = .drop item) :
      events.length = (disposedItems events).card := by
    induction events with
    | nil => rfl
    | cons event rest ih =>
      obtain ⟨item, rfl⟩ := drops event List.mem_cons_self
      rw [← List.singleton_append, disposedItems_append, disposedItems_drop, Multiset.card_add,
        Multiset.card_singleton, List.length_append,
        ih fun other member => drops other (List.mem_cons_of_mem _ member)]
      rfl
  rw [size _ drops, disposedItems_slotDrops]

theorem slotDrops_of_empty {slots : Fin 256 → Option (Slot α)} (empty : windowItems slots = 0) :
    slotDrops slots = [] := by
  rw [← List.length_eq_zero_iff, length_slotDrops, empty, Multiset.card_zero]

theorem Counted.windowItems_free (counted : w.Counted) (free : w.flows idx = none) :
    windowItems (w.slots idx) = 0 := by
  rw [funext (counted.free idx free)]
  exact windowItems_empty

/-- Dropping the slots of a flow and storing an empty flow, or none. -/
theorem Counted.accounts_dropped {stored : Option Flow} (counted : w.Counted)
    (empty : ∀ flow, stored = some flow → flow.held = 0)
    (writes : w.Writes idx stored (fun _ => none) w')
    (total : w'.held = w.held - (windowItems (w.slots idx)).card) :
    w.Accounts 0 (slotDrops (w.slots idx)) w' where
  counted := by
    refine counted.writes writes (fun _ => windowItems_empty) (fun flow valid => ?_) ?_
    · rw [empty flow valid, windowItems_empty, Multiset.card_zero]
    · rw [total, counted.total, card_heldItems w idx, windowItems_empty, Multiset.card_zero]
      omega
  items := by
    refine writes.items ?_
    rw [disposedItems_slotDrops, windowItems_empty, zero_add, add_zero]

/-- The slots are dropped where the flow is valid; elsewhere there are none. -/
theorem Counted.dropValid (counted : w.Counted) (idx : Fin 512) :
    w.dropValid idx = w.flowDropSlots idx := by
  unfold Worker.dropValid
  cases valid : w.flows idx with
  | some flow => rfl
  | none =>
    have empty := counted.windowItems_free valid
    have same : (fun _ => none) = w.slots idx := (funext (counted.free idx valid)).symm
    simp [flowDropSlots, slotDrops_of_empty empty, same]

theorem Counted.accounts_flowReset (counted : w.Counted) (idx : Fin 512) (key : Key)
    (epoch : BitVec 32) (firstSeq : Seq) (now : BitVec 64) :
    w.Accounts 0 (w.flowReset idx key epoch firstSeq now).2
      (w.flowReset idx key epoch firstSeq now).1 := by
  simp only [flowReset, counted.dropValid idx, flowDropSlots]
  let fresh := freshFlow key epoch firstSeq now (w.stamp + 1)
  have dropped : w.Accounts 0 (slotDrops (w.slots idx))
      { w with
        flows := Function.update w.flows idx (some fresh)
        slots := Function.update w.slots idx fun _ => none
        held := w.held - (slotDrops (w.slots idx)).length
        stamp := w.stamp + 1 } := by
    refine counted.accounts_dropped ?_ ⟨rfl, rfl⟩ ?_
    · rintro flow ⟨⟩
      rfl
    · simp only [length_slotDrops]
  refine ⟨dropped.counted, ?_⟩
  rw [dropped.items, disposedItems_append, disposedItems_reset, add_zero]

theorem Counted.accounts_resetFlow (counted : w.Counted) (idx : Fin 512) :
    w.Accounts 0 (w.resetFlow idx).2 (w.resetFlow idx).1 := by
  simp only [resetFlow, counted.dropValid idx, flowDropSlots]
  refine counted.accounts_dropped ?_ ⟨rfl, rfl⟩ ?_
  · rintro flow ⟨⟩
  · simp only [length_slotDrops]

/-- Writes to the fields of a flow that are no counters. -/
theorem Counted.accounts_field {stored : Flow} (counted : w.Counted)
    (valid : w.flows idx = some flow) (held : stored.held = flow.held)
    (flows : w'.flows = Function.update w.flows idx (some stored)) (slots : w'.slots = w.slots)
    (total : w'.held = w.held) : w.Accounts 0 [] w' := by
  have writes : w.Writes idx (some stored) (w.slots idx) w' :=
    ⟨flows, by rw [slots, Function.update_eq_self]⟩
  refine ⟨counted.writes writes (fun none => nomatch none) ?_ ?_, writes.items (by simp)⟩
  · rintro other ⟨⟩
    rw [held, counted.flow idx flow valid]
  · rw [total, counted.total, card_heldItems w idx]

theorem Counted.accounts_touch (counted : w.Counted) (valid : w.flows idx = some flow)
    (now : BitVec 64) : w.Accounts 0 [] (w.touch idx now) := by
  refine counted.accounts_field valid (?_ : Flow.held { flow with
    lastSeenNs := now, stamp := w.stamp + 1 } = flow.held) ?_ rfl rfl
  · rfl
  · simp only [touch, valid, Option.map_some]

/-- Freeing a flow that holds no packets. -/
theorem Counted.accounts_free (counted : w.Counted) (valid : w.flows idx = some flow)
    (held : flow.held = 0) :
    w.Accounts 0 [] { w with flows := Function.update w.flows idx none } := by
  have empty : windowItems (w.slots idx) = 0 := by
    rw [← Multiset.card_eq_zero, ← counted.flow idx flow valid, held]
  have writes : w.Writes idx none (w.slots idx) { w with flows := Function.update w.flows idx none } :=
    ⟨rfl, by rw [Function.update_eq_self]⟩
  refine ⟨counted.writes writes (fun _ => empty) (fun _ none => nomatch none) ?_,
    writes.items (by simp)⟩
  show w.held = _
  rw [counted.total, card_heldItems w idx]

/-! ## Calls -/

theorem scanWays_hit {key : Key} {set : Fin 128} {ways : List (Fin 4)} {victim : Fin 512}
    (hit : w.scanWays key set ways victim = (idx, true)) :
    ∃ flow, w.flows idx = some flow ∧ flow.key = key := by
  induction ways generalizing victim with
  | nil => simp [scanWays] at hit
  | cons way ways ih =>
    unfold scanWays at hit
    split at hit
    · simp at hit
    · rename_i flow valid
      split at hit
      · rename_i same
        rw [Prod.mk.injEq] at hit
        exact ⟨flow, hit.1 ▸ valid, same⟩
      · exact ih hit

/-- What `flow_lookup` does: the flow of the key is used, or a new one is written. -/
inductive Looks (w : Worker α) (key : Key) (epoch : BitVec 32) (seq : Seq) (now : BitVec 64) :
    Fin 512 × Worker α × List (Event α) → Prop
  | found {idx : Fin 512} {flow : Flow} (scanned : w.scan key = (idx, true))
      (valid : w.flows idx = some flow) (same : flow.key = key) (current : flow.epoch = epoch) :
      Looks w key epoch seq now (idx, w.touch idx now, [])
  | outdated {idx : Fin 512} (scanned : w.scan key = (idx, true)) :
      Looks w key epoch seq now
        (idx, (w.flowReset idx key epoch seq now).1.touch idx now,
          (w.flowReset idx key epoch seq now).2)
  | missed {idx : Fin 512} (scanned : w.scan key = (idx, false)) :
      Looks w key epoch seq now
        (idx, (w.flowReset idx key epoch seq now).1, (w.flowReset idx key epoch seq now).2)

theorem looks_flowLookup (w : Worker α) (key : Key) (epoch : BitVec 32) (seq : Seq)
    (now : BitVec 64) : w.Looks key epoch seq now (w.flowLookup key epoch seq now) := by
  cases scanned : w.scan key with
  | mk idx hit =>
    cases hit with
    | true =>
      obtain ⟨flow, valid, same⟩ := scanWays_hit scanned
      by_cases current : flow.epoch = epoch
      · have found : w.Looks key epoch seq now _ := .found scanned valid same current
        simpa [flowLookup, scanned, valid, current] using found
      · have outdated : w.Looks key epoch seq now _ := .outdated scanned
        simpa [flowLookup, scanned, valid, current] using outdated
    | false =>
      have missed : w.Looks key epoch seq now _ := .missed scanned
      simpa [flowLookup, scanned] using missed

theorem dropValid_flows (w : Worker α) (idx : Fin 512) : (w.dropValid idx).1.flows = w.flows := by
  unfold dropValid
  split <;> rfl

theorem dropValid_stamp (w : Worker α) (idx : Fin 512) : (w.dropValid idx).1.stamp = w.stamp := by
  unfold dropValid
  split <;> rfl

theorem flowReset_flows (w : Worker α) (idx : Fin 512) (key : Key) (epoch : BitVec 32) (seq : Seq)
    (now : BitVec 64) :
    (w.flowReset idx key epoch seq now).1.flows =
      Function.update w.flows idx (some (freshFlow key epoch seq now (w.stamp + 1))) := by
  simp only [flowReset, dropValid_flows, dropValid_stamp]

theorem flowReset_valid (w : Worker α) (idx : Fin 512) (key : Key) (epoch : BitVec 32) (seq : Seq)
    (now : BitVec 64) :
    (w.flowReset idx key epoch seq now).1.flows idx =
      some (freshFlow key epoch seq now (w.stamp + 1)) := by
  rw [flowReset_flows, Function.update_self]

theorem touch_flows (valid : w.flows idx = some flow) (now : BitVec 64) :
    (w.touch idx now).flows = Function.update w.flows idx
      (some { flow with lastSeenNs := now, stamp := w.stamp + 1 }) := by
  simp only [touch, valid, Option.map_some]

theorem Looks.valid {key : Key} {epoch : BitVec 32} {seq : Seq} {now : BitVec 64}
    (looks : w.Looks key epoch seq now (idx, w', events)) : ∃ flow, w'.flows idx = some flow := by
  cases looks with
  | found _ valid => exact ⟨_, by rw [touch_flows valid, Function.update_self]⟩
  | outdated =>
    exact ⟨_, by rw [touch_flows (flowReset_valid w idx key epoch seq now), Function.update_self]⟩
  | missed => exact ⟨_, flowReset_valid w idx key epoch seq now⟩

/-- Looking up a flow adds no packets. -/
theorem Looks.slots_none {key : Key} {epoch : BitVec 32} {seq : Seq} {now : BitVec 64}
    (looks : w.Looks key epoch seq now (idx, w', events)) (empty : ∀ j i, w.slots j i = none)
    (j : Fin 512) (i : Fin 256) : w'.slots j i = none := by
  have dropped : (w.dropValid idx).1.slots j i = none := by
    unfold dropValid
    split
    · by_cases same : j = idx
      · simp [flowDropSlots, same]
      · simp only [flowDropSlots, Function.update_of_ne same]
        exact empty j i
    · exact empty j i
  cases looks with
  | found => exact empty j i
  | outdated => exact dropped
  | missed => exact dropped

theorem Counted.accounts_looks {key : Key} {epoch : BitVec 32} {seq : Seq} {now : BitVec 64}
    (counted : w.Counted) (looks : w.Looks key epoch seq now (idx, w', events)) :
    w.Accounts 0 events w' := by
  cases looks with
  | found _ valid => exact counted.accounts_touch valid now
  | outdated =>
    have reset := counted.accounts_flowReset idx key epoch seq now
    have fresh := flowReset_valid w idx key epoch seq now
    simpa using reset.trans (reset.counted.accounts_touch fresh now)
  | missed => exact counted.accounts_flowReset idx key epoch seq now

theorem Counted.accounts_gcFlow (counted : w.Counted) (emit : α → Bool) (holdNs now : BitVec 64)
    (idx : Fin 512) :
    w.Accounts 0 (w.gcFlow emit holdNs now idx).2 (w.gcFlow emit holdNs now idx).1 := by
  unfold gcFlow
  split
  · exact counted.accounts_refl
  · rename_i flow valid
    have moves := Entry.moves_expireGap emit holdNs now (w.entry idx flow)
    generalize (w.entry idx flow).expireGap emit holdNs now = result at moves
    obtain ⟨e, events⟩ := result
    have moved := counted.accounts_moves valid moves
    simp only
    split
    · rename_i idle
      have stored : (w.put idx e).flows idx = some e.flow := Function.update_self ..
      simpa using moved.trans (moved.counted.accounts_free stored idle.1)
    · exact moved

/-- A property of the table and of what was logged, kept by every round, is kept by the loop. -/
theorem forFlows_induct {P : List (Fin 512 × Event α) → Worker α → Prop}
    {f : Fin 512 → Worker α → Worker α × List (Event α)}
    (kept : ∀ idx log w, P log w → P (log ++ (f idx w).2.map (idx, ·)) (f idx w).1)
    (places : List (Fin 512)) {log : List (Fin 512 × Event α)} (before : P log w) :
    P (log ++ (forFlows f places w).2) (forFlows f places w).1 := by
  induction places generalizing log w with
  | nil => simpa [forFlows] using before
  | cons idx places ih =>
    have rest := ih (kept idx log w before)
    rwa [List.append_assoc] at rest

/-- An invariant of the table that every round keeps. -/
theorem forFlows_keeps {I : Worker α → Prop} {f : Fin 512 → Worker α → Worker α × List (Event α)}
    (kept : ∀ idx w, I w → I (f idx w).1) (places : List (Fin 512)) (before : I w) :
    I (forFlows f places w).1 := by
  induction places generalizing w with
  | nil => exact before
  | cons idx places ih => exact ih (kept idx w before)

/-- The callbacks without their flows. -/
def callbacks (log : List (Fin 512 × Event α)) : List (Event α) := log.map Prod.snd

theorem callbacks_tagged (idx : Fin 512) (events : List (Event α)) :
    callbacks (events.map (idx, ·)) = events := by
  simp [callbacks, Function.comp_def]

theorem callbacks_append (log more : List (Fin 512 × Event α)) :
    callbacks (log ++ more) = callbacks log ++ callbacks more :=
  List.map_append

theorem Counted.accounts_forFlows {f : Fin 512 → Worker α → Worker α × List (Event α)}
    (round : ∀ idx (w : Worker α), w.Counted → w.Accounts 0 (f idx w).2 (f idx w).1)
    (places : List (Fin 512)) (counted : w.Counted) :
    w.Accounts 0 (callbacks (forFlows f places w).2) (forFlows f places w).1 := by
  have kept (idx : Fin 512) (log : List (Fin 512 × Event α)) (w' : Worker α)
      (accounts : w.Accounts 0 (callbacks log) w') :
      w.Accounts 0 (callbacks (log ++ (f idx w').2.map (idx, ·))) (f idx w').1 := by
    rw [callbacks_append, callbacks_tagged]
    simpa using accounts.trans (round idx w' accounts.counted)
  have before : w.Accounts 0 (callbacks []) w := counted.accounts_refl
  simpa using forFlows_induct kept places before

theorem Counted.accounts_gc (counted : w.Counted) (emit : α → Bool) (holdNs now : BitVec 64) :
    w.Accounts 0 (callbacks (w.dpUdpReorderGc emit holdNs now).2)
      (w.dpUdpReorderGc emit holdNs now).1 := by
  have loop := counted.accounts_forFlows
    (fun idx w counted => counted.accounts_gcFlow emit holdNs now idx) w.gcSlice
  exact ⟨⟨loop.counted.free, loop.counted.flow, loop.counted.total⟩, loop.items⟩

theorem forFlows_resetFlow_flows (places : List (Fin 512)) (w : Worker α) :
    ∀ idx, (forFlows resetFlow places w).1.flows idx = if idx ∈ places then none else w.flows idx := by
  induction places generalizing w with
  | nil => simp [forFlows]
  | cons place places ih =>
    intro idx
    simp only [forFlows, ih, resetFlow, dropValid_flows, List.mem_cons]
    by_cases same : idx = place
    · subst same
      simp
    · simp [same]

theorem Counted.accounts_resetWorker (counted : w.Counted) :
    w.Accounts 0 (callbacks w.dpUdpReorderResetWorker.2) w.dpUdpReorderResetWorker.1 := by
  have loop := counted.accounts_forFlows (fun idx w counted => counted.accounts_resetFlow idx)
    (List.finRange 512)
  have freed (idx : Fin 512) : (forFlows resetFlow (List.finRange 512) w).1.flows idx = none := by
    rw [forFlows_resetFlow_flows, if_pos (List.mem_finRange idx)]
  simp only [dpUdpReorderResetWorker]
  generalize forFlows resetFlow (List.finRange 512) w = result at loop freed
  have empty : result.1.heldItems = 0 := by
    rw [heldItems]
    exact Finset.sum_eq_zero fun idx _ => loop.counted.windowItems_free (freed idx)
  have total : Multiset.card result.1.heldItems = 0 := Multiset.card_eq_zero.mpr empty
  exact ⟨⟨loop.counted.free, loop.counted.flow, total.symm⟩, loop.items⟩

theorem Counted.accounts_submit (counted : w.Counted) (emit : α → Bool) (holdNs : BitVec 64)
    (key : Key) (epoch : BitVec 32) (seq : Seq) (item : α) (now : BitVec 64) :
    w.Accounts (if (w.dpUdpReorderSubmit emit holdNs key epoch seq item now).2.2 then {item} else 0)
      (callbacks (w.dpUdpReorderSubmit emit holdNs key epoch seq item now).2.1)
      (w.dpUdpReorderSubmit emit holdNs key epoch seq item now).1 := by
  have looks := looks_flowLookup w key epoch seq now
  unfold dpUdpReorderSubmit
  generalize w.flowLookup key epoch seq now = looked at looks
  obtain ⟨idx, w₁, events⟩ := looked
  have accounts := counted.accounts_looks looks
  obtain ⟨flow, valid⟩ := looks.valid
  have submits := Entry.submits_submit emit holdNs now seq item (w₁.entry idx flow)
  simp only [valid]
  generalize (w₁.entry idx flow).submit emit holdNs now seq item = result at submits
  obtain ⟨e, more, returned⟩ := result
  have submitted := accounts.trans (accounts.counted.accounts_submits valid submits)
  rw [zero_add] at submitted
  simpa only [callbacks_tagged] using submitted

/-! ## Places -/

/-- Every packet of the table is at the place of its number. -/
def Placed (w : Worker α) : Prop := ∀ idx i slot, w.slots idx i = some slot → place slot.seq = i

theorem Placed.put {e : Entry α} (placed : w.Placed) (written : e.Placed) :
    (w.put idx e).Placed := by
  intro j i slot valid
  by_cases same : j = idx
  · subst same
    rw [(writes_put w j e).slots, Function.update_self] at valid
    exact written i slot valid
  · rw [(writes_put w idx e).slots, Function.update_of_ne same] at valid
    exact placed j i slot valid

theorem Placed.dropValid (placed : w.Placed) (idx : Fin 512) : (w.dropValid idx).1.Placed := by
  unfold Worker.dropValid
  split
  · intro j i slot valid
    by_cases same : j = idx
    · subst same
      simp [flowDropSlots] at valid
    · simp only [flowDropSlots, Function.update_of_ne same] at valid
      exact placed j i slot valid
  · exact placed

theorem Placed.looks {key : Key} {epoch : BitVec 32} {seq : Seq} {now : BitVec 64}
    (placed : w.Placed) (looks : w.Looks key epoch seq now (idx, w', events)) : w'.Placed := by
  cases looks with
  | found => exact placed
  | outdated => exact placed.dropValid idx
  | missed => exact placed.dropValid idx

theorem Placed.gcFlow (placed : w.Placed) (emit : α → Bool) (holdNs now : BitVec 64)
    (idx : Fin 512) : (w.gcFlow emit holdNs now idx).1.Placed := by
  unfold Worker.gcFlow
  split
  · exact placed
  · rename_i flow valid
    have moves := Entry.moves_expireGap emit holdNs now (w.entry idx flow)
    generalize (w.entry idx flow).expireGap emit holdNs now = result at moves
    have entry : (w.entry idx flow).Placed := placed idx
    have moved := (placed.put (entry.moves moves) : (w.put idx result.1).Placed)
    simp only
    split <;> exact moved

theorem Placed.gc (placed : w.Placed) (emit : α → Bool) (holdNs now : BitVec 64) :
    (w.dpUdpReorderGc emit holdNs now).1.Placed :=
  forFlows_keeps (I := Placed) (f := Worker.gcFlow emit holdNs now)
    (fun idx _ placed => placed.gcFlow emit holdNs now idx) w.gcSlice placed

theorem Placed.resetFlow (placed : w.Placed) (idx : Fin 512) : (w.resetFlow idx).1.Placed :=
  placed.dropValid idx

theorem Placed.resetWorker (placed : w.Placed) : w.dpUdpReorderResetWorker.1.Placed := by
  have loop := forFlows_keeps (I := Placed) (f := Worker.resetFlow)
    (fun idx _ placed => placed.resetFlow idx) (List.finRange 512) placed
  simp only [dpUdpReorderResetWorker]
  generalize Worker.forFlows Worker.resetFlow (List.finRange 512) w = result at loop ⊢
  exact loop

theorem Placed.submit (placed : w.Placed) (emit : α → Bool) (holdNs : BitVec 64)
    (key : Key) (epoch : BitVec 32) (seq : Seq) (item : α) (now : BitVec 64) :
    (w.dpUdpReorderSubmit emit holdNs key epoch seq item now).1.Placed := by
  have looks := looks_flowLookup w key epoch seq now
  unfold dpUdpReorderSubmit
  generalize w.flowLookup key epoch seq now = looked at looks
  obtain ⟨idx, w₁, events⟩ := looked
  have placed₁ := placed.looks looks
  obtain ⟨flow, valid⟩ := looks.valid
  have entry : (w₁.entry idx flow).Placed := placed₁ idx
  have submits := Entry.submits_submit emit holdNs now seq item (w₁.entry idx flow)
  simp only [valid]
  generalize (w₁.entry idx flow).submit emit holdNs now seq item = result at submits
  obtain ⟨e, more, returned⟩ := result
  exact placed₁.put (entry.submits submits)

end Worker

end NeEncryptor.Reorder
