import Mathlib.Data.Fintype.Basic
import Mathlib.Logic.Function.Basic
import NeEncryptor.Lib.SerialNumber
import NeEncryptor.Lib.Ways

/-!
# UDP reorder buffer

The reorder table of one worker (`udp_reorder.c`): 128 sets of 4 flows, each with a window of 256 slots.
Every operation returns the new state together with the callbacks it made, in order.
-/

namespace NeEncryptor.Reorder

open SerialNumber

/-- `struct dp_udp_reorder_key`. -/
structure Key where
  srcIp : BitVec 32
  dstIp : BitVec 32
  srcPort : BitVec 16
  dstPort : BitVec 16
  deriving DecidableEq, Repr

/-- `key_hash`. -/
def keyHash (key : Key) : BitVec 32 :=
  let h := key.srcIp ^^^ (key.dstIp * 0x9e3779b9)
  let h := h ^^^ ((key.srcPort.setWidth 32 <<< 16) ||| key.dstPort.setWidth 32)
  let h := h ^^^ (h >>> 16)
  let h := h * 0x85ebca6b
  let h := h ^^^ (h >>> 13)
  let h := h * 0xc2b2ae35
  h ^^^ (h >>> 16)

/-- A valid `struct udp_reorder_slot`. -/
structure Slot (α : Type*) where
  item : α
  seq : Seq
  deriving DecidableEq, Repr

/-- A valid `struct udp_reorder_flow`. -/
structure Flow where
  key : Key
  epoch : BitVec 32
  nextSeq : Seq
  gapSinceNs : BitVec 64
  lastSeenNs : BitVec 64
  stamp : BitVec 64
  held : ℕ
  deriving DecidableEq, Repr

/-- A callback, or a write to `next_seq` that no callback goes with. -/
inductive Event (α : Type*)
  /-- `flow_reset`. -/
  | reset (next : Seq)
  /-- `next_seq` skips missing sequence numbers. -/
  | gap (next : Seq)
  /-- `ops.emit`, and whether it succeeded. -/
  | emit (seq : Seq) (item : α) (sent : Bool)
  /-- `ops.drop`. -/
  | drop (item : α)
  deriving Repr

/-- A flow with its slots and the worker's counter of held packets. -/
structure Entry (α : Type*) where
  flow : Flow
  slots : Fin 256 → Option (Slot α)
  total : ℕ

/-- `UDP_REORDER_HELD_CAP`. -/
def heldCap : ℕ := 8192

variable {α : Type*}

/-- `item_emit`. -/
def itemEmit (emit : α → Bool) (seq : Seq) (item : α) : List (Event α) :=
  if emit item then [.emit seq item true] else [.emit seq item false, .drop item]

namespace Entry

/-- A write to `next_seq`. -/
def advance (next : Seq) (e : Entry α) : Entry α :=
  { e with flow := { e.flow with nextSeq := next } }

/-- A write to `gap_since_ns`. -/
def setGap (since : BitVec 64) (e : Entry α) : Entry α :=
  { e with flow := { e.flow with gapSinceNs := since } }

/-- The slot at the place of `next_seq` is released. -/
def release (e : Entry α) : Entry α where
  flow := { e.flow with held := e.flow.held - 1, nextSeq := e.flow.nextSeq + 1 }
  slots := Function.update e.slots (place e.flow.nextSeq) none
  total := e.total - 1

/-- The loop of `flow_flush_contiguous`; a window holds no more than 256 slots to release. -/
def flushLoop (emit : α → Bool) : ℕ → Entry α → Entry α × List (Event α)
  | 0, e => (e, [])
  | fuel + 1, e =>
    match e.slots (place e.flow.nextSeq) with
    | none => (e, [])
    | some slot =>
      if slot.seq = e.flow.nextSeq then
        let (e₁, events) := flushLoop emit fuel e.release
        (e₁, itemEmit emit slot.seq slot.item ++ events)
      else (e, [])

/-- The end of `flow_flush_contiguous`. -/
def closeGap (e : Entry α) : Entry α := e.setGap (if e.flow.held ≠ 0 then e.flow.gapSinceNs else 0)

/-- `flow_flush_contiguous`. -/
def flowFlushContiguous (emit : α → Bool) (e : Entry α) : Entry α × List (Event α) :=
  let (e₁, events) := e.flushLoop emit 256
  (e₁.closeGap, events)

/-- One round of the loop of `flow_smallest_ahead`. -/
def aheadStep (e : Entry α) (best : ℤ × Seq) (i : Fin 256) : ℤ × Seq :=
  match e.slots i with
  | none => best
  | some slot =>
    let d := delta slot.seq e.flow.nextSeq
    if 0 ≤ d ∧ d < best.1 then (d, slot.seq) else best

/-- `flow_smallest_ahead`, with the distance that it returns. -/
def flowSmallestAhead (e : Entry α) : Option (ℤ × Seq) :=
  let best := (List.finRange 256).foldl e.aheadStep (2147483647, 0)
  if best.1 = 2147483647 then none else some best

/-- `flow_skip_gap`. -/
def flowSkipGap (emit : α → Bool) (e : Entry α) : Entry α × List (Event α) :=
  match e.flowSmallestAhead with
  | none => (e.setGap 0, [])
  | some (d, seq) =>
    let skips := 0 < d
    let (e₁, events) := (if skips then e.advance seq else e).flowFlushContiguous emit
    (if e₁.flow.held ≠ 0 then e₁.setGap e₁.flow.lastSeenNs else e₁,
      (if skips then [.gap seq] else []) ++ events)

/-- The packet lies outside the window. -/
def beyondWindow (seq : Seq) (e : Entry α) : Bool := 256 ≤ delta seq e.flow.nextSeq

/-- The condition of the loop of `flow_make_window_room`. -/
def crowded (seq : Seq) (e : Entry α) : Bool := e.flow.held ≠ 0 && e.beyondWindow seq

/-- Rounds of the loop of `flow_make_window_room`. -/
def roomLoop (emit : α → Bool) (seq : Seq) : ℕ → Entry α → Entry α × List (Event α)
  | 0, e => (e, [])
  | fuel + 1, e =>
    if e.crowded seq then
      let (e₁, events) := e.flowSkipGap emit
      let (e₂, more) := roomLoop emit seq fuel e₁
      (e₂, events ++ more)
    else (e, [])

/-- The end of `flow_make_window_room`. -/
def jumpToWindow (seq : Seq) (e : Entry α) : Entry α × List (Event α) :=
  if e.beyondWindow seq then (e.advance (seq - 255), [.gap (seq - 255)]) else (e, [])

/-- `flow_make_window_room`, and whether it returns.  A round of its loop that releases no packet
repeats for ever, so a loop that goes on after as many rounds as packets were held does not end. -/
def flowMakeWindowRoom (emit : α → Bool) (seq : Seq) (e : Entry α) :
    Entry α × List (Event α) × Bool :=
  let (e₁, rounds) := e.roomLoop emit seq e.flow.held
  if e₁.crowded seq then (e₁, rounds, false)
  else
    let (e₂, jump) := e₁.jumpToWindow seq
    (e₂, rounds ++ jump, true)

/-- The packet is `next_seq`: it is emitted, and what follows it is flushed. -/
def emitInOrder (emit : α → Bool) (seq : Seq) (item : α) (e : Entry α) : Entry α × List (Event α) :=
  let (e₁, events) := (e.advance (e.flow.nextSeq + 1)).flowFlushContiguous emit
  (e₁, itemEmit emit seq item ++ events)

/-- A write to a slot. -/
def store (seq : Seq) (item : α) (e : Entry α) : Entry α :=
  { e with slots := Function.update e.slots (place seq) (some ⟨item, seq⟩) }

/-- One more packet is held. -/
def count (e : Entry α) : Entry α :=
  { e with flow := { e.flow with held := e.flow.held + 1 }, total := e.total + 1 }

/-- The gap starts now unless there is one. -/
def startGap (now : BitVec 64) (e : Entry α) : Entry α :=
  e.setGap (if e.flow.gapSinceNs = 0 then now else e.flow.gapSinceNs)

/-- The end of `dp_udp_reorder_submit`: the packet is held in its slot. -/
def hold (now : BitVec 64) (seq : Seq) (item : α) (e : Entry α) : Entry α × List (Event α) :=
  match e.slots (place seq) with
  | some slot =>
    if slot.seq = seq then (e, [.drop item])
    else ((e.store seq item).startGap now, [.drop slot.item])
  | none => ((e.count.store seq item).startGap now, [])

/-- The held cap and the slot: what `dp_udp_reorder_submit` does with a packet inside the window. -/
def holdCapped (emit : α → Bool) (now : BitVec 64) (seq : Seq) (item : α) (e : Entry α) :
    Entry α × List (Event α) :=
  if heldCap ≤ e.total then
    let (e₁, events) := e.flowSkipGap emit
    if heldCap ≤ e₁.total then (e₁, events ++ [.drop item])
    else
      let (e₂, events₁) := e₁.hold now seq item
      (e₂, events ++ events₁)
  else e.hold now seq item

/-- The hold time of the oldest gap is over. -/
def gapExpired (holdNs now : BitVec 64) (e : Entry α) : Bool :=
  e.flow.held ≠ 0 && e.flow.gapSinceNs != 0 && holdNs ≤ now - e.flow.gapSinceNs

/-- A skip once the hold time is over. -/
def expireGap (emit : α → Bool) (holdNs now : BitVec 64) (e : Entry α) : Entry α × List (Event α) :=
  if e.gapExpired holdNs now then e.flowSkipGap emit else (e, [])

/-- `dp_udp_reorder_submit` once room in the window was made. -/
def submitInWindow (emit : α → Bool) (now : BitVec 64) (seq : Seq) (item : α) (e : Entry α) :
    Entry α × List (Event α) :=
  if delta seq e.flow.nextSeq < 0 then (e, [.drop item])
  else if delta seq e.flow.nextSeq = 0 then e.emitInOrder emit seq item
  else e.holdCapped emit now seq item

/-- `dp_udp_reorder_submit` once the hold time was looked at, and whether it returns. -/
def submitChecked (emit : α → Bool) (now : BitVec 64) (seq : Seq) (item : α) (e : Entry α) :
    Entry α × List (Event α) × Bool :=
  if delta seq e.flow.nextSeq < 0 then (e, [.drop item], true)
  else if delta seq e.flow.nextSeq = 0 then
    let (e₁, events) := e.emitInOrder emit seq item
    (e₁, events, true)
  else
    match e.flowMakeWindowRoom emit seq with
    | (e₁, room, false) => (e₁, room, false)
    | (e₁, room, true) =>
      let (e₂, events) := e₁.submitInWindow emit now seq item
      (e₂, room ++ events, true)

/-- `dp_udp_reorder_submit` on the flow that it has looked up, and whether it returns. -/
def submit (emit : α → Bool) (holdNs now : BitVec 64) (seq : Seq) (item : α) (e : Entry α) :
    Entry α × List (Event α) × Bool :=
  let (e₁, expired) := e.expireGap emit holdNs now
  let (e₂, events, returned) := e₁.submitChecked emit now seq item
  (e₂, expired ++ events, returned)

end Entry

/-- The state of `udp_reorder.c` for one worker. -/
structure Worker (α : Type*) where
  flows : Fin 512 → Option Flow
  slots : Fin 512 → Fin 256 → Option (Slot α)
  /-- `g_held_by_worker`. -/
  held : ℕ
  gcCursor : Fin 512
  /-- `g_stamp_by_worker`. -/
  stamp : BitVec 64

/-- A flow of a set. -/
def wayOf (set : Fin 128) (way : Fin 4) : Fin 512 := ⟨set * 4 + way, by omega⟩

/-- The set of a key. -/
def setOf (key : Key) : Fin 128 := ⟨(keyHash key).toNat % 128, Nat.mod_lt _ (by decide)⟩

namespace Worker

def initial : Worker α := ⟨fun _ => none, fun _ _ => none, 0, 0, 0⟩

/-- The drops of `flow_drop_slots`. -/
def slotDrops (slots : Fin 256 → Option (Slot α)) : List (Event α) :=
  (List.finRange 256).filterMap fun i => (slots i).map fun slot => .drop slot.item

/-- `flow_drop_slots`, without the fields of the flow that its callers overwrite. -/
def flowDropSlots (idx : Fin 512) (w : Worker α) : Worker α × List (Event α) :=
  let drops := slotDrops (w.slots idx)
  ({ w with
    slots := Function.update w.slots idx fun _ => none
    held := w.held - drops.length }, drops)

/-- `flow_drop_slots` where the flow is valid. -/
def dropValid (idx : Fin 512) (w : Worker α) : Worker α × List (Event α) :=
  if (w.flows idx).isSome then w.flowDropSlots idx else (w, [])

/-- `UDP_REORDER_START_BACKTRACK`, or less at the start of the numbers. -/
def backtrack (firstSeq : Seq) : Seq := if firstSeq < 32 then firstSeq else 32

/-- The flow that `flow_reset` writes. -/
def freshFlow (key : Key) (epoch : BitVec 32) (firstSeq : Seq) (now stamp : BitVec 64) : Flow where
  key := key
  epoch := epoch
  nextSeq := firstSeq - backtrack firstSeq
  gapSinceNs := if backtrack firstSeq ≠ 0 then now else 0
  lastSeenNs := now
  stamp := stamp
  held := 0

/-- `flow_reset`. -/
def flowReset (idx : Fin 512) (key : Key) (epoch : BitVec 32) (firstSeq : Seq) (now : BitVec 64)
    (w : Worker α) : Worker α × List (Event α) :=
  let (w₁, drops) := w.dropValid idx
  let flow := freshFlow key epoch firstSeq now (w₁.stamp + 1)
  ({ w₁ with flows := Function.update w₁.flows idx (some flow), stamp := w₁.stamp + 1 },
    drops ++ [.reset flow.nextSeq])

/-- The stamp of the victim found so far. -/
def victimStamp (w : Worker α) (victim : Fin 512) : BitVec 64 :=
  ((w.flows victim).map Flow.stamp).getD 0

/-- The loop of `flow_lookup`: the flow of the key, or the place for a new one. -/
def scanWays (w : Worker α) (key : Key) (set : Fin 128) : List (Fin 4) → Fin 512 → Fin 512 × Bool
  | [], victim => (victim, false)
  | way :: ways, victim =>
    match w.flows (wayOf set way) with
    | none => (wayOf set way, false)
    | some flow =>
      if flow.key = key then (wayOf set way, true)
      else
        scanWays w key set ways
          (if flow.stamp < w.victimStamp victim then wayOf set way else victim)

def scan (w : Worker α) (key : Key) : Fin 512 × Bool :=
  w.scanWays key (setOf key) (List.finRange 4) (wayOf (setOf key) 0)

/-- The time and the stamp of a use. -/
def touch (idx : Fin 512) (now : BitVec 64) (w : Worker α) : Worker α :=
  { w with
    flows := Function.update w.flows idx
      ((w.flows idx).map fun flow => { flow with lastSeenNs := now, stamp := w.stamp + 1 })
    stamp := w.stamp + 1 }

/-- `flow_lookup`. -/
def flowLookup (key : Key) (epoch : BitVec 32) (firstSeq : Seq) (now : BitVec 64) (w : Worker α) :
    Fin 512 × Worker α × List (Event α) :=
  let (idx, hit) := w.scan key
  if hit then
    if (w.flows idx).any fun flow => flow.epoch != epoch then
      let (w, events) := w.flowReset idx key epoch firstSeq now
      (idx, w.touch idx now, events)
    else (idx, w.touch idx now, [])
  else
    let (w, events) := w.flowReset idx key epoch firstSeq now
    (idx, w, events)

/-- The flow at an index with its slots. -/
def entry (w : Worker α) (idx : Fin 512) (flow : Flow) : Entry α := ⟨flow, w.slots idx, w.held⟩

/-- Writes a flow and its slots back. -/
def put (w : Worker α) (idx : Fin 512) (e : Entry α) : Worker α :=
  { w with
    flows := Function.update w.flows idx (some e.flow)
    slots := Function.update w.slots idx e.slots
    held := e.total }

/-- `UDP_REORDER_FLOW_IDLE_NS`. -/
def flowIdleNs : BitVec 64 := 60000000000

/-- One round of `dp_udp_reorder_gc`. -/
def gcFlow (emit : α → Bool) (holdNs now : BitVec 64) (idx : Fin 512) (w : Worker α) :
    Worker α × List (Event α) :=
  match w.flows idx with
  | none => (w, [])
  | some flow =>
    let (e, events) := (w.entry idx flow).expireGap emit holdNs now
    let w := w.put idx e
    if e.flow.held = 0 ∧ flowIdleNs < now - e.flow.lastSeenNs then
      ({ w with flows := Function.update w.flows idx none }, events)
    else (w, events)

/-- One round of `dp_udp_reorder_reset_worker`. -/
def resetFlow (idx : Fin 512) (w : Worker α) : Worker α × List (Event α) :=
  let (w₁, drops) := w.dropValid idx
  ({ w₁ with flows := Function.update w₁.flows idx none }, drops)

/-- A loop over flows that tags the callbacks with the flow. -/
def forFlows (f : Fin 512 → Worker α → Worker α × List (Event α)) :
    List (Fin 512) → Worker α → Worker α × List (Fin 512 × Event α)
  | [], w => (w, [])
  | idx :: rest, w =>
    let (w, events) := f idx w
    let (w, more) := forFlows f rest w
    (w, events.map (idx, ·) ++ more)

/-- The slice of `dp_udp_reorder_gc`. -/
def gcSlice (w : Worker α) : List (Fin 512) :=
  (List.range 16).map fun n => ⟨(w.gcCursor + n) % 512, Nat.mod_lt _ (by decide)⟩

/-- `dp_udp_reorder_gc`. -/
def dpUdpReorderGc (emit : α → Bool) (holdNs now : BitVec 64) (w : Worker α) :
    Worker α × List (Fin 512 × Event α) :=
  let (w₁, events) := forFlows (gcFlow emit holdNs now) w.gcSlice w
  ({ w₁ with gcCursor := ⟨(w.gcCursor + 16) % 512, Nat.mod_lt _ (by decide)⟩ }, events)

/-- `dp_udp_reorder_reset_worker`. -/
def dpUdpReorderResetWorker (w : Worker α) : Worker α × List (Fin 512 × Event α) :=
  let (w₁, events) := forFlows resetFlow (List.finRange 512) w
  ({ w₁ with held := 0, gcCursor := 0 }, events)

/-- `dp_udp_reorder_submit` with reordering enabled, and whether the call returns. -/
def dpUdpReorderSubmit (emit : α → Bool) (holdNs : BitVec 64) (key : Key) (epoch : BitVec 32)
    (seq : Seq) (item : α) (now : BitVec 64) (w : Worker α) :
    Worker α × List (Fin 512 × Event α) × Bool :=
  let (idx, w, looked) := w.flowLookup key epoch seq now
  match w.flows idx with
  | none => (w, looked.map (idx, ·), true)
  | some flow =>
    let (e, events, returned) := (w.entry idx flow).submit emit holdNs now seq item
    (w.put idx e, (looked ++ events).map (idx, ·), returned)

end Worker

end NeEncryptor.Reorder
