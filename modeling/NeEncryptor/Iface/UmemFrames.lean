import Mathlib.Data.Int.Order.Basic
import NeEncryptor.Forwarder.WanConfig
import NeEncryptor.Lib.Places
import NeEncryptor.Lib.Transition

/-!
# The frames of the UMEM

Where each frame is: in the pool, in a ring of a socket, in the batch of a receive thread or with
the dataplane.  The threads of `forwarder.c` and the kernel move frames, while a reload attaches
WANs (`profile_lifecycle.c`) and brings down those that fail (`xdp_interface.c`).

A frame is its number, its address over `NE_FRAME`.  `lan_added` is never written, so a rollback
has no LAN to bring down.
-/

namespace NeEncryptor.Umem

open Transition

/-- `NE_RING`. -/
def neRing : ℕ := 16384

/-- `NE_N_FRAMES`. -/
def neNFrames : ℕ := 1048576

/-- `NE_BATCH_SIZE`. -/
def neBatchSize : ℕ := 64

/-- `NE_FQ_PREFILL`. -/
def neFqPrefill : ℕ := 16384

/-- `NE_XSK_COPY_TX_BATCH`. -/
def neXskCopyTxBatch : ℕ := 32

/-- `NE_TX_SLOTS`. -/
def neTxSlots : ℕ := 4

/-- `enum ne_packet_dir`. -/
inductive NePacketDir
  | dirLocal
  | dirWan
  deriving DecidableEq, Repr

/-- `NE_RX_LAN_SLOTS` and `NE_RX_WAN_SLOTS`. -/
def neRxSlots : NePacketDir → ℕ
  | .dirLocal => 1
  | .dirWan => 1

/-- An entry of `locals` or of `wans`. -/
structure NeIface where
  dir : NePacketDir
  idx : ℕ
  deriving DecidableEq, Repr

/-- A receive thread. -/
structure RxThread where
  dir : NePacketDir
  slot : ℕ
  deriving DecidableEq, Repr

/-- Where a frame can be. -/
inductive FrameLoc
  | pool
  | fq (i : NeIface) (q : ℕ)
  | rx (i : NeIface) (q : ℕ)
  /-- Received by a thread that has not dealt with it yet. -/
  | batch (t : RxThread)
  /-- In the rings and stores of the dataplane. -/
  | dataplane
  | tx (i : NeIface) (q : ℕ)
  | cq (i : NeIface) (q : ℕ)
  deriving DecidableEq, Repr

/-- Where a receive thread is in its loop. -/
inductive RxPc
  | refill
  | receive
  | process
  deriving DecidableEq, Repr

/-- Where TX thread 0 is in `profile_iface_xdp_sync_wan_live`. -/
inductive AttachPc
  | idle
  /-- Between two rows of `profile_iface_life_attach_wan_rows`. -/
  | rows
  /-- `want` frames short of filling queue `q`, in `prefill_iface`. -/
  | prefill (slot q want : ℕ)
  /-- Calls `profile_iface_xdp_bind_wan`. -/
  | bind (slot : ℕ)
  /-- Calls `profile_iface_xdp_detach_wan`, in `ne_pair_unplumb_wan_dp`. -/
  | detach (slot : ℕ)
  /-- At queue `q` in `reclaim_iface_umem_frames`. -/
  | reclaim (slot q : ℕ)
  /-- Calls `delete_iface_xsks`. -/
  | delete (slot : ℕ)
  /-- In `profile_iface_life_attach_rollback`. -/
  | rollback
  deriving DecidableEq, Repr

/-- The slot of the WAN that is being brought up or down. -/
def AttachPc.slot : AttachPc → Option ℕ
  | .prefill slot _ _ | .bind slot | .detach slot | .reclaim slot _ | .delete slot => some slot
  | .idle | .rows | .rollback => none

/-- What becomes of `ne_pair_plumb_wan_dp` up to the prefill. -/
inductive PlumbResult
  /-- The interface or its queue count is refused, or its rings in `fwd_ensure_mid_wan_rings`. -/
  | notReady
  /-- `interface_set_promisc` fails. -/
  | noPromisc
  /-- `open_iface_queues` fails. -/
  | noSocket
  | opened
  deriving DecidableEq, Repr

/-- What becomes of `profile_iface_xdp_bind_wan`. -/
inductive BindResult
  | bound
  /-- The interface is gone, or its XDP program cannot be opened or attached. -/
  | notAttached
  /-- `update_xsk_map_iface` fails, with the program attached. -/
  | notMapped
  deriving DecidableEq, Repr

/-- `struct ne_pair` as far as frames go, with the threads at work on it.  `pending` are the
descriptors that are read and not released (`rx_pending`), `xdpWanOn` are the WANs that a reload has
given an XDP program (`xdp_wan_on` or `bpf_wans`), and `refused` counts the frames that `pool_push`
had no room for. -/
structure UmemState where
  frames : FrameLoc → List ℕ
  pending : NeIface → ℕ → List ℕ
  xsk : NeIface → ℕ → Bool
  queueCount : NeIface → ℕ
  live : NeIface → Bool
  xdpWanOn : ℕ → Bool
  count : NePacketDir → ℕ
  rxPc : RxThread → RxPc
  attachPc : AttachPc
  wanAdded : List ℕ
  refused : ℕ

namespace UmemState

variable (st : UmemState)

/-- The process has the location, or a socket that exists. -/
def owns : FrameLoc → Bool
  | .pool | .batch _ | .dataplane => true
  | .fq i q | .rx i q | .tx i q | .cq i q => st.xsk i q

/-! ## The pool and the rings of a queue -/

/-- The free slots of the pool. -/
def poolRoom : ℕ := neNFrames - (st.frames .pool).length

/-- `pool_push`. -/
def poolPush (fs : List ℕ) : UmemState :=
  let put := min fs.length st.poolRoom
  { st with
    frames := Function.update st.frames .pool (st.frames .pool ++ fs.take put)
    refused := st.refused + (fs.length - put) }

/-- The first `n` frames of a location are pushed to the pool. -/
def giveBack (src : FrameLoc) (n : ℕ) : UmemState :=
  { st with frames := Function.update st.frames src ((st.frames src).drop n) }.poolPush
    ((st.frames src).take n)

/-- The free slots of a fill ring. -/
def fqRoom (i : NeIface) (q : ℕ) : ℕ := neRing - (st.frames (.fq i q)).length

/-- `got` frames from `pool_pop` go to the fill ring, or back where `xsk_ring_prod__reserve` has no
room for them. -/
def submitFq (i : NeIface) (q got : ℕ) : UmemState :=
  if got ≤ st.fqRoom i q then
    { st with frames := Places.shift st.frames .pool (.fq i q) got }
  else
    { st with frames := Function.update st.frames .pool ((st.frames .pool).drop got) }.poolPush
      ((st.frames .pool).take got)

/-- `refill_fq_queue`. -/
def refillFqQueue (i : NeIface) (q : ℕ) : UmemState :=
  let want := min (st.fqRoom i q) neBatchSize
  let got := min want (st.frames .pool).length
  if got = 0 then st else st.submitFq i q got

/-- A round of `prefill_queue`, with the frames that it still wants. -/
def prefillRound (i : NeIface) (q want : ℕ) : UmemState × ℕ :=
  let got := min (min want neBatchSize) (st.frames .pool).length
  if got = 0 then (st, 0)
  else (st.submitFq i q got, if got ≤ st.fqRoom i q then want - got else 0)

/-- `prefill_queue`. -/
def prefillQueue (i : NeIface) (q : ℕ) : ℕ → ℕ → UmemState → UmemState
  | 0, _, st => st
  | rounds + 1, want, st =>
    if want = 0 then st
    else prefillQueue i q rounds (st.prefillRound i q want).2 (st.prefillRound i q want).1

/-- A round of `drain_cq_queue` on `n` frames: those the pool takes leave the ring. -/
def drainCqRound (i : NeIface) (q n : ℕ) : UmemState :=
  let st' := st.poolPush ((st.frames (.cq i q)).take n)
  { st' with
    frames := Function.update st'.frames (.cq i q)
      ((st.frames (.cq i q)).drop (min n st.poolRoom)) }

/-- The loop of `drain_cq_queue`. -/
def drainCqLoop (i : NeIface) (q : ℕ) : ℕ → UmemState → UmemState
  | 0, st => st
  | rounds + 1, st =>
    let n := min neBatchSize (st.frames (.cq i q)).length
    if n = 0 then st
    else if st.poolRoom < n ∨ n < neBatchSize then st.drainCqRound i q n
    else drainCqLoop i q rounds (st.drainCqRound i q n)

/-- `drain_cq_queue`. -/
def drainCqQueue (i : NeIface) (q : ℕ) : UmemState :=
  drainCqLoop i q ((st.frames (.cq i q)).length + 1) st

/-- `reclaim_rx_queue` on the descriptors that are read and not released. -/
def reclaimPending : ℕ → List ℕ → UmemState → UmemState
  | 0, _, st => st
  | rounds + 1, fs, st =>
    if fs = [] then st
    else reclaimPending rounds (fs.drop neBatchSize) (st.poolPush (fs.take neBatchSize))

/-- `reclaim_rx_queue` on the descriptors that are not read. -/
def reclaimUnread (i : NeIface) (q : ℕ) : ℕ → UmemState → UmemState
  | 0, st => st
  | rounds + 1, st =>
    let n := min neBatchSize (st.frames (.rx i q)).length
    if n = 0 then st
    else if n < neBatchSize then st.giveBack (.rx i q) n
    else reclaimUnread i q rounds (st.giveBack (.rx i q) n)

/-- The thread has released the descriptors it has read. -/
def clearPending (i : NeIface) (q : ℕ) : UmemState :=
  { st with pending := Function.update st.pending i (Function.update (st.pending i) q []) }

/-- `reclaim_rx_queue`. -/
def reclaimRxQueue (i : NeIface) (q : ℕ) : UmemState :=
  let st' := (reclaimPending (st.pending i q).length (st.pending i q) st).clearPending i q
  reclaimUnread i q ((st'.frames (.rx i q)).length + 1) st'

/-- `recv_queue`, where the batch has room. -/
def recvQueue (t : RxThread) (i : NeIface) (q : ℕ) : UmemState :=
  let total := (st.frames (.batch t)).length
  if total < neBatchSize then
    let n := min (neBatchSize - total) (st.frames (.rx i q)).length
    { st with
      frames := Places.shift st.frames (.rx i q) (.batch t) n
      pending := Function.update st.pending i
        (Function.update (st.pending i) q ((st.frames (.rx i q)).take n)) }
  else st

/-! ## Sweeps over the queues of a thread -/

/-- `xsk_queue_for_rx_slot`, and `xsk_queue_for_tx_slot` with `NE_TX_SLOTS`. -/
def xskQueueForSlot (q slot nq maxSlots : ℕ) : Bool :=
  let slots := if nq < maxSlots then (if 0 < nq then nq else 1) else maxSlots
  if slots ≤ slot then false else q % slots = slot

/-- The queues of an interface that a slot serves. -/
def slotQueues (i : NeIface) (slot maxSlots : ℕ) : List ℕ :=
  (List.range (st.queueCount i)).filter fun q =>
    xskQueueForSlot q slot (st.queueCount i) maxSlots

/-- The interfaces of a side. -/
def ifaces (dir : NePacketDir) : List NeIface := (List.range (st.count dir)).map (⟨dir, ·⟩)

/-- The queues of the live interfaces of a side that a slot serves. -/
def liveQueues (dir : NePacketDir) (slot maxSlots : ℕ) : List (NeIface × ℕ) :=
  ((st.ifaces dir).filter st.live).flatMap fun i => (st.slotQueues i slot maxSlots).map (i, ·)

/-- `ne_refill_fq_local_slot` and `ne_refill_fq_wan_slot`. -/
def refillFqSlot (t : RxThread) : UmemState :=
  (st.liveQueues t.dir t.slot (neRxSlots t.dir)).foldl (fun st iq => st.refillFqQueue iq.1 iq.2) st

/-- `ne_recv_local_slot` and `ne_recv_wan_slot`. -/
def recvSlot (t : RxThread) : UmemState :=
  (st.liveQueues t.dir t.slot (neRxSlots t.dir)).foldl (fun st iq => st.recvQueue t iq.1 iq.2) st

/-- `ne_recv_release_local_slot` and `ne_recv_release_wan_slot`. -/
def recvReleaseSlot (t : RxThread) : UmemState :=
  ((st.ifaces t.dir).flatMap fun i =>
      (st.slotQueues i t.slot (neRxSlots t.dir)).map (i, ·)).foldl
    (fun st iq => st.clearPending iq.1 iq.2) st

/-- `ne_drain_cq_local` and `ne_drain_cq_wan`. -/
def drainCqSlot (dir : NePacketDir) (txSlot : ℕ) : UmemState :=
  (st.liveQueues dir txSlot neTxSlots).foldl (fun st iq => st.drainCqQueue iq.1 iq.2) st

/-! ## Interfaces up and down -/

/-- `resolve_iface_queue_count`. -/
def resolveIfaceQueueCount (hw : ℤ) : ℕ := (max 1 (min hw 64)).toNat

/-- `fwd_alloc_wan_slot`. -/
def fwdAllocWanSlot : Option ℕ :=
  match (List.range (st.count .dirWan)).find? fun i => !st.live ⟨.dirWan, i⟩ with
  | some i => some i
  | none => if st.count .dirWan < Wan.maxInterfaces then some (st.count .dirWan) else none

/-- `open_iface_queues`, where it succeeds: new sockets with empty rings. -/
def openIfaceQueues (i : NeIface) (nq : ℕ) : UmemState :=
  { st with
    xsk := Function.update st.xsk i fun q => decide (q < nq) || st.xsk i q
    queueCount := Function.update st.queueCount i nq
    pending := Function.update st.pending i fun q => if q < nq then [] else st.pending i q
    frames := fun l =>
      match l with
      | .fq j q | .rx j q | .tx j q | .cq j q => if j = i ∧ q < nq then [] else st.frames l
      | _ => st.frames l }

/-- `delete_iface_xsks`: the sockets are gone, and what is in their rings is forgotten. -/
def deleteIfaceXsks (i : NeIface) : UmemState :=
  { st with
    xsk := Function.update st.xsk i fun q => st.xsk i q && decide (st.queueCount i ≤ q)
    frames := fun l =>
      match l with
      | .fq j q | .rx j q | .tx j q | .cq j q =>
        if j = i ∧ q < st.queueCount i then [] else st.frames l
      | _ => st.frames l }

/-- `clear_iface_queues_after_delete`. -/
def clearIfaceQueuesAfterDelete (i : NeIface) : UmemState :=
  { st with
    queueCount := Function.update st.queueCount i 0
    pending := Function.update st.pending i fun q =>
      if q < st.queueCount i then [] else st.pending i q }

/-- `profile_iface_xdp_detach_wan`: the sockets of a WAN with an XDP program are deleted. -/
def profileIfaceXdpDetachWan (slot : ℕ) : UmemState :=
  if st.xdpWanOn slot then
    { st.deleteIfaceXsks ⟨.dirWan, slot⟩ with xdpWanOn := Function.update st.xdpWanOn slot false }
  else st

/-- `ne_pair_unplumb_wan_dp` goes on for a live WAN. -/
def unplumbWanDp (slot : ℕ) : UmemState :=
  if slot < st.count .dirWan ∧ st.live ⟨.dirWan, slot⟩ then { st with attachPc := .detach slot }
  else { st with attachPc := .rollback }

/-- `ne_pair_unplumb_wan_dp` up to `reclaim_iface_umem_frames`: the detach, and `wan_live = 0`. -/
def detachWanDp (slot : ℕ) : UmemState :=
  { st.profileIfaceXdpDetachWan slot with
    live := Function.update st.live ⟨.dirWan, slot⟩ false
    attachPc := .reclaim slot 0 }

/-- `ne_pair_plumb_wan_dp` up to the prefill, for a WAN whose interface has `hw` queues. -/
def plumbWanDp (hw : ℤ) (res : PlumbResult) : UmemState :=
  match st.fwdAllocWanSlot, res with
  | none, _ | _, .notReady => { st with attachPc := .rollback }
  | some slot, .noPromisc =>
    { st with
      queueCount := Function.update st.queueCount ⟨.dirWan, slot⟩ (resolveIfaceQueueCount hw)
      attachPc := .rollback }
  | some slot, .noSocket =>
    { st with
      queueCount := Function.update st.queueCount ⟨.dirWan, slot⟩ 0
      attachPc := .rollback }
  | some slot, .opened =>
    { st.openIfaceQueues ⟨.dirWan, slot⟩ (resolveIfaceQueueCount hw) with
      count := Function.update st.count .dirWan (max (st.count .dirWan) (slot + 1))
      attachPc := .prefill slot 0 neFqPrefill }

/-- `profile_iface_life_reconcile_counts`. -/
def reconcileCounts : UmemState :=
  { st with
    count := fun dir => (List.range Wan.maxInterfaces).foldl
      (fun n i => if i < st.count dir ∧ st.live ⟨dir, i⟩ then i + 1 else n) 0 }

/-- The queues that the hardware has, for the interfaces that `ne_pair_open` takes. -/
def openHw (locals wans : List ℤ) : NePacketDir → List ℤ
  | .dirLocal => locals.take Wan.maxInterfaces
  | .dirWan => wans.take Wan.maxInterfaces

/-- The `queue_count` of an interface in `ne_pair_open`. -/
def openQueueCount (locals wans : List ℤ) (i : NeIface) : ℕ :=
  ((openHw locals wans i.dir)[i.idx]?).elim 0 resolveIfaceQueueCount

/-- `ne_pair_open` up to its prefill: all frames are in the pool. -/
def opened (locals wans : List ℤ) : UmemState where
  frames l := if l = .pool then List.range neNFrames else []
  pending _ _ := []
  xsk i q := decide (q < openQueueCount locals wans i)
  queueCount := openQueueCount locals wans
  live _ := false
  xdpWanOn _ := false
  count dir := (openHw locals wans dir).length
  rxPc _ := .refill
  attachPc := .idle
  wanAdded := []
  refused := 0

/-- `prefill_iface`. -/
def prefillIface (i : NeIface) (want : ℕ) : UmemState :=
  (List.range (st.queueCount i)).foldl (fun st q => prefillQueue i q want want st) st

/-- `ne_pair_open`, for interfaces with these numbers of queues. -/
def nePairOpen (locals wans : List ℤ) : UmemState :=
  let st := opened locals wans
  let st := (st.ifaces .dirLocal ++ st.ifaces .dirWan).foldl
    (fun st i => st.prefillIface i neFqPrefill) st
  { st with live := fun i => decide (i.idx < st.count i.dir) }

end UmemState

/-! ## The steps -/

/-- A receive thread refills its fill rings, receives a batch, frees a frame of the batch or hands
it to the dataplane, and releases the batch. -/
inductive RxAct
  | refill
  | receive
  | free
  | handOver
  | release

/-- A reload attaches WANs, one that has `hw` queues, and is done with them; or it brings down the
next WAN of a rollback. -/
inductive AttachAct
  | rows
  | plumb (hw : ℤ) (res : PlumbResult)
  | prefill
  | bind (res : BindResult)
  | attached
  | rollback
  | detach
  | reclaim
  | delete

inductive UmemAct
  | rx (t : RxThread) (a : RxAct)
  /-- `tx_drain_queue` of these frames. -/
  | txDrain (i : NeIface) (txSlot : ℕ) (fs : List ℕ)
  | drainCq (dir : NePacketDir) (txSlot : ℕ)
  /-- `ne_frame_alloc_batch`, and `ne_frame_alloc` with one frame. -/
  | frameAlloc (n : ℕ)
  | frameFree (f : ℕ)
  /-- The kernel receives into a frame. -/
  | kernelRx (i : NeIface) (q f : ℕ)
  /-- The kernel has sent a frame. -/
  | kernelTx (i : NeIface) (q : ℕ) (i' : NeIface) (q' f : ℕ)
  | attach (a : AttachAct)

namespace UmemState

variable (st : UmemState)

/-- The loops of `local_rx_thread` and `wan_rx_thread`. -/
def stepRx (t : RxThread) : RxAct → Option UmemState
  | .refill =>
    if t.slot < neRxSlots t.dir ∧ st.rxPc t = .refill then
      some { st.refillFqSlot t with rxPc := Function.update st.rxPc t .receive }
    else none
  | .receive =>
    if st.rxPc t = .receive then
      let st' := st.recvSlot t
      some { st' with
        rxPc := Function.update st.rxPc t
          (if st'.frames (.batch t) = [] then .refill else .process) }
    else none
  | .free =>
    if st.rxPc t = .process ∧ st.frames (.batch t) ≠ [] then some (st.giveBack (.batch t) 1)
    else none
  | .handOver =>
    if st.rxPc t = .process ∧ st.frames (.batch t) ≠ [] then
      some { st with frames := Places.shift st.frames (.batch t) .dataplane 1 }
    else none
  | .release =>
    if st.rxPc t = .process ∧ st.frames (.batch t) = [] then
      some { st.recvReleaseSlot t with rxPc := Function.update st.rxPc t .refill }
    else none

/-- What `profile_iface_life_attach_wan_rows` does behind `profile_iface_xdp_bind_wan`. -/
def bindWan (slot : ℕ) : BindResult → UmemState
  | .bound =>
    { st with
      attachPc := .rows
      wanAdded := st.wanAdded ++ [slot]
      xdpWanOn := Function.update st.xdpWanOn slot true }
  | .notAttached => st.unplumbWanDp slot
  | .notMapped => { st with xdpWanOn := Function.update st.xdpWanOn slot true }.unplumbWanDp slot

/-- `profile_iface_life_attach_wan_rows` and `profile_iface_life_attach_rollback`. -/
def stepAttach : AttachAct → Option UmemState
  | .rows =>
    if st.attachPc = .idle then some { st with attachPc := .rows, wanAdded := [] } else none
  | .plumb hw res => if st.attachPc = .rows then some (st.plumbWanDp hw res) else none
  | .prefill =>
    match st.attachPc with
    | .prefill slot q want =>
      let i : NeIface := ⟨.dirWan, slot⟩
      if st.queueCount i ≤ q then
        some { st with live := Function.update st.live i true, attachPc := .bind slot }
      else if want = 0 then some { st with attachPc := .prefill slot (q + 1) neFqPrefill }
      else
        some { (st.prefillRound i q want).1 with
          attachPc := .prefill slot q (st.prefillRound i q want).2 }
    | _ => none
  | .bind res =>
    match st.attachPc with
    | .bind slot => some (st.bindWan slot res)
    | _ => none
  | .attached => if st.attachPc = .rows then some { st with attachPc := .idle } else none
  | .rollback =>
    if st.attachPc = .rollback then
      match st.wanAdded.getLast? with
      | some slot => some ({ st with wanAdded := st.wanAdded.dropLast }.unplumbWanDp slot)
      | none => some { st.reconcileCounts with attachPc := .idle }
    else none
  | .detach =>
    match st.attachPc with
    | .detach slot => some (st.detachWanDp slot)
    | _ => none
  | .reclaim =>
    match st.attachPc with
    | .reclaim slot q =>
      let i : NeIface := ⟨.dirWan, slot⟩
      if st.queueCount i ≤ q then some { st with attachPc := .delete slot }
      else
        some { (st.drainCqQueue i q).reclaimRxQueue i q with attachPc := .reclaim slot (q + 1) }
    | _ => none
  | .delete =>
    match st.attachPc with
    | .delete slot =>
      some { (st.deleteIfaceXsks ⟨.dirWan, slot⟩).clearIfaceQueuesAfterDelete ⟨.dirWan, slot⟩ with
        attachPc := .rollback }
    | _ => none

/-- The TX thread of a slot runs; that of slot 0 is the one that reloads. -/
def txRuns (txSlot : ℕ) : Bool :=
  decide (txSlot < neTxSlots) && (decide (txSlot ≠ 0) || decide (st.attachPc = .idle))

/-- `tx_drain_iface_ring` takes the first queue of the slot. -/
def primaryQueue (i : NeIface) (txSlot : ℕ) : Option ℕ := (st.slotQueues i txSlot neTxSlots).head?

def step : UmemAct → Option UmemState
  | .rx t a => st.stepRx t a
  | .txDrain i txSlot fs =>
    if st.txRuns txSlot ∧ i.idx < st.count i.dir ∧ st.live i then
      (st.primaryQueue i txSlot).bind fun q =>
        if fs.length ≤ min neXskCopyTxBatch (neRing - (st.frames (.tx i q)).length) ∧
            fs.Subperm (st.frames .dataplane) then
          some { st with frames := Places.pick st.frames .dataplane (.tx i q) fs }
        else none
    else none
  | .drainCq dir txSlot => if st.txRuns txSlot then some (st.drainCqSlot dir txSlot) else none
  | .frameAlloc n => some { st with frames := Places.shift st.frames .pool .dataplane n }
  | .frameFree f =>
    if f ∈ st.frames .dataplane then
      some ({ st with
        frames := Function.update st.frames .dataplane ((st.frames .dataplane).erase f) }.poolPush
          [f])
    else none
  | .kernelRx i q f =>
    if st.xsk i q ∧ f ∈ st.frames (.fq i q) ∧ (st.frames (.rx i q)).length < neRing then
      some { st with frames := Places.pick st.frames (.fq i q) (.rx i q) [f] }
    else none
  | .kernelTx i q i' q' f =>
    if st.xsk i q ∧ st.xsk i' q' ∧ f ∈ st.frames (.tx i q) ∧
        (st.frames (.cq i' q')).length < neRing then
      some { st with frames := Places.pick st.frames (.tx i q) (.cq i' q') [f] }
    else none
  | .attach a => st.stepAttach a

end UmemState

end NeEncryptor.Umem
