import Mathlib.Data.Fintype.Basic
import NeEncryptor.Lib.RingBuffer
import NeEncryptor.Lib.Transition

/-!
# Rings between threads

`struct ne_ring` (`xdp_interface.c`), each load and store of its indices and of its buffer a step of
its own.  Producers share a lock; consumers do so only in rings made with `mpsc_pop`.
-/

namespace NeEncryptor

open Transition

/-- `struct ne_packet`. -/
structure NePacket where
  addr : BitVec 64
  len : BitVec 32
  dir : BitVec 8
  wanIdx : BitVec 8
  localIdx : BitVec 8
  txSlot : BitVec 8
  deriving DecidableEq, Repr

/-- The packet of zeros. -/
def NePacket.zero : NePacket := ⟨0, 0, 0, 0, 0, 0⟩

/-- `struct ne_ring` without its locks. -/
structure NeRing where
  buf : ℕ → NePacket
  cap : BitVec 32
  mask : BitVec 32
  head : BitVec 32
  tail : BitVec 32
  mpscPop : Bool

/-- `NE_RING`. -/
def neRingCap : BitVec 32 := 16384

/-- `ne_ring_init`. -/
def neRingInit (cap : BitVec 32) (mpscPop : Bool) : Option NeRing :=
  if cap = 0 ∨ cap &&& (cap - 1) ≠ 0 then none
  else some ⟨fun _ => .zero, cap, cap - 1, 0, 0, mpscPop⟩

namespace NeRing

/-- The slot of an index. -/
def slot (r : NeRing) (i : BitVec 32) : ℕ := (i &&& r.mask).toNat

/-- `ne_ring_count`. -/
def neRingCount (r : NeRing) : BitVec 32 := r.head - r.tail

/-- The packets from the tail to the head. -/
def contents (r : NeRing) : List NePacket :=
  (List.range r.neRingCount.toNat).map fun i => r.buf (r.slot (r.tail + BitVec.ofNat 32 i))

/-- Writes the slot of an index. -/
def put (r : NeRing) (i : BitVec 32) (pkt : NePacket) : NeRing :=
  { r with buf := Function.update r.buf (r.slot i) pkt }

end NeRing

/-- The arguments of `ne_ring_try_push` and of `ne_ring_try_push_pair`. -/
inductive PushArgs
  | one (pkt : NePacket)
  | pair (first second : NePacket)

/-- The packets of a push. -/
def PushArgs.packets : PushArgs → List NePacket
  | .one pkt => [pkt]
  | .pair first second => [first, second]

/-- The ring has no room for the packets. -/
def PushArgs.refused (args : PushArgs) (r : NeRing) (head tail : BitVec 32) : Bool :=
  match args with
  | .one _ => r.cap ≤ head - tail
  | .pair _ _ => r.cap - 2 < head - tail

/-- Where a producer is, with what it has loaded. -/
inductive PushPc
  | idle
  | loadHead (args : PushArgs)
  | loadTail (args : PushArgs) (head : BitVec 32)
  | write (args : PushArgs) (head : BitVec 32)
  | writeSecond (first second : NePacket) (head : BitVec 32)
  | storeHead (args : PushArgs) (head : BitVec 32)
  | unlock

/-- Where a consumer is in `ne_ring_try_pop`, with what it has loaded. -/
inductive PopPc
  | idle
  | loadTail
  | loadHead (tail : BitVec 32)
  | read (tail : BitVec 32)
  | storeTail (tail : BitVec 32) (pkt : NePacket)
  | unlock

/-- The callers of `ne_ring_try_pop` on a ring to a WAN. -/
inductive Popper
  | txThread
  | flushQueue
  deriving DecidableEq, Repr

instance : Fintype Popper where
  elems := {.txThread, .flushQueue}
  complete c := by
    cases c
    all_goals decide

/-- A ring with its threads; `pushes` are in the order in which they were published. -/
structure RingRun (T : Type*) where
  ring : NeRing
  pushLock : Option T
  popLock : Option Popper
  producers : T → PushPc
  poppers : Popper → PopPc
  pushes : List PushArgs
  popped : List (Popper × NePacket)

inductive RingAct (T : Type*)
  /-- A producer calls one of the push functions. -/
  | push (t : T) (args : PushArgs)
  | produce (t : T)
  /-- A consumer calls `ne_ring_try_pop`. -/
  | pop (c : Popper)
  | consume (c : Popper)

namespace RingRun

variable {T : Type*} [DecidableEq T]

def setProducer (st : RingRun T) (t : T) (pc : PushPc) : RingRun T :=
  { st with producers := Function.update st.producers t pc }

def setPopper (st : RingRun T) (c : Popper) (pc : PopPc) : RingRun T :=
  { st with poppers := Function.update st.poppers c pc }

/-- Where a pop goes once it is done with the indices. -/
def popEnd (st : RingRun T) : PopPc := if st.ring.mpscPop then .unlock else .idle

/-- The next step of `ne_ring_try_push` and `ne_ring_try_push_pair`. -/
def produce (st : RingRun T) (t : T) : Option (RingRun T) :=
  match st.producers t with
  | .idle => none
  | .loadHead args => some (st.setProducer t (.loadTail args st.ring.head))
  | .loadTail args head =>
    if args.refused st.ring head st.ring.tail then some (st.setProducer t .unlock)
    else some (st.setProducer t (.write args head))
  | .write (.one pkt) head =>
    some { st.setProducer t (.storeHead (.one pkt) head) with ring := st.ring.put head pkt }
  | .write (.pair first second) head =>
    some { st.setProducer t (.writeSecond first second head) with ring := st.ring.put head first }
  | .writeSecond first second head =>
    some { st.setProducer t (.storeHead (.pair first second) head) with
      ring := st.ring.put (head + 1) second }
  | .storeHead args head =>
    some { st.setProducer t .unlock with
      ring := { st.ring with head := head + BitVec.ofNat 32 args.packets.length }
      pushes := st.pushes ++ [args] }
  | .unlock => some { st.setProducer t .idle with pushLock := none }

/-- The next step of `ne_ring_try_pop`. -/
def consume (st : RingRun T) (c : Popper) : Option (RingRun T) :=
  match st.poppers c with
  | .idle => none
  | .loadTail => some (st.setPopper c (.loadHead st.ring.tail))
  | .loadHead tail =>
    if tail = st.ring.head then some (st.setPopper c st.popEnd)
    else some (st.setPopper c (.read tail))
  | .read tail => some (st.setPopper c (.storeTail tail (st.ring.buf (st.ring.slot tail))))
  | .storeTail tail pkt =>
    some { st.setPopper c st.popEnd with
      ring := { st.ring with tail := tail + 1 }
      popped := st.popped ++ [(c, pkt)] }
  | .unlock => some { st.setPopper c .idle with popLock := none }

def step (st : RingRun T) : RingAct T → Option (RingRun T)
  | .push t args =>
    match st.producers t, st.pushLock with
    | .idle, none => some { st.setProducer t (.loadHead args) with pushLock := some t }
    | _, _ => none
  | .produce t => st.produce t
  | .pop c =>
    match st.poppers c with
    | .idle =>
      if st.ring.mpscPop then
        if st.popLock.isNone then some { st.setPopper c .loadTail with popLock := some c } else none
      else some (st.setPopper c .loadTail)
    | _ => none
  | .consume c => st.consume c

/-- A new ring. -/
def initial (ring : NeRing) : RingRun T :=
  ⟨ring, none, none, fun _ => .idle, fun _ => .idle, [], []⟩

/-- All packets that were pushed, in order. -/
def pushed (st : RingRun T) : List NePacket := st.pushes.flatMap PushArgs.packets

/-- The packets popped so far and those in the ring are the packets pushed, in their order and with
pairs together. -/
structure HandsOver (st : RingRun T) : Prop where
  once : st.popped.map Prod.snd ++ st.ring.contents = st.pushed
  /-- No frame is both sent and returned to the pool, if none was pushed twice. -/
  apart : (st.pushed.map NePacket.addr).Nodup → ∀ x y,
    (.txThread, x) ∈ st.popped → (.flushQueue, y) ∈ st.popped → x.addr ≠ y.addr


end RingRun

end NeEncryptor
