import Mathlib.Data.List.Nodup
import NeEncryptor.Iface.NeRing

/-!
# What a ring hands over

The packets in a ring are the end of the stream of packets pushed into it, as long as no consumer
stores the tail while another one is about to pop the same packet.
-/

namespace NeEncryptor

open Transition RingBuffer

namespace PushPc

/-- The producer has the lock. -/
def inside : PushPc → Bool
  | .idle => false
  | _ => true

end PushPc

namespace PopPc

/-- The tail that the consumer has loaded and not yet stored. -/
def loaded : PopPc → Option (BitVec 32)
  | .loadHead tail | .read tail | .storeTail tail _ => some tail
  | _ => none

/-- The consumer is about to store the tail. -/
def storesTail : PopPc → Bool
  | .storeTail .. => true
  | _ => false

/-- The consumer is in `ne_ring_try_pop`. -/
def inside : PopPc → Bool
  | .idle => false
  | _ => true

end PopPc

section Counters

theorem toNat_ofNat_sub {a b : ℕ} (le : b ≤ a) (near : a - b < 2 ^ 32) :
    (BitVec.ofNat 32 a - BitVec.ofNat 32 b).toNat = a - b := by
  rw [BitVec.toNat_sub, BitVec.toNat_ofNat, BitVec.toNat_ofNat]
  omega

/-- A mask picks the slot of a position, also after the counter has wrapped. -/
theorem toNat_ofNat_and (i : ℕ) : (BitVec.ofNat 32 i &&& 16383).toNat = i % 16384 := by
  rw [BitVec.toNat_and, BitVec.toNat_ofNat]
  have mask : (16383 : BitVec 32).toNat = 2 ^ 14 - 1 := rfl
  rw [mask, Nat.and_two_pow_sub_one_eq_mod]
  omega

end Counters

namespace RingRun

variable {T : Type*} [DecidableEq T] {st st' : RingRun T} {t : T} {c : Popper}

/-- A consumer stores the tail only while no other one has loaded it. -/
def Alone (st : RingRun T) : RingAct T → Prop
  | .consume c => (st.poppers c).storesTail = true → ∀ d ≠ c, (st.poppers d).loaded = none
  | _ => True

instance (st : RingRun T) (act : RingAct T) : Decidable (st.Alone act) :=
  match act with
  | .consume c =>
    inferInstanceAs
      (Decidable ((st.poppers c).storesTail = true → ∀ d ≠ c, (st.poppers d).loaded = none))
  | .push .. | .produce _ | .pop _ => isTrue trivial

/-- The ring is one of `NE_RING` packets, with the end of the stream in it. -/
structure Window (r : NeRing) (pushed : List NePacket) (popped : ℕ) : Prop where
  cap : r.cap = 16384
  mask : r.mask = 16383
  head : r.head = BitVec.ofNat 32 pushed.length
  tail : r.tail = BitVec.ofNat 32 popped
  behind : popped ≤ pushed.length
  room : pushed.length ≤ popped + 16384
  holds : Holds r.buf 16384 pushed popped

/-- What a producer knows about the ring. -/
def PushSound (r : NeRing) (pushed : List NePacket) (popped : ℕ) : PushPc → Prop
  | .loadTail _ head => head = r.head
  | .write args head => head = r.head ∧ pushed.length + args.packets.length ≤ popped + 16384
  | .writeSecond first _ head => head = r.head ∧ pushed.length + 2 ≤ popped + 16384 ∧
      Holds r.buf 16384 (pushed ++ [first]) popped
  | .storeHead args head => head = r.head ∧
      pushed.length + args.packets.length ≤ popped + 16384 ∧
      Holds r.buf 16384 (pushed ++ args.packets) popped
  | _ => True

/-- What a consumer knows about the ring. -/
def PopSound (r : NeRing) (pushed : List NePacket) (popped : ℕ) : PopPc → Prop
  | .loadHead tail => tail = r.tail
  | .read tail => tail = r.tail ∧ popped < pushed.length
  | .storeTail tail pkt => tail = r.tail ∧ pushed[popped]? = some pkt
  | _ => True

structure Inv (st : RingRun T) : Prop where
  window : Window st.ring st.pushed st.popped.length
  inOrder : st.popped.map Prod.snd = st.pushed.take st.popped.length
  owner : ∀ t, (st.producers t).inside = true ↔ st.pushLock = some t
  producers : ∀ t, PushSound st.ring st.pushed st.popped.length (st.producers t)
  poppers : ∀ c, PopSound st.ring st.pushed st.popped.length (st.poppers c)

/-! ### The window -/

section Window

variable {r : NeRing} {pushed : List NePacket} {popped : ℕ}

theorem Window.slot (window : Window r pushed popped) (i : ℕ) :
    r.slot (BitVec.ofNat 32 i) = i % 16384 := by
  rw [NeRing.slot, window.mask]
  exact toNat_ofNat_and i

theorem Window.count (window : Window r pushed popped) :
    r.neRingCount.toNat = pushed.length - popped := by
  have room := window.room
  rw [NeRing.neRingCount, window.head, window.tail]
  exact toNat_ofNat_sub window.behind (by omega)

/-- The packets in the ring are those that were not popped. -/
theorem Window.contents (window : Window r pushed popped) : r.contents = pushed.drop popped := by
  rw [← window.holds.slots, NeRing.contents, window.count, RingBuffer.slots, window.tail]
  refine List.map_congr_left fun i _ => ?_
  rw [← BitVec.ofNat_add, window.slot]

theorem Window.tail_ne_head (window : Window r pushed popped) (differ : r.tail ≠ r.head) :
    popped < pushed.length := by
  rcases Nat.eq_or_lt_of_le window.behind with same | less
  · rw [window.head, window.tail, same] at differ
    exact absurd rfl differ
  · exact less

/-- A push that is not refused has room for its packets. -/
theorem Window.room_of_accepted (window : Window r pushed popped) {args : PushArgs}
    (accepted : args.refused r r.head r.tail = false) :
    pushed.length + args.packets.length ≤ popped + 16384 := by
  have count := window.count
  have behind := window.behind
  have room := window.room
  unfold NeRing.neRingCount at count
  cases args with
  | one _ =>
    have free : ¬ r.cap ≤ r.head - r.tail := of_decide_eq_false accepted
    rw [BitVec.le_def, count, window.cap] at free
    have cap : (16384 : BitVec 32).toNat = 16384 := rfl
    dsimp only [PushArgs.packets, List.length_cons, List.length_nil]
    omega
  | pair _ _ =>
    have free : ¬ r.cap - 2 < r.head - r.tail := of_decide_eq_false accepted
    rw [BitVec.lt_def, count, window.cap] at free
    have cap : (16384 - 2 : BitVec 32).toNat = 16382 := rfl
    dsimp only [PushArgs.packets, List.length_cons, List.length_nil]
    omega

/-- A producer writes a slot that is free. -/
theorem Window.put (window : Window r pushed popped) (pkt : NePacket) {ahead : List NePacket}
    (written : Holds r.buf 16384 (pushed ++ ahead) popped)
    (room : pushed.length + ahead.length < popped + 16384) :
    Window (r.put (r.head + BitVec.ofNat 32 ahead.length) pkt) pushed popped ∧
      Holds (r.put (r.head + BitVec.ofNat 32 ahead.length) pkt).buf 16384
        (pushed ++ (ahead ++ [pkt])) popped := by
  have here : r.slot (r.head + BitVec.ofNat 32 ahead.length) =
      (pushed.length + ahead.length) % 16384 := by
    rw [window.head, ← BitVec.ofNat_add, window.slot]
  unfold NeRing.put
  rw [here]
  constructor
  · exact { window with holds := window.holds.write (by omega) room }
  · have kept := written.write (x := pkt) (j := pushed.length + ahead.length)
      (by rw [List.length_append]) room
    rw [← List.append_assoc]
    refine kept.append ?_
    rw [List.length_append, Function.update_self]

end Window

/-! ### Steps of the producers -/

/-- A step of the producer with the lock that publishes nothing. -/
theorem Inv.producer (inv : Inv st) {pc : PushPc} {ring : NeRing}
    (was : (st.producers t).inside = true) (is : pc.inside = true)
    (window : Window ring st.pushed st.popped.length)
    (sound : PushSound ring st.pushed st.popped.length pc) :
    Inv { st.setProducer t pc with ring := ring } := by
  have locked : st.pushLock = some t := (inv.owner t).mp was
  have tail : ring.tail = st.ring.tail := window.tail.trans inv.window.tail.symm
  refine ⟨window, inv.inOrder, fun u => ?_, fun u => ?_, fun d => ?_⟩
  · by_cases same : u = t
    · subst same
      simp only [setProducer, Function.update_self, is, locked]
    · simp only [setProducer, Function.update_of_ne same]
      exact inv.owner u
  · by_cases same : u = t
    · subst same
      simp only [setProducer, Function.update_self]
      exact sound
    · simp only [setProducer, Function.update_of_ne same]
      have outside : (st.producers u).inside = false := by
        rw [Bool.eq_false_iff, ne_eq, inv.owner u, locked]
        rintro ⟨⟩
        exact same rfl
      cases pc : st.producers u with
      | idle => trivial
      | _ =>
        rw [pc] at outside
        cases outside
  · have knows := inv.poppers d
    dsimp only [setProducer]
    cases pc : st.poppers d with
    | loadHead =>
      rw [pc] at knows
      exact knows.trans tail.symm
    | read =>
      rw [pc] at knows
      exact ⟨knows.1.trans tail.symm, knows.2⟩
    | storeTail =>
      rw [pc] at knows
      exact ⟨knows.1.trans tail.symm, knows.2⟩
    | _ => trivial

/-- The packets of a push become visible together. -/
theorem Inv.storeHead (inv : Inv st) {args : PushArgs} {head : BitVec 32}
    (here : st.producers t = .storeHead args head) :
    Inv { st.setProducer t .unlock with
      ring := { st.ring with head := head + BitVec.ofNat 32 args.packets.length }
      pushes := st.pushes ++ [args] } := by
  have was : (st.producers t).inside = true := by rw [here]; rfl
  have sound := inv.producers t
  rw [here] at sound
  obtain ⟨rfl, room, written⟩ := sound
  have longer : (st.pushes ++ [args]).flatMap PushArgs.packets = st.pushed ++ args.packets := by
    rw [List.flatMap_append, List.flatMap_singleton, pushed]
  have published : Window { st.ring with
      head := st.ring.head + BitVec.ofNat 32 args.packets.length } (st.pushed ++ args.packets)
      st.popped.length := by
    have behind := inv.window.behind
    refine ⟨inv.window.cap, inv.window.mask, ?_, inv.window.tail, ?_, ?_, written⟩
    · dsimp only
      rw [inv.window.head, ← BitVec.ofNat_add, List.length_append]
    · rw [List.length_append]
      omega
    · rw [List.length_append]
      exact room
  have behind := inv.window.behind
  have base : Inv { st.setProducer t .unlock with ring := st.ring } :=
    inv.producer was rfl inv.window trivial
  refine ⟨?_, ?_, base.owner, fun u => ?_, fun d => ?_⟩
  · dsimp only [RingRun.pushed]
    rw [longer]
    exact published
  · dsimp only [RingRun.pushed, setProducer]
    rw [longer, List.take_append_of_le_length behind]
    exact inv.inOrder
  · by_cases same : u = t
    · subst same
      simp only [setProducer, Function.update_self]
      trivial
    · have outside : (st.producers u).inside = false := by
        rw [Bool.eq_false_iff, ne_eq, inv.owner u, (inv.owner t).mp was]
        rintro ⟨⟩
        exact same rfl
      simp only [setProducer, Function.update_of_ne same]
      cases pc : st.producers u with
      | idle => trivial
      | _ =>
        rw [pc] at outside
        cases outside
  · have knows := inv.poppers d
    dsimp only [setProducer, RingRun.pushed]
    rw [longer]
    cases pc : st.poppers d with
    | loadHead =>
      rw [pc] at knows
      exact knows
    | read =>
      rw [pc] at knows
      refine ⟨knows.1, ?_⟩
      rw [List.length_append]
      exact knows.2.trans_le (Nat.le_add_right _ _)
    | storeTail =>
      rw [pc] at knows
      refine ⟨knows.1, ?_⟩
      rw [List.getElem?_append_left (List.getElem?_eq_some_iff.mp knows.2).1]
      exact knows.2
    | _ => trivial

theorem inv_produce (inv : Inv st) (stepped : st.produce t = some st') : Inv st' := by
  have window := inv.window
  have sound := inv.producers t
  unfold produce at stepped
  cases here : st.producers t with
  | idle =>
    rw [here] at stepped
    cases stepped
  | loadHead args =>
    have was : (st.producers t).inside = true := by rw [here]; rfl
    rw [here] at stepped
    cases stepped
    exact inv.producer was rfl window rfl
  | loadTail args head =>
    have was : (st.producers t).inside = true := by rw [here]; rfl
    rw [here] at stepped sound
    obtain rfl : head = st.ring.head := sound
    dsimp only at stepped
    split at stepped
    · cases stepped
      exact inv.producer was rfl window trivial
    · rename_i accepted
      cases stepped
      exact inv.producer was rfl window
        ⟨rfl, window.room_of_accepted (Bool.eq_false_iff.mpr accepted)⟩
  | write args head =>
    have was : (st.producers t).inside = true := by rw [here]; rfl
    have unwritten : Holds st.ring.buf 16384 (st.pushed ++ []) st.popped.length := by
      rw [List.append_nil]
      exact window.holds
    rw [here] at stepped sound
    obtain ⟨rfl, room⟩ := sound
    have written (pkt : NePacket) : Window (st.ring.put st.ring.head pkt) st.pushed st.popped.length ∧
        Holds (st.ring.put st.ring.head pkt).buf 16384 (st.pushed ++ [pkt]) st.popped.length := by
      have one : 0 < args.packets.length := by
        cases args with
        | one => exact Nat.one_pos
        | pair => exact Nat.two_pos
      have put := window.put pkt unwritten (by rw [List.length_nil]; omega)
      have first : st.ring.head + BitVec.ofNat 32 ([] : List NePacket).length = st.ring.head :=
        BitVec.add_zero _
      rwa [first] at put
    cases args with
    | one pkt =>
      cases stepped
      exact inv.producer was rfl (written pkt).1 ⟨rfl, room, (written pkt).2⟩
    | pair first second =>
      cases stepped
      exact inv.producer was rfl (written first).1 ⟨rfl, room, (written first).2⟩
  | writeSecond first second head =>
    have was : (st.producers t).inside = true := by rw [here]; rfl
    rw [here] at stepped sound
    obtain ⟨rfl, room, holds⟩ := sound
    obtain ⟨after, written⟩ := window.put second holds (by rw [List.length_singleton]; omega)
    cases stepped
    exact inv.producer was rfl after ⟨rfl, room, written⟩
  | storeHead args head =>
    rw [here] at stepped
    cases stepped
    exact inv.storeHead here
  | unlock =>
    have locked : st.pushLock = some t := (inv.owner t).mp (by rw [here]; rfl)
    rw [here] at stepped
    cases stepped
    refine ⟨window, inv.inOrder, fun u => ?_, fun u => ?_, inv.poppers⟩
    · by_cases same : u = t
      · subst same
        simp [setProducer, PushPc.inside]
      · have owner := inv.owner u
        rw [locked] at owner
        simp [setProducer, Function.update_of_ne same, owner, Ne.symm same]
    · by_cases same : u = t
      · subst same
        simp only [setProducer, Function.update_self]
        trivial
      · simp only [setProducer, Function.update_of_ne same]
        exact inv.producers u

/-! ### Steps of the consumers -/

omit [DecidableEq T] in
/-- A step of a consumer that only loads. -/
theorem Inv.popper (inv : Inv st) {pc : PopPc} {popLock : Option Popper}
    (sound : PopSound st.ring st.pushed st.popped.length pc) :
    Inv { st.setPopper c pc with popLock := popLock } := by
  refine ⟨inv.window, inv.inOrder, inv.owner, inv.producers, fun d => ?_⟩
  by_cases same : d = c
  · subst same
    simp only [setPopper, Function.update_self]
    exact sound
  · simp only [setPopper, Function.update_of_ne same]
    exact inv.poppers d

omit [DecidableEq T] in
theorem popSound_popEnd (st : RingRun T) {r : NeRing} {pushed : List NePacket} {popped : ℕ} :
    PopSound r pushed popped st.popEnd := by
  unfold popEnd
  split
  · trivial
  · trivial

omit [DecidableEq T] in
/-- The tail is stored while no other consumer has loaded it. -/
theorem Inv.storeTail (inv : Inv st) {tail : BitVec 32} {pkt : NePacket}
    (here : st.poppers c = .storeTail tail pkt)
    (alone : ∀ d ≠ c, (st.poppers d).loaded = none) :
    Inv { st.setPopper c st.popEnd with
      ring := { st.ring with tail := tail + 1 }
      popped := st.popped ++ [(c, pkt)] } := by
  have window := inv.window
  have sound := inv.poppers c
  rw [here] at sound
  obtain ⟨rfl, first⟩ := sound
  have inside : st.popped.length < st.pushed.length := (List.getElem?_eq_some_iff.mp first).1
  have longer : (st.popped ++ [(c, pkt)]).length = st.popped.length + 1 := List.length_append
  refine ⟨?_, ?_, inv.owner, fun u => ?_, fun d => ?_⟩
  · dsimp only
    rw [longer]
    refine ⟨window.cap, window.mask, window.head, ?_, inside,
      window.room.trans (by omega), window.holds.mono (Nat.le_succ _)⟩
    dsimp only
    rw [window.tail, BitVec.ofNat_add]
    rfl
  · dsimp only [RingRun.pushed, setPopper] at first ⊢
    rw [longer, List.map_append, List.take_add_one, first, inv.inOrder]
    rfl
  · have knows := inv.producers u
    dsimp only [setPopper, RingRun.pushed] at knows ⊢
    rw [longer]
    cases pc : st.producers u with
    | loadTail =>
      rw [pc] at knows
      exact knows
    | write =>
      rw [pc] at knows
      obtain ⟨same, room⟩ := knows
      exact ⟨same, room.trans (by omega)⟩
    | writeSecond =>
      rw [pc] at knows
      obtain ⟨same, room, holds⟩ := knows
      exact ⟨same, room.trans (by omega), holds.mono (Nat.le_succ _)⟩
    | storeHead =>
      rw [pc] at knows
      obtain ⟨same, room, holds⟩ := knows
      exact ⟨same, room.trans (by omega), holds.mono (Nat.le_succ _)⟩
    | _ => trivial
  · by_cases same : d = c
    · subst same
      simp only [setPopper, Function.update_self]
      exact popSound_popEnd st
    · have outside := alone d same
      simp only [setPopper, Function.update_of_ne same]
      cases pc : st.poppers d with
      | loadHead =>
        rw [pc] at outside
        cases outside
      | read =>
        rw [pc] at outside
        cases outside
      | storeTail =>
        rw [pc] at outside
        cases outside
      | _ => trivial

omit [DecidableEq T] in
theorem inv_consume (inv : Inv st) (alone : st.Alone (.consume c))
    (stepped : st.consume c = some st') : Inv st' := by
  have sound := inv.poppers c
  unfold consume at stepped
  cases here : st.poppers c with
  | idle =>
    rw [here] at stepped
    cases stepped
  | loadTail =>
    rw [here] at stepped
    cases stepped
    exact inv.popper rfl
  | loadHead tail =>
    rw [here] at stepped sound
    obtain rfl : tail = st.ring.tail := sound
    dsimp only at stepped
    split at stepped
    · cases stepped
      exact inv.popper (popSound_popEnd st)
    · rename_i differ
      cases stepped
      exact inv.popper ⟨rfl, inv.window.tail_ne_head differ⟩
  | read tail =>
    rw [here] at stepped sound
    obtain ⟨rfl, inside⟩ := sound
    have first := List.getElem?_eq_getElem inside
    cases stepped
    refine inv.popper ⟨rfl, ?_⟩
    rw [first, inv.window.tail, inv.window.slot, inv.window.holds _ _ le_rfl first]
  | storeTail tail pkt =>
    rw [here] at stepped
    cases stepped
    exact inv.storeTail here (alone (by rw [here]; rfl))
  | unlock =>
    rw [here] at stepped
    cases stepped
    exact inv.popper trivial

theorem inv_step (inv : Inv st) {act : RingAct T} (alone : st.Alone act)
    (stepped : st.step act = some st') : Inv st' := by
  cases act with
  | push t args =>
    unfold step at stepped
    dsimp only at stepped
    split at stepped
    · rename_i here free
      cases stepped
      refine ⟨inv.window, inv.inOrder, fun u => ?_, fun u => ?_, inv.poppers⟩
      · by_cases same : u = t
        · subst same
          simp [setProducer, PushPc.inside]
        · have owner := inv.owner u
          rw [free] at owner
          simp [setProducer, Function.update_of_ne same, owner, Ne.symm same]
      · by_cases same : u = t
        · subst same
          simp only [setProducer, Function.update_self]
          trivial
        · simp only [setProducer, Function.update_of_ne same]
          exact inv.producers u
    · cases stepped
  | produce t => exact inv_produce inv stepped
  | pop c =>
    unfold step at stepped
    dsimp only at stepped
    split at stepped
    · split at stepped
      · split at stepped
        · cases stepped
          exact inv.popper trivial
        · cases stepped
      · cases stepped
        exact inv.popper trivial
    · cases stepped
  | consume c => exact inv_consume inv alone stepped

omit [DecidableEq T] in
theorem inv_initial {ring : NeRing} {mpscPop : Bool} (init : neRingInit neRingCap mpscPop = some ring) :
    Inv (initial ring : RingRun T) := by
  obtain rfl : _ = ring := Option.some.inj init
  refine ⟨⟨rfl, rfl, rfl, rfl, le_rfl, Nat.zero_le _, holds_nil⟩, rfl, fun t => ?_, fun _ => trivial,
    fun _ => trivial⟩
  exact ⟨nofun, nofun⟩

omit [DecidableEq T] in
theorem Inv.handsOver (inv : Inv st) : st.HandsOver := by
  have once : st.popped.map Prod.snd ++ st.ring.contents = st.pushed := by
    rw [inv.window.contents, inv.inOrder, List.take_append_drop]
  refine ⟨once, fun distinct x y sent returned same => ?_⟩
  rw [← once, List.map_append, List.map_map] at distinct
  have frames : (st.popped.map (NePacket.addr ∘ Prod.snd)).Nodup := distinct.of_append_left
  have one := List.inj_on_of_nodup_map frames sent returned same
  cases one

/-- In runs in which no consumer stores the tail while another one has loaded it, a ring hands over
every packet once. -/
theorem handsOver_of_alone {ring : NeRing} (init : neRingInit neRingCap false = some ring)
    (reached : ReachableWith step Alone (initial ring) st) : st.HandsOver :=
  (reached.invariant (inv_initial init) fun _ _ _ inv alone stepped =>
    inv_step inv alone stepped).handsOver

/-- Two pops of the only packet in the ring, the second one begun before the first one is done. -/
def overlappingPops : List (RingAct Unit) :=
  [.push () (.one .zero)] ++ List.replicate 5 (.produce ()) ++
    [.pop .txThread, .pop .flushQueue, .consume .txThread, .consume .flushQueue] ++
    List.replicate 3 (.consume .txThread) ++ List.replicate 3 (.consume .flushQueue)

/-- The ring that `forwarder_init` makes. -/
def midToWan : NeRing := ⟨fun _ => .zero, 16384, 16383, 0, 0, false⟩

theorem not_handsOver : ¬ ∀ ring, neRingInit neRingCap false = some ring →
    ∀ st : RingRun Unit, Reachable step (initial ring) st → st.HandsOver := by
  intro always
  obtain ⟨st, reached, twice⟩ : ∃ st : RingRun Unit, Reachable step (initial midToWan) st ∧
      (st.popped.length == 2 && st.pushed.length == 1) = true :=
    exists_reachable_of_run overlappingPops (by decide)
  have once := congrArg List.length (always midToWan rfl st reached).once
  rw [List.length_append, List.length_map] at once
  simp only [Bool.and_eq_true, beq_iff_eq] at twice
  omega

/-- A pair that two pops take one after the other. -/
def pairPopped : List (RingAct Unit) :=
  [.push () (.pair .zero { NePacket.zero with addr := 2048 })] ++ List.replicate 6 (.produce ()) ++
    .pop .txThread :: List.replicate 4 (.consume .txThread) ++
    .pop .flushQueue :: List.replicate 4 (.consume .flushQueue)

theorem handsOver_pairPopped : ∃ st : RingRun Unit, st.popped.length = 2 ∧ st.HandsOver := by
  have ran : (runWith step Alone (initial midToWan) pairPopped).any
      (fun st => st.popped.length == 2) = true := by decide
  obtain ⟨st, reached, popped⟩ := (Option.any_eq_true _ _).mp ran
  exact ⟨st, by simpa using popped, handsOver_of_alone rfl (.of_runWith pairPopped reached)⟩

/-! ### Rings with a lock for the consumers -/

/-- The consumers share a lock. -/
structure PopLocked (st : RingRun T) : Prop where
  mpscPop : st.ring.mpscPop = true
  owner : ∀ c, (st.poppers c).inside = true ↔ st.popLock = some c

theorem popLocked_step (locked : PopLocked st) {act : RingAct T} (stepped : st.step act = some st') :
    PopLocked st' := by
  cases act with
  | push t args =>
    unfold step at stepped
    dsimp only at stepped
    split at stepped
    · cases stepped
      exact ⟨locked.mpscPop, locked.owner⟩
    · cases stepped
  | produce t =>
    unfold step produce at stepped
    dsimp only at stepped
    repeat' split at stepped
    all_goals
      cases stepped
      try exact ⟨locked.mpscPop, locked.owner⟩
  | pop c =>
    unfold step at stepped
    rw [locked.mpscPop] at stepped
    dsimp only at stepped
    split at stepped
    · rw [if_pos rfl] at stepped
      split at stepped
      · rename_i free
        cases stepped
        refine ⟨locked.mpscPop, fun d => ?_⟩
        by_cases same : d = c
        · subst same
          simp [setPopper, PopPc.inside]
        · have owner := locked.owner d
          rw [Option.isNone_iff_eq_none.mp free] at owner
          simp [setPopper, Function.update_of_ne same, owner, Ne.symm same]
      · cases stepped
    · cases stepped
  | consume c =>
    have stays {s : RingRun T} {pc : PopPc} (ring : s.ring.mpscPop = true)
        (lock : s.popLock = st.popLock) (poppers : s.poppers = Function.update st.poppers c pc)
        (was : (st.poppers c).inside = true) (is : pc.inside = true) : PopLocked s := by
      refine ⟨ring, fun d => ?_⟩
      rw [lock, poppers]
      by_cases same : d = c
      · subst same
        rw [Function.update_self, is, (locked.owner d).mp was]
        simp
      · rw [Function.update_of_ne same]
        exact locked.owner d
    have ends : st.popEnd = .unlock := if_pos locked.mpscPop
    unfold step consume at stepped
    dsimp only at stepped
    cases here : st.poppers c with
    | idle =>
      rw [here] at stepped
      cases stepped
    | loadTail =>
      rw [here] at stepped
      cases stepped
      exact stays locked.mpscPop rfl rfl (by rw [here]; rfl) rfl
    | loadHead tail =>
      rw [here, ends] at stepped
      dsimp only at stepped
      split at stepped
      · cases stepped
        exact stays locked.mpscPop rfl rfl (by rw [here]; rfl) rfl
      · cases stepped
        exact stays locked.mpscPop rfl rfl (by rw [here]; rfl) rfl
    | read tail =>
      rw [here] at stepped
      cases stepped
      exact stays locked.mpscPop rfl rfl (by rw [here]; rfl) rfl
    | storeTail tail pkt =>
      rw [here, ends] at stepped
      cases stepped
      exact stays locked.mpscPop rfl rfl (by rw [here]; rfl) rfl
    | unlock =>
      have mine : st.popLock = some c := (locked.owner c).mp (by rw [here]; rfl)
      rw [here] at stepped
      cases stepped
      refine ⟨locked.mpscPop, fun d => ?_⟩
      by_cases same : d = c
      · subst same
        simp [setPopper, PopPc.inside]
      · have owner := locked.owner d
        rw [mine] at owner
        simp [setPopper, Function.update_of_ne same, owner, Ne.symm same]

omit [DecidableEq T] in
theorem PopLocked.alone (locked : PopLocked st) (act : RingAct T) : st.Alone act := by
  cases act with
  | consume c =>
    intro stores d other
    have mine : st.popLock = some c := by
      refine (locked.owner c).mp ?_
      cases pc : st.poppers c with
      | idle =>
        rw [pc] at stores
        cases stores
      | _ => rfl
    have outside : (st.poppers d).inside = false := by
      rw [Bool.eq_false_iff, ne_eq, locked.owner d, mine]
      rintro ⟨⟩
      exact other rfl
    cases pc : st.poppers d with
    | idle => rfl
    | _ =>
      rw [pc] at outside
      cases outside
  | _ => trivial

/-- The rings that `fwd_ensure_mid_wan_rings` makes hand over every packet once in all runs. -/
theorem handsOver_of_mpscPop {ring : NeRing} (init : neRingInit neRingCap true = some ring)
    (reached : Reachable step (initial ring) st) : st.HandsOver := by
  obtain rfl : _ = ring := Option.some.inj init
  have both : Inv st ∧ PopLocked st := by
    refine reached.invariant (I := fun s => Inv s ∧ PopLocked s)
      ⟨inv_initial init, rfl, fun _ => ⟨nofun, nofun⟩⟩ ?_
    rintro _ act _ ⟨inv, locked⟩ - stepped
    exact ⟨inv_step inv (locked.alone act) stepped, popLocked_step locked stepped⟩
  exact both.1.handsOver

end RingRun

end NeEncryptor
