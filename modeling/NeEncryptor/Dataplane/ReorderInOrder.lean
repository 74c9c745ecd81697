import NeEncryptor.Lib.Resequencer
import NeEncryptor.Dataplane.ReorderFlows

/-!
# A reorder flow in step with its sender

The packets of a flow as their sender numbered them.  While each comes less than a window ahead of
the first missing one and before the hold time is over, the flow hands out just what has come without
a gap, in the order of the sender, and keeps the rest.
-/

namespace NeEncryptor.Reorder

open SerialNumber Resequencer

/-- The packets of a flow, numbered by their sender. -/
structure Source (α : Type*) where
  epoch : BitVec 32
  base : Seq
  item : ℕ → α

variable {α : Type*}

/-- The sequence number of a packet. -/
def Source.seq (src : Source α) (n : ℕ) : Seq := src.base + BitVec.ofNat 32 n

/-- The callbacks for packets that are handed out. -/
def Source.handedOut (src : Source α) (emit : α → Bool) (positions : List ℕ) : List (Event α) :=
  positions.flatMap fun n => itemEmit emit (src.seq n) (src.item n)

variable {src : Source α} {e : Entry α} {f n m : ℕ}

theorem seq_sub_seq (near : n < f + 2 ^ 31) (recent : f ≤ n) :
    (src.seq n - src.seq f).toNat = n - f := by
  have split : BitVec.ofNat 32 n = BitVec.ofNat 32 f + BitVec.ofNat 32 (n - f) := by
    rw [← BitVec.ofNat_add, Nat.add_sub_cancel' recent]
  have shift : src.seq n - src.seq f = BitVec.ofNat 32 (n - f) := by
    unfold Source.seq
    rw [split]
    bv_omega
  rw [shift, BitVec.toNat_ofNat]
  exact Nat.mod_eq_of_lt (by omega)

theorem seq_succ (src : Source α) (n : ℕ) : src.seq n + 1 = src.seq (n + 1) := by
  unfold Source.seq
  rw [BitVec.ofNat_add]
  bv_omega

theorem delta_ahead (near : n < f + 2 ^ 31) (recent : f ≤ n) :
    delta (src.seq n) (src.seq f) = ((n - f : ℕ) : ℤ) := by
  have distance := @seq_sub_seq α src f n near recent
  rw [delta_eq_toNat (by omega), distance]

theorem delta_behind (before : n < f) (recent : f < n + 2 ^ 31) :
    delta (src.seq n) (src.seq f) < 0 := by
  by_contra ahead
  have short := delta_nonneg_iff.mp (not_lt.mp ahead)
  have back := @seq_sub_seq α src n f recent before.le
  bv_omega

/-- In a window the place names the packet. -/
theorem eq_of_place_seq (here : f ≤ n) (near : n < f + 256) (here' : f ≤ m) (near' : m < f + 256)
    (same : place (src.seq n) = place (src.seq m)) : n = m := by
  have first := @seq_sub_seq α src f n (by omega) here
  have second := @seq_sub_seq α src f m (by omega) here'
  have equal : src.seq n = src.seq m :=
    eq_of_place_eq (by rw [first]; omega) (by rw [second]; omega) same
  rw [equal, second] at first
  omega

namespace Entry

/-- A window that holds the packets `W`, with `f` the next one. -/
structure Window (e : Entry α) (src : Source α) (seen : BitVec 64) (f : ℕ) (W : Finset ℕ) :
    Prop where
  epoch : e.flow.epoch = src.epoch
  seen : e.flow.lastSeenNs = seen
  next : e.flow.nextSeq = src.seq f
  inside : ∀ n ∈ W, f ≤ n ∧ n < f + 256
  slots : ∀ i slot, e.slots i = some slot ↔
    ∃ n ∈ W, i = place (src.seq n) ∧ slot = ⟨src.item n, src.seq n⟩
  held : e.flow.held = W.card

variable {seen since : BitVec 64} {W : Finset ℕ} {emit : α → Bool}

theorem Window.slot (window : e.Window src seen f W) (mem : n ∈ W) :
    e.slots (place (src.seq n)) = some ⟨src.item n, src.seq n⟩ :=
  (window.slots ..).mpr ⟨n, mem, rfl, rfl⟩

/-- The place of a packet that is not held is free. -/
theorem Window.free (window : e.Window src seen f W) (here : f ≤ n) (near : n < f + 256)
    (missing : n ∉ W) : e.slots (place (src.seq n)) = none := by
  refine Option.eq_none_iff_forall_ne_some.mpr fun slot valid => ?_
  obtain ⟨m, mem, same, -⟩ := (window.slots ..).mp valid
  obtain ⟨here', near'⟩ := window.inside m mem
  exact missing (eq_of_place_seq here near here' near' same ▸ mem)

theorem Window.setGap (window : e.Window src seen f W) (since : BitVec 64) :
    (e.setGap since).Window src seen f W :=
  ⟨window.epoch, window.seen, window.next, window.inside, window.slots, window.held⟩

/-- The next packet leaves the window. -/
theorem Window.release (window : e.Window src seen f W) (mem : f ∈ W) :
    e.release.Window src seen (f + 1) (W.erase f) where
  epoch := window.epoch
  seen := window.seen
  next := by
    change e.flow.nextSeq + 1 = _
    rw [window.next, seq_succ]
  inside := by
    intro n held
    obtain ⟨other, mem⟩ := Finset.mem_erase.mp held
    have := window.inside n mem
    omega
  slots := by
    intro i slot
    rw [release_slots_iff, window.slots, window.next]
    constructor
    · rintro ⟨apart, n, mem, rfl, rfl⟩
      refine ⟨n, Finset.mem_erase.mpr ⟨?_, mem⟩, rfl, rfl⟩
      rintro rfl
      exact apart rfl
    · rintro ⟨n, held, rfl, rfl⟩
      obtain ⟨other, mem'⟩ := Finset.mem_erase.mp held
      refine ⟨fun same => other ?_, n, mem', rfl, rfl⟩
      obtain ⟨here, near⟩ := window.inside n mem'
      exact eq_of_place_seq here near le_rfl (by omega) same
  held := by
    change e.flow.held - 1 = _
    rw [window.held, Finset.card_erase_of_mem mem]

/-- A flush releases the run from the next packet on. -/
theorem Window.flushLoop (emit : α → Bool) {fuel : ℕ} (few : W.card ≤ fuel)
    (window : e.Window src seen f W) :
    ∃ k, (∀ j < k, f + j ∈ W) ∧ f + k ∉ W ∧
      (e.flushLoop emit fuel).1.Window src seen (f + k) (W.filter (f + k ≤ ·)) ∧
      (e.flushLoop emit fuel).2 = src.handedOut emit (List.range' f k) ∧
      (e.flushLoop emit fuel).1.flow.gapSinceNs = e.flow.gapSinceNs := by
  have stays (missing : f ∉ W) : W.filter (f + 0 ≤ ·) = W :=
    Finset.filter_true_of_mem fun n mem => (window.inside n mem).1
  induction fuel generalizing e f W with
  | zero =>
    obtain rfl := Finset.card_eq_zero.mp (Nat.le_zero.mp few)
    exact ⟨0, by simp, by simp, window, rfl, rfl⟩
  | succ fuel ih =>
    unfold Entry.flushLoop
    rw [window.next]
    by_cases mem : f ∈ W
    · rw [window.slot mem]
      dsimp only
      rw [if_pos rfl]
      have smaller : (W.erase f).card ≤ fuel := by
        rw [Finset.card_erase_of_mem mem]
        omega
      have inner := window.release mem
      obtain ⟨k, run, stops, rest, events, since⟩ := ih smaller inner
        fun _ => Finset.filter_true_of_mem fun n mem => (inner.inside n mem).1
      have shift (j : ℕ) : f + 1 + j = f + (j + 1) := by omega
      refine ⟨k + 1, ?_, ?_, ?_, ?_, since⟩
      · intro j below
        cases j with
        | zero => exact mem
        | succ j => exact shift j ▸ Finset.mem_of_mem_erase (run j (by omega))
      · intro held
        exact stops (Finset.mem_erase.mpr ⟨by omega, by rwa [shift]⟩)
      · have same : (W.erase f).filter (f + 1 + k ≤ ·) = W.filter (f + (k + 1) ≤ ·) := by
          rw [shift, Finset.filter_erase]
          exact Finset.erase_eq_of_notMem (by simp)
        rw [← same, ← shift]
        exact rest
      · dsimp only
        rw [events]
        rfl
    · rw [window.free le_rfl (by omega) mem]
      exact ⟨0, by simp, mem, by rw [stays mem]; exact window, rfl, rfl⟩

/-- `flow_flush_contiguous` on such a window. -/
theorem Window.flowFlushContiguous (emit : α → Bool) (few : W.card ≤ 256)
    (window : e.Window src seen f W) :
    ∃ k, (∀ j < k, f + j ∈ W) ∧ f + k ∉ W ∧
      (e.flowFlushContiguous emit).1.Window src seen (f + k) (W.filter (f + k ≤ ·)) ∧
      (e.flowFlushContiguous emit).2 = src.handedOut emit (List.range' f k) ∧
      (e.flowFlushContiguous emit).1.flow.gapSinceNs =
        if W.filter (f + k ≤ ·) = ∅ then 0 else e.flow.gapSinceNs := by
  obtain ⟨k, run, stops, rest, events, since⟩ := window.flushLoop emit few
  unfold Entry.flowFlushContiguous
  generalize e.flushLoop emit 256 = flushed at rest events since
  refine ⟨k, run, stops, rest.setGap _, events, ?_⟩
  change (if flushed.1.flow.held ≠ 0 then flushed.1.flow.gapSinceNs else 0) = _
  rw [rest.held, since]
  by_cases empty : W.filter (f + k ≤ ·) = ∅
  · rw [if_pos empty, empty]
    rfl
  · rw [if_neg empty, if_pos (mt Finset.card_eq_zero.mp empty)]

/-- A packet of the window is stored. -/
theorem Window.store (window : e.Window src seen f W) (here : f ≤ n) (near : n < f + 256)
    (missing : n ∉ W) :
    (e.count.store (src.seq n) (src.item n)).Window src seen f (insert n W) where
  epoch := window.epoch
  seen := window.seen
  next := window.next
  inside := by
    intro m held
    rcases Finset.mem_insert.mp held with rfl | mem
    · exact ⟨here, near⟩
    · exact window.inside m mem
  slots := by
    intro i slot
    change Function.update e.slots (place (src.seq n)) _ i = _ ↔ _
    by_cases same : i = place (src.seq n)
    · subst same
      rw [Function.update_self, Option.some.injEq]
      constructor
      · rintro rfl
        exact ⟨n, Finset.mem_insert_self .., rfl, rfl⟩
      · rintro ⟨m, held, same, rfl⟩
        rcases Finset.mem_insert.mp held with rfl | mem
        · rfl
        · obtain ⟨here', near'⟩ := window.inside m mem
          rw [eq_of_place_seq here near here' near' same]
    · rw [Function.update_of_ne same, window.slots]
      constructor
      · rintro ⟨m, mem, rfl, rfl⟩
        exact ⟨m, Finset.mem_insert_of_mem mem, rfl, rfl⟩
      · rintro ⟨m, held, rfl, rfl⟩
        rcases Finset.mem_insert.mp held with rfl | mem
        · exact absurd rfl same
        · exact ⟨m, mem, rfl, rfl⟩
  held := by
    change e.flow.held + 1 = _
    rw [window.held, Finset.card_insert_of_notMem missing]

/-! ## One packet -/

/-- The flow holds what waits of its stream, and its gap is as old as what waits. -/
structure Resequences (e : Entry α) (src : Source α) (s : Stream (BitVec 64)) : Prop where
  window : e.Window src s.seen (front s.arrived) (waiting s.arrived)
  clock : waiting s.arrived ≠ ∅ → e.flow.gapSinceNs = s.since ∧ s.since ≠ 0
  /-- The gap of a new flow starts with its first packet. -/
  idle : waiting s.arrived = ∅ →
    e.flow.gapSinceNs = 0 ∨ s.arrived = ∅ ∧ e.flow.gapSinceNs = s.seen

end Entry

/-- A packet comes less than a window ahead of the first missing one, and before the packets that
wait have waited for too long. -/
structure InTime (holdNs : BitVec 64) (s : Stream (BitVec 64)) (n : ℕ) (now : BitVec 64) : Prop where
  started : now ≠ 0
  near : n < front s.arrived + 256
  recent : front s.arrived < n + 2 ^ 31
  soon : waiting s.arrived ≠ ∅ → now - s.since < holdNs

namespace Entry

variable {s : Stream (BitVec 64)} {emit : α → Bool} {holdNs now : BitVec 64} {item : α}

/-- The hold time of the gap is not over. -/
theorem Resequences.not_expired (reseq : e.Resequences src s)
    (soon : waiting s.arrived ≠ ∅ → now - s.since < holdNs) : e.gapExpired holdNs now = false := by
  unfold gapExpired
  rw [reseq.window.held]
  by_cases none : waiting s.arrived = ∅
  · rw [none]
    rfl
  · have young := soon none
    rw [← (reseq.clock none).1] at young
    simp [BitVec.not_le.mpr young]

/-- There is room in the window. -/
theorem flowMakeWindowRoom_of_near (emit : α → Bool) {seq : Seq} (near : e.beyondWindow seq = false) :
    e.flowMakeWindowRoom emit seq = (e, [], true) := by
  have calm : e.crowded seq = false := by
    rw [crowded, near, Bool.and_false]
  have still (fuel : ℕ) : e.roomLoop emit seq fuel = (e, []) := by
    cases fuel with
    | zero => rfl
    | succ fuel =>
      rw [roomLoop, calm]
      rfl
  rw [flowMakeWindowRoom, still]
  dsimp only
  rw [calm, if_neg (by decide), jumpToWindow, near]
  rfl

/-- What the flow does with a packet that comes in time. -/
def answer (src : Source α) (s : Stream (BitVec 64)) (n : ℕ) (item : α) (emit : α → Bool) :
    List (Event α) :=
  if n ∈ s.arrived then [.drop item]
  else src.handedOut emit (released s.arrived (insert n s.arrived))

theorem Resequences.window_lt (reseq : e.Resequences src s) : (waiting s.arrived).card < 256 := by
  refine card_waiting_lt (fun n came => ?_) (by decide)
  rcases mem_arrived_iff.mp came with before | waits
  · omega
  · exact (reseq.window.inside n waits).2

/-- The next packet: it is handed out with all that waited behind it. -/
theorem Resequences.emitInOrder (reseq : e.Resequences src s) (emit : α → Bool)
    (seen : s.seen = now) :
    (e.emitInOrder emit (src.seq (front s.arrived)) (src.item (front s.arrived))).1.Resequences src
        (s.arrive (front s.arrived) now) ∧
      (e.emitInOrder emit (src.seq (front s.arrived)) (src.item (front s.arrived))).2 =
        answer src s (front s.arrived) (src.item (front s.arrived)) emit := by
  have next : e.flow.nextSeq + 1 = src.seq (front s.arrived + 1) := by
    rw [reseq.window.next, seq_succ]
  have moved : (e.advance (e.flow.nextSeq + 1)).Window src s.seen (front s.arrived + 1)
      (waiting s.arrived) := by
    refine ⟨reseq.window.epoch, reseq.window.seen, next, fun n waits => ?_,
      reseq.window.slots, reseq.window.held⟩
    have inside := reseq.window.inside n waits
    have beyond := (mem_waiting.mp waits).2
    omega
  obtain ⟨k, run, stops, window, events, gap⟩ :=
    moved.flowFlushContiguous emit reseq.window_lt.le
  have fronts := front_insert_front run stops
  have waits := waiting_insert_front run stops
  unfold Entry.emitInOrder
  generalize (e.advance (e.flow.nextSeq + 1)).flowFlushContiguous emit = flushed at window events gap
  refine ⟨⟨?_, ?_, ?_⟩, ?_⟩
  · change flushed.1.Window src now _ _
    rw [← seen]
    change flushed.1.Window src s.seen (front (insert _ _)) (waiting (insert _ _))
    rw [fronts, waits]
    exact window
  · change waiting (insert _ _) ≠ ∅ → flushed.1.flow.gapSinceNs = (if _ then _ else _) ∧
      (if _ then _ else _) ≠ _
    intro some
    rw [waits] at some
    have waited : waiting s.arrived ≠ ∅ := by
      intro none
      rw [none] at some
      exact some rfl
    rw [gap, if_neg some, if_neg waited]
    exact reseq.clock waited
  · change waiting (insert _ _) = ∅ → flushed.1.flow.gapSinceNs = 0 ∨ _
    intro none
    rw [waits] at none
    rw [gap, if_pos none]
    exact .inl rfl
  · change itemEmit emit _ _ ++ flushed.2 = _
    rw [events, answer, if_neg (front_notMem _), released, fronts]
    rw [show front s.arrived + 1 + k - front s.arrived = k + 1 by omega]
    rfl

/-- A packet that came before, while others wait, changes nothing. -/
theorem arrive_of_mem (came : n ∈ s.arrived) (waits : waiting s.arrived ≠ ∅) (seen : s.seen = now) :
    s.arrive n now = s := by
  rw [Stream.arrive, Finset.insert_eq_of_mem came, if_neg waits, ← seen]

/-- A packet beyond the next one: it is kept. -/
theorem Resequences.hold (reseq : e.Resequences src s) (seen : s.seen = now) (started : now ≠ 0)
    (near : n < front s.arrived + 256) (beyond : front s.arrived < n)
    (genuine : n ∉ s.arrived → item = src.item n) :
    (e.hold now (src.seq n) item).1.Resequences src (s.arrive n now) ∧
      (e.hold now (src.seq n) item).2 = answer src s n item emit := by
  by_cases came : n ∈ s.arrived
  · have waits : n ∈ waiting s.arrived := mem_waiting.mpr ⟨came, beyond⟩
    rw [Entry.hold, reseq.window.slot waits]
    dsimp only
    rw [if_pos rfl, answer, if_pos came]
    rw [arrive_of_mem came (Finset.ne_empty_of_mem waits) seen]
    exact ⟨reseq, rfl⟩
  · have missing : n ∉ waiting s.arrived := fun waits => came (mem_waiting.mp waits).1
    have waits := waiting_insert_of_lt beyond
    have fronts := front_insert_of_ne beyond.ne'
    rw [genuine came, Entry.hold, reseq.window.free beyond.le near missing]
    dsimp only
    refine ⟨⟨?_, ?_, ?_⟩, ?_⟩
    · change Window _ src now (front (insert n s.arrived)) (waiting (insert n s.arrived))
      rw [fronts, waits, ← seen]
      exact (reseq.window.store beyond.le near missing).setGap _
    · change _ → (if e.flow.gapSinceNs = 0 then now else e.flow.gapSinceNs) = (if _ then _ else _) ∧
        (if _ then _ else _) ≠ _
      intro
      by_cases none : waiting s.arrived = ∅
      · rw [if_pos none]
        refine ⟨?_, started⟩
        rcases reseq.idle none with zero | ⟨-, now'⟩
        · rw [if_pos zero]
        · rw [now', seen, if_neg started]
      · obtain ⟨since, nonzero⟩ := reseq.clock none
        rw [if_neg none, since, if_neg nonzero]
        exact ⟨rfl, nonzero⟩
    · change waiting (insert _ _) = ∅ → _
      intro none
      rw [waits] at none
      exact absurd none (Finset.insert_ne_empty _ _)
    · rw [answer, if_neg came, released_of_ne beyond.ne']
      rfl

/-- A packet that was handed out before: it is dropped. -/
theorem Resequences.again (reseq : e.Resequences src s) (seen : s.seen = now)
    (before : n < front s.arrived) : e.Resequences src (s.arrive n now) := by
  have same : insert n s.arrived = s.arrived := Finset.insert_eq_of_mem (mem_of_lt_front before)
  refine ⟨?_, ?_, ?_⟩
  · change e.Window src now (front (insert n s.arrived)) (waiting (insert n s.arrived))
    rw [same, ← seen]
    exact reseq.window
  · change waiting (insert n s.arrived) ≠ ∅ → _ = (if _ then _ else _) ∧ (if _ then _ else _) ≠ _
    rw [same]
    intro some
    rw [if_neg some]
    exact reseq.clock some
  · change waiting (insert n s.arrived) = ∅ → _ ∨ insert n s.arrived = ∅ ∧ _ = now
    rw [same, ← seen]
    exact reseq.idle

/-- `dp_udp_reorder_submit` on a flow in step, for a packet that comes in time. -/
theorem Resequences.submit (reseq : e.Resequences src s) (seen : s.seen = now)
    (inTime : InTime holdNs s n now) (room : e.total < heldCap)
    (genuine : n ∉ s.arrived → item = src.item n) :
    (e.submit emit holdNs now (src.seq n) item).1.Resequences src (s.arrive n now) ∧
      (e.submit emit holdNs now (src.seq n) item).2 = (answer src s n item emit, true) := by
  have near := inTime.near
  unfold Entry.submit
  rw [expireGap, reseq.not_expired inTime.soon, if_neg (by decide)]
  dsimp only
  rw [submitChecked, reseq.window.next]
  rcases lt_trichotomy n (front s.arrived) with before | rfl | beyond
  · rw [if_pos (delta_behind before inTime.recent)]
    refine ⟨reseq.again seen before, ?_⟩
    rw [answer, if_pos (mem_of_lt_front before)]
    rfl
  · have here : delta (src.seq (front s.arrived)) (src.seq (front s.arrived)) = 0 :=
      delta_eq_zero_iff.mpr rfl
    obtain ⟨stays, events⟩ := reseq.emitInOrder emit seen
    rw [here, if_neg (lt_irrefl 0), if_pos rfl, genuine (front_notMem _)]
    exact ⟨stays, Prod.ext events rfl⟩
  · have ahead := @delta_ahead α src (front s.arrived) n (by omega) beyond.le
    have inside : e.beyondWindow (src.seq n) = false := by
      rw [beyondWindow, reseq.window.next, ahead]
      exact decide_eq_false (by omega)
    obtain ⟨stays, events⟩ := reseq.hold seen inTime.started near beyond genuine
    rw [if_neg (by omega), if_neg (by omega), flowMakeWindowRoom_of_near emit inside]
    dsimp only
    rw [submitInWindow, reseq.window.next, if_neg (by omega), if_neg (by omega), holdCapped,
      if_neg (not_le.mpr room)]
    exact ⟨stays, Prod.ext events rfl⟩

end Entry

end NeEncryptor.Reorder
