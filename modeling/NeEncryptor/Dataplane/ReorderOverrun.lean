import NeEncryptor.Dataplane.ReorderFlows
import NeEncryptor.Dataplane.ReorderSound

/-!
# Overrun windows

What becomes of a flow that a packet overruns: the packet is stored behind `next_seq`, no skip ever
releases it, and once it is all that the flow holds the next packet outside the window never
returns.  A table with 8192 packets, where this happens, is reached by filling flow after flow.
-/

namespace NeEncryptor.Reorder

open SerialNumber

variable {α : Type*}

namespace Entry

variable {e e' : Entry α} {emit : α → Bool} {others : ℕ} {seq : Seq} {item : α}
  {holdNs now : BitVec 64}

theorem roomLoop_of_roomy (roomy : e.crowded seq = false) (fuel : ℕ) :
    e.roomLoop emit seq fuel = (e, []) := by
  cases fuel with
  | zero => rfl
  | succ fuel => simp [roomLoop, roomy]

/-- A packet inside the window, before the hold time is over, goes to the end of the submit. -/
theorem submit_inside (inTime : e.gapExpired holdNs now = false)
    (positive : 0 < delta seq e.flow.nextSeq) (short : delta seq e.flow.nextSeq < 256) :
    e.submit emit holdNs now seq item =
      ((e.holdCapped emit now seq item).1, (e.holdCapped emit now seq item).2, true) := by
  have inside : e.beyondWindow seq = false := by simpa [beyondWindow] using short
  have roomy : e.crowded seq = false := by simp [crowded, inside]
  have late : ¬ delta seq e.flow.nextSeq < 0 := by omega
  have due : ¬ delta seq e.flow.nextSeq = 0 := by omega
  simp [submit, expireGap, inTime, submitChecked, late, due, flowMakeWindowRoom,
    roomLoop_of_roomy roomy, roomy, jumpToWindow, inside, submitInWindow]

/-- A packet of the window that is held in a free slot. -/
theorem submit_holds (inTime : e.gapExpired holdNs now = false)
    (positive : 0 < delta seq e.flow.nextSeq) (short : delta seq e.flow.nextSeq < 256)
    (room : e.total < heldCap) (free : e.slots (place seq) = none) :
    e.submit emit holdNs now seq item = ((e.count.store seq item).startGap now, [], true) := by
  rw [submit_inside inTime positive short, holdCapped, if_neg (Nat.not_le.mpr room), hold, free]

/-- A flow after a packet has overrun it: the skip that was forced on it has passed the packet. -/
structure Overran (seq : Seq) (item : α) (now : BitVec 64) (e e' : Entry α) : Prop where
  stored : e'.slots (place seq) = some ⟨item, seq⟩
  behind : delta seq e'.flow.nextSeq ≤ 0
  moved : (e'.flow.nextSeq - e.flow.nextSeq).toNat < 512
  /-- The packets up to `next_seq` are released, the least one among them. -/
  first : ∃ i first, e.slots i = some first ∧
    e.ahead first.seq < (e'.flow.nextSeq - e.flow.nextSeq).toNat
  rest : ∀ i slot, e'.slots i = some slot → slot = ⟨item, seq⟩ ∨
    e.slots i = some slot ∧ (e'.flow.nextSeq - e.flow.nextSeq).toNat ≤ e.ahead slot.seq
  since : e'.flow.gapSinceNs = now ∨ e'.flow.gapSinceNs = e.flow.lastSeenNs

/-- The slot of a packet that no held packet has the number of. -/
theorem hold_of_absent (now : BitVec 64) (item : α)
    (absent : ∀ i slot, e.slots i = some slot → slot.seq ≠ seq) :
    (e.hold now seq item).1.slots = Function.update e.slots (place seq) (some ⟨item, seq⟩) ∧
      (e.hold now seq item).1.flow.nextSeq = e.flow.nextSeq ∧
      (e.hold now seq item).1.flow.gapSinceNs =
        if e.flow.gapSinceNs = 0 then now else e.flow.gapSinceNs := by
  unfold hold
  split
  · rename_i slot valid
    rw [if_neg (absent _ slot valid)]
    exact ⟨rfl, rfl, rfl⟩
  · exact ⟨rfl, rfl, rfl⟩

/-- A packet that overruns its flow ends up at or behind `next_seq`. -/
theorem Orderly.overran (emit : α → Bool) (item : α) (orderly : e.Orderly others) (inTime : e.gapExpired holdNs now = false)
    (overruns : e.Overruns seq) :
    Overran seq item now e (e.submit emit holdNs now seq item).1 := by
  have released := orderly.sound.held_flowSkipGap orderly.counted emit overruns.some_held
  have fewer := orderly.counted.moves_le (moves_flowSkipGap emit e)
  have capped := orderly.capped
  have near := within_iff.mp ⟨overruns.positive, overruns.short⟩
  rw [submit_inside inTime overruns.positive overruns.short]
  simp only [Entry.holdCapped, if_pos overruns.full]
  rw [if_neg (by omega)]
  rcases flowSkipGap_cases emit orderly.sound.placed with ⟨unseen, _⟩ | ⟨first, k, m, skipped⟩
  · obtain ⟨i, slot, valid⟩ := orderly.counted.exists_slot overruns.some_held
    exact absurd (orderly.sound.inSight i slot valid) (unseen i slot)
  generalize (e.flowSkipGap emit).1 = e' at skipped
  obtain ⟨i, seen⟩ := skipped.found
  have first_near := orderly.sound.ahead seen.1
  have next := skipped.ahead_next (by omega)
  have few := skipped.few_released
  have some_released := skipped.some_released
  -- The run ends at a number that is not held, so the packet does not lie past it.
  have reached : e.ahead seq ≤ e.ahead first.seq + k := by
    by_contra passed
    refine overruns.run ⟨i, first, e'.flow.nextSeq, seen.1, fun j other valid same => ?_, ?_, ?_⟩
    · have far : k ≤ (e.advance first.seq).ahead other.seq := by
        have distance : e.ahead other.seq = e.ahead first.seq + k := by rw [same]; exact next
        rw [ahead_advance (by omega)]
        omega
      have kept := skipped.flushed.kept j other valid far
      refine skipped.stopped j other kept ?_
      rw [same, skipped.result]
      rfl
    · show e.ahead first.seq < (e'.flow.nextSeq - e.flow.nextSeq).toNat
      omega
    · show (e'.flow.nextSeq - e.flow.nextSeq).toNat < e.ahead seq
      omega
  have behind : delta seq e'.flow.nextSeq ≤ 0 := by
    have near : (seq - e.flow.nextSeq).toNat < 256 := near.2
    have reached : (seq - e.flow.nextSeq).toNat ≤ e.ahead first.seq + k := reached
    rw [delta_eq_sub e.flow.nextSeq (by omega) (by omega), next]
    omega
  have left : ∀ j slot, e'.slots j = some slot →
      e.slots j = some slot ∧ e.ahead first.seq + k ≤ e.ahead slot.seq := by
    intro j slot valid
    obtain ⟨before, far⟩ := skipped.left valid
    have least := skipped.least j slot (orderly.sound.inSight j slot before)
    rw [ahead_advance least] at far
    exact ⟨before, by omega⟩
  have absent : ∀ j slot, e'.slots j = some slot → slot.seq ≠ seq := by
    intro j slot valid same
    have far := (left j slot valid).2
    have distance : (seq - e.flow.nextSeq).toNat = (e'.flow.nextSeq - e.flow.nextSeq).toNat := by
      rw [next]
      rw [same] at far
      exact le_antisymm reached far
    have here := eq_of_toNat_sub_eq distance
    rw [skipped.result] at valid here
    exact skipped.stopped j slot valid (same.trans here)
  obtain ⟨slots, same_next, since⟩ := hold_of_absent now item absent
  refine ⟨?_, ?_, ?_, ⟨i, first, seen.1, ?_⟩, fun j slot valid => ?_, ?_⟩
  · rw [slots, Function.update_self]
  · rwa [same_next]
  · rw [same_next]
    omega
  · rw [same_next]
    omega
  · rw [slots] at valid
    rw [same_next, next]
    by_cases here : j = place seq
    · rw [here, Function.update_self, Option.some.injEq] at valid
      exact .inl valid.symm
    · rw [Function.update_of_ne here] at valid
      exact .inr (left j slot valid)
  · rw [since]
    split
    · exact .inl rfl
    · rename_i apart
      rw [skipped.result] at apart ⊢
      have gap : (m.setGap (if m.flow.held ≠ 0 then e.flow.lastSeenNs else 0)).flow.gapSinceNs =
          if m.flow.held ≠ 0 then e.flow.lastSeenNs else 0 := rfl
      rw [gap] at apart ⊢
      split at apart
      · exact .inr (by rw [if_pos (by assumption)])
      · exact absurd rfl apart

/-- A submit that finds only packets that cannot be released, far behind its own, does not return. -/
theorem submit_stuck (inTime : e.gapExpired holdNs now = false) (placed : e.Placed)
    (unseen : ∀ i slot, ¬ e.AheadSlot i slot) (some_held : e.flow.held ≠ 0)
    (far : 256 ≤ delta seq e.flow.nextSeq) : (e.submit emit holdNs now seq item).2.2 = false := by
  have full : e.crowded seq = true := by simp [crowded, beyondWindow, some_held, far]
  have loop : (e.roomLoop emit seq e.flow.held).1.crowded seq = true :=
    crowded_roomLoop_of_unseen emit e.flow.held placed unseen full
  have late : ¬ delta seq e.flow.nextSeq < 0 := by omega
  have due : ¬ delta seq e.flow.nextSeq = 0 := by omega
  simp [submit, expireGap, inTime, submitChecked, late, due, flowMakeWindowRoom, loop]

end Entry

/-! ## Filling the table -/

namespace Worker

variable {w : Worker α} {key : Key} {idx : Fin 512}

theorem scan_first {flow : Flow} (valid : w.flows (wayOf (setOf key) 0) = some flow)
    (same : flow.key = key) : w.scan key = (wayOf (setOf key) 0, true) := by
  have ways : List.finRange 4 = [0, 1, 2, 3] := by decide
  rw [scan, ways, scanWays, valid]
  simp [same]

theorem scan_free (free : w.flows (wayOf (setOf key) 0) = none) :
    w.scan key = (wayOf (setOf key) 0, false) := by
  have ways : List.finRange 4 = [0, 1, 2, 3] := by decide
  rw [scan, ways, scanWays, free]

theorem wayOf_injective {set set₁ : Fin 128} {way way₁ : Fin 4}
    (same : wayOf set way = wayOf set₁ way₁) : set = set₁ ∧ way = way₁ := by
  have numbers : (set : ℕ) * 4 + way = set₁ * 4 + way₁ := congrArg Fin.val same
  have := way.isLt
  have := way₁.isLt
  exact ⟨Fin.ext (by omega), Fin.ext (by omega)⟩

/-- The flow that a lookup of its key hands on. -/
def used (flow : Flow) (w : Worker α) (now : BitVec 64) : Flow :=
  { flow with lastSeenNs := now, stamp := w.stamp + 1 }

/-- A submit for a flow that the lookup finds. -/
theorem submit_found {flow : Flow} (emit : α → Bool) (holdNs : BitVec 64) (seq : Seq) (item : α)
    (now : BitVec 64) (scanned : w.scan key = (idx, true)) (valid : w.flows idx = some flow) :
    w.dpUdpReorderSubmit emit holdNs key flow.epoch seq item now =
      (let result := ((w.touch idx now).entry idx (used flow w now)).submit emit holdNs now seq item
       ((w.touch idx now).put idx result.1, result.2.1.map (idx, ·), result.2.2)) := by
  have touched : (w.touch idx now).flows idx = some (used flow w now) := by
    rw [touch_flows valid, Function.update_self]
    rfl
  simp [dpUdpReorderSubmit, flowLookup, scanned, valid, touched]

/-- A submit for a key without a flow, in a free way. -/
theorem submit_fresh (emit : α → Bool) (holdNs : BitVec 64) (epoch : BitVec 32) (seq : Seq)
    (item : α) (now : BitVec 64) (scanned : w.scan key = (idx, false)) :
    (w.dpUdpReorderSubmit emit holdNs key epoch seq item now).1 =
      (w.flowReset idx key epoch seq now).1.put idx
        (((w.flowReset idx key epoch seq now).1.entry idx
          (freshFlow key epoch seq now (w.stamp + 1))).submit emit holdNs now seq item).1 ∧
    (w.dpUdpReorderSubmit emit holdNs key epoch seq item now).2.2 =
        (((w.flowReset idx key epoch seq now).1.entry idx
          (freshFlow key epoch seq now (w.stamp + 1))).submit emit holdNs now seq item).2.2 := by
  have fresh := flowReset_valid w idx key epoch seq now
  simp [dpUdpReorderSubmit, flowLookup, scanned, fresh]

end Worker

namespace Run

/-- All packets of the runs below come at one time. -/
def AtFive (_ : Run Unit) : Call Unit → Prop
  | .submit _ _ _ _ now _ => now = 5
  | _ => False

/-- A packet that `ops.emit` takes. -/
def packet (key : Key) (seq : ℕ) : Call Unit := .submit key 0 (BitVec.ofNat 32 seq) () 5 fun _ => true

/-- The flow in the first way of the key's set holds the `n` packets from number `a` on. -/
structure Held (w : Worker Unit) (key : Key) (a n : ℕ) (flow : Flow) : Prop where
  valid : w.flows (wayOf (setOf key) 0) = some flow
  same : flow.key = key
  epoch : flow.epoch = 0
  next : flow.nextSeq = 0
  gap : flow.gapSinceNs = 5
  held : flow.held = n
  slots : ∀ i slot, w.slots (wayOf (setOf key) 0) i = some slot →
    place slot.seq = i ∧ a ≤ slot.seq.toNat ∧ slot.seq.toNat < a + n

/-- A run after which the sets from `set` on are free. -/
structure Filled (s : Run Unit) (set total : ℕ) : Prop where
  reached : Transition.ReachableWith (step sampleSettings) AtFive initial s
  returned : s.returned = true
  orderly : s.worker.Orderly
  free : ∀ (j : Fin 128) way, set ≤ j.val → s.worker.flows (wayOf j way) = none
  total : s.worker.held = total

variable {s : Run Unit} {w : Worker Unit} {key : Key} {a n total : ℕ} {flow : Flow}

theorem call_packet (s : Run Unit) (key : Key) (seq : ℕ) :
    (s.call sampleSettings (packet key seq)).worker =
        (s.worker.dpUdpReorderSubmit (fun _ => true) 2000000 key 0 (BitVec.ofNat 32 seq) () 5).1 ∧
      (s.call sampleSettings (packet key seq)).returned =
        (s.worker.dpUdpReorderSubmit (fun _ => true) 2000000 key 0 (BitVec.ofNat 32 seq) ()
          5).2.2 := by
  rw [packet, call_submit (rfl : sampleSettings.enabled = true)]
  exact ⟨rfl, rfl⟩

theorem delta_ofNat_zero {m : ℕ} (small : m < 256) : delta (BitVec.ofNat 32 m) 0 = m := by
  have value : (BitVec.ofNat 32 m - 0).toNat = m := by
    have := Nat.mod_eq_of_lt (show m < 2 ^ 32 by omega)
    bv_omega
  rw [delta_eq_toNat (by omega), value]

theorem Held.touch (held : Held w key a n flow) (now : BitVec 64) :
    Held (w.touch (wayOf (setOf key) 0) now) key a n (Worker.used flow w now) := by
  refine ⟨?_, held.same, held.epoch, held.next, held.gap, held.held, held.slots⟩
  rw [Worker.touch_flows held.valid, Function.update_self]
  rfl

/-- One more packet goes to its slot. -/
theorem Held.submit (held : Held w key a n flow) (first : 0 < a) (short : a + n < 256)
    (room : w.held < heldCap) :
    ∃ e, (w.entry (wayOf (setOf key) 0) flow).submit (fun _ => true) 2000000 5
        (BitVec.ofNat 32 (a + n)) () = (e, [], true) ∧ e.total = w.held + 1 ∧
      Held (w.put (wayOf (setOf key) 0) e) key a (n + 1) e.flow := by
  have number : (BitVec.ofNat 32 (a + n)).toNat = a + n := by
    rw [BitVec.toNat_ofNat]
    omega
  have inTime : (w.entry (wayOf (setOf key) 0) flow).gapExpired 2000000 5 = false := by
    simp [Entry.gapExpired, Worker.entry, held.gap]
  have position : delta (BitVec.ofNat 32 (a + n)) flow.nextSeq = (a + n : ℕ) := by
    rw [held.next]
    exact delta_ofNat_zero short
  have free : w.slots (wayOf (setOf key) 0) (place (BitVec.ofNat 32 (a + n))) = none := by
    cases valid : w.slots (wayOf (setOf key) 0) (place (BitVec.ofNat 32 (a + n))) with
    | none => rfl
    | some slot =>
      obtain ⟨here, _, below⟩ := held.slots _ slot valid
      have places : slot.seq.toNat % 256 = (BitVec.ofNat 32 (a + n)).toNat % 256 :=
        congrArg Fin.val here
      omega
  refine ⟨(((w.entry (wayOf (setOf key) 0) flow).count.store (BitVec.ofNat 32 (a + n)) ()).startGap 5),
    ?_, rfl, ?_⟩
  · refine Entry.submit_holds inTime ?_ ?_ room free
    · show 0 < delta _ flow.nextSeq
      omega
    · show delta _ flow.nextSeq < 256
      omega
  · refine ⟨Function.update_self .., held.same, held.epoch, held.next, ?_, ?_, fun i slot valid => ?_⟩
    · show (if flow.gapSinceNs = 0 then 5 else flow.gapSinceNs) = 5
      rw [held.gap]
      rfl
    · show flow.held + 1 = n + 1
      rw [held.held]
    · simp only [Worker.put, Function.update_self, Entry.startGap, Entry.setGap, Entry.store,
        Worker.entry, Entry.count] at valid
      by_cases here : i = place (BitVec.ofNat 32 (a + n))
      · rw [here, Function.update_self, Option.some.injEq] at valid
        rw [here, ← valid, number]
        exact ⟨rfl, by omega, by omega⟩
      · rw [Function.update_of_ne here] at valid
        obtain ⟨placed, low, high⟩ := held.slots i slot valid
        exact ⟨placed, low, by omega⟩

/-- A packet of a table that is not full: the call returns, and writes to one flow. -/
theorem Filled.call {set seq : ℕ} {e : Entry Unit} (filled : s.Filled set total)
    (room : total < heldCap)
    (result : (s.worker.dpUdpReorderSubmit (fun _ => true) 2000000 key 0 (BitVec.ofNat 32 seq) ()
      5).1 = w.put (wayOf (setOf key) 0) e)
    (returns : (s.worker.dpUdpReorderSubmit (fun _ => true) 2000000 key 0 (BitVec.ofNat 32 seq) ()
      5).2.2 = true)
    (free : ∀ (j : Fin 128) way, (setOf key).val < j.val → set ≤ j.val → w.flows (wayOf j way) = none)
    (counted : e.total = total + 1) :
    (s.call sampleSettings (packet key seq)).worker = w.put (wayOf (setOf key) 0) e ∧
      (s.call sampleSettings (packet key seq)).Filled (max set ((setOf key).val + 1)) (total + 1) := by
  obtain ⟨worker, answer⟩ := call_packet s key seq
  rw [result] at worker
  have orderly : (s.call sampleSettings (packet key seq)).worker.Orderly := by
    refine orderly_call filled.orderly (show (5 : BitVec 64) ≠ 0 by decide) ?_
    rintro ⟨_, idx, flow, _, _, _, _, overruns⟩
    have full : heldCap ≤ s.worker.held := overruns.full
    have total := filled.total
    omega
  have timed : s.AtFive (packet key seq) := rfl
  refine ⟨worker, filled.reached.tail timed (by rw [step, if_pos filled.returned]), ?_, orderly,
    fun j way below => ?_, ?_⟩
  · rw [answer, returns]
  · have apart : wayOf j way ≠ wayOf (setOf key) 0 := by
      intro same
      rw [(Worker.wayOf_injective same).1] at below
      omega
    rw [worker, (Worker.writes_put w _ e).flows, Function.update_of_ne apart]
    exact free j way (by omega) (by omega)
  · rw [worker]
    exact counted

/-- One more packet for a flow. -/
theorem Filled.next (filled : s.Filled ((setOf key).val + 1) total)
    (held : Held s.worker key a n flow) (first : 0 < a) (short : a + n < 256)
    (room : total < heldCap) :
    (s.call sampleSettings (packet key (a + n))).Filled ((setOf key).val + 1) (total + 1) ∧
      ∃ flow, Held (s.call sampleSettings (packet key (a + n))).worker key a (n + 1) flow := by
  have submitted := Worker.submit_found (fun _ => true) 2000000 (BitVec.ofNat 32 (a + n)) () 5
    (Worker.scan_first held.valid held.same) held.valid
  have touched := held.touch 5
  have same_total : (s.worker.touch (wayOf (setOf key) 0) 5).held = total := filled.total
  obtain ⟨e, result, counted, stored⟩ := touched.submit first short (by omega)
  rw [held.epoch] at submitted
  simp only [result] at submitted
  obtain ⟨worker, filled₁⟩ := filled.call room (congrArg Prod.fst submitted)
    (congrArg (fun r => r.2.2) submitted) (fun j way apart below => by
      have others : wayOf j way ≠ wayOf (setOf key) 0 := by
        intro same
        rw [(Worker.wayOf_injective same).1] at apart
        omega
      rw [Worker.touch_flows held.valid, Function.update_of_ne others]
      exact filled.free j way below) (by omega)
  rw [max_self] at filled₁
  exact ⟨filled₁, _, by rw [worker]; exact stored⟩

/-- The first packet of a flow in a free set. -/
theorem Filled.first (filled : s.Filled (setOf key).val total) (first : 0 < a) (short : a < 32)
    (room : total < heldCap) :
    (s.call sampleSettings (packet key a)).Filled ((setOf key).val + 1) (total + 1) ∧
      ∃ flow, Held (s.call sampleSettings (packet key a)).worker key a 1 flow := by
  have free := filled.free (setOf key) 0 le_rfl
  have submitted := Worker.submit_fresh (fun _ => true) 2000000 0 (BitVec.ofNat 32 a) () 5
    (Worker.scan_free free)
  have number : (BitVec.ofNat 32 a).toNat = a := by
    rw [BitVec.toNat_ofNat]
    omega
  have apart : BitVec.ofNat 32 a ≠ 0 := by
    intro zero
    rw [zero] at number
    simp at number
    omega
  have early : Worker.backtrack (BitVec.ofNat 32 a) = BitVec.ofNat 32 a := by
    unfold Worker.backtrack
    rw [if_pos (by bv_omega)]
  have no_drops : s.worker.dropValid (wayOf (setOf key) 0) = (s.worker, []) := by
    simp [Worker.dropValid, free]
  have fresh : Held (s.worker.flowReset (wayOf (setOf key) 0) key 0 (BitVec.ofNat 32 a) 5).1 key a 0
      (Worker.freshFlow key 0 (BitVec.ofNat 32 a) 5 (s.worker.stamp + 1)) := by
    refine ⟨Worker.flowReset_valid .., rfl, rfl, ?_, ?_, rfl, fun i slot valid => ?_⟩
    · show BitVec.ofNat 32 a - Worker.backtrack (BitVec.ofNat 32 a) = 0
      rw [early, BitVec.sub_self]
      rfl
    · show (if Worker.backtrack (BitVec.ofNat 32 a) ≠ 0 then (5 : BitVec 64) else 0) = 5
      rw [early, if_pos apart]
    · have none := filled.orderly.counted.free _ free i
      simp only [Worker.flowReset, no_drops] at valid
      exact absurd (none.symm.trans valid) (by simp)
  have same_total : (s.worker.flowReset (wayOf (setOf key) 0) key 0 (BitVec.ofNat 32 a) 5).1.held =
      total := by
    simp only [Worker.flowReset, no_drops]
    exact filled.total
  obtain ⟨e, result, counted, stored⟩ := fresh.submit first (by omega) (by omega)
  rw [Nat.add_zero] at result
  rw [result] at submitted
  obtain ⟨worker, filled₁⟩ := filled.call room submitted.1 submitted.2 (fun j way apart below => by
    have others : wayOf j way ≠ wayOf (setOf key) 0 := by
      intro same
      rw [(Worker.wayOf_injective same).1] at apart
      omega
    rw [Worker.flowReset_flows, Function.update_of_ne others]
    exact filled.free j way below) (show e.total = total + 1 by omega)
  rw [max_eq_right (Nat.le_succ _)] at filled₁
  exact ⟨filled₁, _, by rw [worker]; exact stored⟩

/-- The free set of a key is filled with `n` packets. -/
theorem Filled.fill (filled : s.Filled (setOf key).val total) (first : 0 < a) (short : a < 32)
    (n : ℕ) (window : a + n < 256) (room : total + n < heldCap) :
    ∃ s₁, Run.Filled s₁ ((setOf key).val + 1) (total + (n + 1)) ∧
      ∃ flow, Held s₁.worker key a (n + 1) flow := by
  induction n with
  | zero => exact ⟨_, filled.first first short (by omega)⟩
  | succ n ih =>
    obtain ⟨s₁, filled₁, flow, held⟩ := ih (by omega) (by omega)
    exact ⟨_, filled₁.next held first window (by omega)⟩

/-- Keys of the first 34 sets. -/
def fillKey (set : ℕ) : Key :=
  ⟨0, 0, 0, [0, 53, 73, 142, 11, 4, 2, 149, 6, 102, 45, 8, 23, 156, 34, 243, 10, 153, 13, 9, 19, 44,
    170, 18, 41, 46, 29, 173, 190, 26, 365, 74, 109, 20].getD set 0⟩

theorem setOf_fillKey : ∀ set < 34, (setOf (fillKey set)).val = set := by decide +kernel

theorem filled_initial : (initial : Run Unit).Filled 0 0 :=
  ⟨.refl, rfl, orderly_initial, fun _ _ _ => rfl, rfl⟩

/-- Set after set is filled with 255 packets. -/
theorem exists_filled (sets : ℕ) (few : sets ≤ 32) : ∃ s : Run Unit, s.Filled sets (sets * 255) := by
  induction sets with
  | zero => exact ⟨initial, filled_initial⟩
  | succ set ih =>
    obtain ⟨s, filled⟩ := ih (by omega)
    have here := setOf_fillKey set (by omega)
    rw [← here] at filled
    obtain ⟨s₁, filled₁, _⟩ := filled.fill (a := 1) (by omega) (by omega) 254 (by omega) (by
      rw [here, heldCap]
      omega)
    rw [here] at filled₁
    exact ⟨s₁, by rwa [Nat.succ_mul]⟩

/-- A full table with one packet, number 2, in the last flow. -/
theorem exists_full :
    ∃ s : Run Unit, s.Filled 34 heldCap ∧ ∃ flow, Held s.worker (fillKey 33) 2 1 flow := by
  have last := setOf_fillKey 33 (by omega)
  have before := setOf_fillKey 32 (by omega)
  obtain ⟨s, filled⟩ := exists_filled 32 le_rfl
  have start : s.Filled (setOf (fillKey 32)).val (32 * 255) := by rwa [before]
  obtain ⟨s₁, filled₁, _⟩ := start.fill (a := 1) (by omega) (by omega) 30 (by omega) (by
    rw [heldCap]
    omega)
  have next : s₁.Filled (setOf (fillKey 33)).val 8191 := by
    rw [before] at filled₁
    rwa [last]
  obtain ⟨s₂, filled₂, held⟩ := next.fill (a := 2) (by omega) (by omega) 0 (by omega) (by
    rw [heldCap]
    omega)
  rw [last] at filled₂
  exact ⟨s₂, filled₂, held⟩

/-- A flow that holds one packet, number 1, behind `next_seq`. -/
structure LeftBehind (w : Worker Unit) (key : Key) (flow : Flow) : Prop where
  valid : w.flows (wayOf (setOf key) 0) = some flow
  same : flow.key = key
  epoch : flow.epoch = 0
  gap : flow.gapSinceNs = 5
  stored : w.slots (wayOf (setOf key) 0) 1 = some ⟨(), 1⟩
  alone : ∀ i slot, w.slots (wayOf (setOf key) 0) i = some slot → slot = ⟨(), 1⟩
  behind : delta 1 flow.nextSeq < 0
  near : flow.nextSeq.toNat < 512

/-- Packet 1 overruns a flow that holds packet 2 in a full table. -/
theorem Held.leftBehind (held : Held w key 2 1 flow) (orderly : w.Orderly)
    (full : w.held = heldCap) (seen : flow.lastSeenNs = 5) :
    ((w.entry (wayOf (setOf key) 0) flow).submit (fun _ => true) 2000000 5 1 ()).2.2 = true ∧
      LeftBehind (w.put (wayOf (setOf key) 0)
          ((w.entry (wayOf (setOf key) 0) flow).submit (fun _ => true) 2000000 5 1 ()).1) key
        ((w.entry (wayOf (setOf key) 0) flow).submit (fun _ => true) 2000000 5 1 ()).1.flow := by
  have only : ∀ i slot, w.slots (wayOf (setOf key) 0) i = some slot → slot.seq = 2 := by
    intro i slot valid
    obtain ⟨_, low, high⟩ := held.slots i slot valid
    exact BitVec.eq_of_toNat_eq (show slot.seq.toNat = 2 by omega)
  have ahead (s : Seq) : (w.entry (wayOf (setOf key) 0) flow).ahead s = s.toNat := by
    show (s - flow.nextSeq).toNat = s.toNat
    rw [held.next, show s - 0 = s by bv_omega]
  have inTime : (w.entry (wayOf (setOf key) 0) flow).gapExpired 2000000 5 = false := by
    simp [Entry.gapExpired, Worker.entry, held.gap]
  have overruns : (w.entry (wayOf (setOf key) 0) flow).Overruns 1 := by
    refine ⟨full.ge, ?_, ?_, ?_, ?_⟩
    · show flow.held ≠ 0
      rw [held.held]
      exact Nat.one_ne_zero
    · show 0 < delta 1 flow.nextSeq
      rw [held.next]
      decide
    · show delta 1 flow.nextSeq < 256
      rw [held.next]
      decide
    · rintro ⟨i, slot, missing, _, _, first, second⟩
      have one : (1 : Seq).toNat = 1 := by decide
      simp only [ahead] at first second
      omega
  have overran := Entry.Orderly.overran (fun _ => true) () (orderly.entry held.valid) inTime overruns
  have kept := Entry.submit_key (fun _ => true) 2000000 5 1 () (w.entry (wayOf (setOf key) 0) flow)
  refine ⟨congrArg (fun r => r.2.2) (Entry.submit_inside inTime overruns.positive overruns.short), ?_⟩
  generalize ((w.entry (wayOf (setOf key) 0) flow).submit (fun _ => true) 2000000 5 1 ()).1 = e
    at overran kept
  have moved (s : Seq) : (s - (w.entry (wayOf (setOf key) 0) flow).flow.nextSeq).toNat = s.toNat :=
    ahead s
  have near := overran.moved
  obtain ⟨i, first, valid, passed⟩ := overran.first
  rw [moved] at near
  rw [moved, ahead, only i first valid] at passed
  have two : (2 : Seq).toNat = 2 := by decide
  refine ⟨Function.update_self .., kept.1.trans held.same, kept.2.trans held.epoch, ?_, ?_, ?_, ?_, near⟩
  · rcases overran.since with since | since
    · exact since
    · exact since.trans seen
  · rw [(Worker.writes_put w _ e).slots, Function.update_self]
    exact overran.stored
  · intro j slot stored
    rw [(Worker.writes_put w _ e).slots, Function.update_self] at stored
    rcases overran.rest j slot stored with new | ⟨before, far⟩
    · exact new
    · rw [moved, ahead, only j slot before] at far
      omega
  · have behind := overran.behind
    refine lt_of_le_of_ne behind fun due => ?_
    rw [← delta_eq_zero_iff.mp due] at passed
    exact absurd passed (by decide)

/-- A full table with a packet behind the `next_seq` of its flow. -/
theorem exists_leftBehind :
    ∃ s : Run Unit, Transition.ReachableWith (step sampleSettings) AtFive initial s ∧
      s.returned = true ∧ ∃ flow, LeftBehind s.worker (fillKey 33) flow := by
  obtain ⟨s, filled, flow, held⟩ := exists_full
  generalize fillKey 33 = key at held
  have touched : Held (s.worker.touch (wayOf (setOf key) 0) 5) key 2 1
      (Worker.used flow s.worker 5) := held.touch 5
  have orderly := filled.orderly.touch held.valid (show (5 : BitVec 64) ≠ 0 by decide)
  obtain ⟨returns, left⟩ := touched.leftBehind orderly filled.total rfl
  have submitted := Worker.submit_found (fun _ => true) 2000000 (BitVec.ofNat 32 1) () 5
    (Worker.scan_first held.valid held.same) held.valid
  rw [held.epoch] at submitted
  obtain ⟨worker, answer⟩ := call_packet s key 1
  have timed : s.AtFive (packet key 1) := rfl
  rw [submitted] at worker answer
  refine ⟨s.call sampleSettings (packet key 1),
    filled.reached.tail timed (by rw [step, if_pos filled.returned]), ?_, ?_⟩
  · simp only at answer
    exact answer.trans returns
  · rw [worker]
    exact ⟨_, left⟩

/-- A full table makes a flow keep a packet behind its `next_seq`. -/
theorem window_not_always_represented :
    ¬ ∀ s, Transition.ReachableWith (step sampleSettings) AtFive initial s →
      s.worker.Represented := by
  intro always
  obtain ⟨s, reached, _, flow, left⟩ := exists_leftBehind
  have window := (always s reached).window _ flow 1 ⟨(), 1⟩ left.valid left.stored
  exact absurd window.2.1 (not_lt.mpr left.behind.le)

/-- The next packet far ahead for that flow never returns and is in no place. -/
theorem packet_not_always_accounted_for :
    ¬ ∀ s : Run Unit, Transition.Reachable (step sampleSettings) initial s → s.Accounted := by
  intro always
  obtain ⟨s, reached, returned, flow, left⟩ := exists_leftBehind
  have reached : Transition.Reachable (step sampleSettings) initial s :=
    reached.mono fun _ _ _ => trivial
  have kept := kept_of_reached reached
  generalize fillKey 33 = key at left
  have touched_valid : (s.worker.touch (wayOf (setOf key) 0) 5).flows (wayOf (setOf key) 0) =
      some (Worker.used flow s.worker 5) := by
    rw [Worker.touch_flows left.valid, Function.update_self]
    rfl
  have counted := (kept.counted.accounts_touch left.valid 5).counted.entry touched_valid
  have stuck : (((s.worker.touch (wayOf (setOf key) 0) 5).entry (wayOf (setOf key) 0)
      (Worker.used flow s.worker 5)).submit (fun _ => true) 2000000 5 (BitVec.ofNat 32 1000) ()).2.2 =
        false := by
    refine Entry.submit_stuck ?_ (kept.placed _) (fun i slot seen => ?_) (fun empty => ?_) ?_
    · simp [Entry.gapExpired, Worker.entry, Worker.used, left.gap]
    · have behind := left.behind
      have forward := seen.2.1
      rw [left.alone i slot seen.1] at forward
      exact absurd forward (not_le.mpr behind)
    · exact absurd ((counted.empty empty 1).symm.trans left.stored) (by simp)
    · show 256 ≤ delta (BitVec.ofNat 32 1000) flow.nextSeq
      have near := left.near
      have distance : (BitVec.ofNat 32 1000 - flow.nextSeq).toNat = 1000 - flow.nextSeq.toNat := by
        bv_omega
      rw [delta_eq_toNat (by omega), distance]
      omega
  have submitted := Worker.submit_found (fun _ => true) 2000000 (BitVec.ofNat 32 1000) () 5
    (Worker.scan_first left.valid left.same) left.valid
  rw [left.epoch] at submitted
  have answer := (call_packet s key 1000).2
  rw [submitted] at answer
  simp only [stuck] at answer
  have next := reached.tail (a := packet key 1000) trivial (by rw [step, if_pos returned])
  have accounted := (accounted_iff_returned next).mp (always _ next)
  exact Bool.false_ne_true (answer.symm.trans accounted)

end Run

end NeEncryptor.Reorder
