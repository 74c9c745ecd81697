import NeEncryptor.Dataplane.ReorderRuns

/-!
# Order of emission

The callbacks of a flow, replayed: each packet that is emitted is the one at `next_seq`, which then
moves past it, and `next_seq` is only ever moved to a number ahead of it until the flow is reset.
-/

namespace NeEncryptor.Reorder

open SerialNumber

variable {α : Type*}

/-- Replays callbacks from a value of `next_seq`; `none` where a packet is emitted out of turn or
`next_seq` moves back. -/
def follow : Seq → List (Event α) → Option Seq
  | next, [] => some next
  | _, .reset next :: events => follow next events
  | next, .gap target :: events => if 0 < delta target next then follow target events else none
  | next, .emit seq _ _ :: events => if seq = next then follow (next + 1) events else none
  | next, .drop _ :: events => follow next events

/-- How far `next_seq` moves over callbacks without a reset. -/
def travel : Seq → List (Event α) → ℕ
  | _, [] => 0
  | _, .reset next :: events => travel next events
  | next, .gap target :: events => (target - next).toNat + travel target events
  | next, .emit _ _ _ :: events => 1 + travel (next + 1) events
  | next, .drop _ :: events => travel next events

/-- The callback of `flow_reset`. -/
def Event.isReset : Event α → Bool
  | .reset _ => true
  | _ => false

variable {next : Seq} {events more : List (Event α)}

theorem follow_append (next : Seq) (events more : List (Event α)) :
    follow next (events ++ more) = (follow next events).bind fun next => follow next more := by
  induction events generalizing next with
  | nil => rfl
  | cons event events ih =>
    cases event with
    | reset target => exact ih target
    | drop item => exact ih next
    | gap target =>
      simp only [List.cons_append, follow]
      split
      · exact ih target
      · rfl
    | emit seq item sent =>
      simp only [List.cons_append, follow]
      split
      · exact ih (next + 1)
      · rfl

theorem follow_emit {last seq : Seq} {item : α} {sent : Bool}
    (replayed : follow next (.emit seq item sent :: events) = some last) :
    seq = next ∧ follow (seq + 1) events = some last := by
  simp only [follow] at replayed
  split at replayed
  · rename_i turn
    exact ⟨turn, turn ▸ replayed⟩
  · cases replayed

/-- Without a reset `next_seq` ends as far from where it starts as it has travelled. -/
theorem follow_travel {last : Seq} (replayed : follow next events = some last)
    (steady : ∀ event ∈ events, event.isReset = false) :
    last = next + BitVec.ofNat 32 (travel next events) := by
  induction events generalizing next with
  | nil =>
    cases replayed
    simp [travel]
  | cons event events ih =>
    have rest : ∀ event ∈ events, event.isReset = false := fun other member =>
      steady other (List.mem_cons_of_mem _ member)
    cases event with
    | reset target => exact absurd (steady _ List.mem_cons_self) (by simp [Event.isReset])
    | drop item => exact ih replayed rest
    | gap target =>
      simp only [follow] at replayed
      split at replayed
      · rw [ih replayed rest, travel, BitVec.ofNat_add, BitVec.ofNat_toNat, BitVec.setWidth_eq]
        bv_omega
      · cases replayed
    | emit seq item sent =>
      obtain ⟨rfl, passed⟩ := follow_emit replayed
      rw [ih passed rest, travel, BitVec.ofNat_add]
      bv_omega

theorem follow_itemEmit (emit : α → Bool) (seq : Seq) (item : α) :
    follow seq (itemEmit emit seq item) = some (seq + 1) := by
  unfold itemEmit
  split <;> simp [follow]

theorem follow_slotDrops (next : Seq) (slots : Fin 256 → Option (Slot α)) :
    follow next (Worker.slotDrops slots) = some next := by
  unfold Worker.slotDrops
  induction List.finRange 256 with
  | nil => rfl
  | cons i places ih =>
    cases valid : slots i with
    | none => rwa [List.filterMap_cons_none (by rw [valid]; rfl)]
    | some slot => rwa [List.filterMap_cons_some (by rw [valid]; rfl)]

namespace Entry

variable {e e' : Entry α} {emit : α → Bool}

theorem Moves.follow (moves : Moves emit e events e') :
    Reorder.follow e.flow.nextSeq events = some e'.flow.nextSeq := by
  induction moves with
  | refl => rfl
  | setGap _ _ ih => exact ih
  | release valid due _ ih =>
    rw [follow_append, due, follow_itemEmit]
    exact ih
  | skip valid ahead _ _ ih =>
    rw [Reorder.follow, if_pos ahead]
    exact ih
  | jump _ ahead _ ih =>
    rw [Reorder.follow, if_pos ahead]
    exact ih

theorem follow_hold (next : Seq) (e : Entry α) (now : BitVec 64) (seq : Seq) (item : α) :
    Reorder.follow next (e.hold now seq item).2 = some next ∧
      (e.hold now seq item).1.flow.nextSeq = e.flow.nextSeq := by
  unfold Entry.hold
  split
  · split <;> exact ⟨rfl, rfl⟩
  · exact ⟨rfl, rfl⟩

theorem Submits.follow {now : BitVec 64} {seq : Seq} {item : α} {returned : Bool}
    (submits : Submits emit now seq item e (e', events, returned)) :
    Reorder.follow e.flow.nextSeq events = some e'.flow.nextSeq := by
  cases submits with
  | stuck moves => exact moves.follow
  | returns arrives =>
    cases arrives with
    | refused moves =>
      rw [follow_append, moves.follow]
      rfl
    | @passed m _ _ _ moves due flushed =>
      rw [follow_append, moves.follow, Option.bind_some, follow_append, ← due, follow_itemEmit]
      exact flushed.follow
    | @held m _ moves =>
      obtain ⟨quiet, same⟩ := follow_hold m.flow.nextSeq m now seq item
      rw [follow_append, moves.follow, Option.bind_some, quiet, same]

end Entry

/-! ## Logs -/

/-- The callbacks of one flow. -/
def flowLog (idx : Fin 512) (log : List (Fin 512 × Event α)) : List (Event α) :=
  log.filterMap fun entry => if entry.1 = idx then some entry.2 else none

theorem flowLog_append (idx : Fin 512) (log more : List (Fin 512 × Event α)) :
    flowLog idx (log ++ more) = flowLog idx log ++ flowLog idx more :=
  List.filterMap_append

theorem flowLog_tagged (idx j : Fin 512) (events : List (Event α)) :
    flowLog idx (events.map (j, ·)) = if j = idx then events else [] := by
  unfold flowLog
  rw [List.filterMap_map]
  split
  · rename_i same
    simp [same]
  · rename_i apart
    simp [apart]

/-- The log of every flow replays, up to the flow's own `next_seq`. -/
def Follows (log : List (Fin 512 × Event α)) (w : Worker α) : Prop :=
  ∀ idx, ∃ next, follow 0 (flowLog idx log) = some next ∧
    ∀ flow, w.flows idx = some flow → flow.nextSeq = next

variable {w w' : Worker α} {idx : Fin 512} {log : List (Fin 512 × Event α)}

/-- A step on one flow whose callbacks replay. -/
theorem Follows.writes {stored : Option Flow} (follows : Follows log w)
    (flows : w'.flows = Function.update w.flows idx stored)
    (replays : ∀ next, (∀ flow, w.flows idx = some flow → flow.nextSeq = next) →
      ∃ last, follow next events = some last ∧ ∀ flow, stored = some flow → flow.nextSeq = last) :
    Follows (log ++ events.map (idx, ·)) w' := by
  intro j
  obtain ⟨next, replayed, current⟩ := follows j
  rw [flowLog_append, flowLog_tagged, follow_append, replayed, Option.bind_some, flows]
  by_cases same : idx = j
  · subst same
    rw [if_pos rfl, Function.update_self]
    exact replays next current
  · rw [if_neg same, Function.update_of_ne (Ne.symm same)]
    exact ⟨next, rfl, current⟩

/-- Freeing flows, or writing other fields of the table. -/
theorem Follows.fewer (follows : Follows log w)
    (flows : ∀ j flow, w'.flows j = some flow → w.flows j = some flow) : Follows log w' := by
  intro j
  obtain ⟨next, replayed, current⟩ := follows j
  exact ⟨next, replayed, fun flow valid => current flow (flows j flow valid)⟩

theorem Follows.put {flow : Flow} {e : Entry α} (follows : Follows log w)
    (valid : w.flows idx = some flow) (replayed : follow flow.nextSeq events = some e.flow.nextSeq) :
    Follows (log ++ events.map (idx, ·)) (w.put idx e) := by
  refine follows.writes (Worker.writes_put w idx e).flows fun next current => ?_
  rw [← current flow valid]
  refine ⟨_, replayed, ?_⟩
  rintro other ⟨⟩
  rfl

theorem follow_dropValid (next : Seq) (w : Worker α) (idx : Fin 512) :
    follow next (w.dropValid idx).2 = some next := by
  unfold Worker.dropValid
  split
  · exact follow_slotDrops next (w.slots idx)
  · rfl

theorem Follows.flowReset (follows : Follows log w) (idx : Fin 512) (key : Key)
    (epoch : BitVec 32) (firstSeq : Seq) (now : BitVec 64) :
    Follows (log ++ (w.flowReset idx key epoch firstSeq now).2.map (idx, ·))
      (w.flowReset idx key epoch firstSeq now).1 := by
  refine follows.writes (Worker.flowReset_flows w idx key epoch firstSeq now) fun next _ => ?_
  refine ⟨firstSeq - Worker.backtrack firstSeq, ?_, ?_⟩
  · simp only [Worker.flowReset]
    rw [follow_append, follow_dropValid]
    rfl
  · rintro flow ⟨⟩
    rfl

theorem Follows.touch {flow : Flow} (follows : Follows log w) (valid : w.flows idx = some flow)
    (now : BitVec 64) : Follows log (w.touch idx now) := by
  have touched : Follows (log ++ ([] : List (Event α)).map (idx, ·)) (w.touch idx now) := by
    refine follows.writes (Worker.touch_flows valid now) fun next current => ⟨next, rfl, ?_⟩
    rintro other ⟨⟩
    exact current flow valid
  simpa using touched

theorem Follows.looks {key : Key} {epoch : BitVec 32} {seq : Seq} {now : BitVec 64}
    (follows : Follows log w) (looks : w.Looks key epoch seq now (idx, w', events)) :
    Follows (log ++ events.map (idx, ·)) w' := by
  cases looks with
  | found _ valid => simpa using follows.touch valid now
  | outdated =>
    exact (follows.flowReset idx key epoch seq now).touch
      (Worker.flowReset_valid w idx key epoch seq now) now
  | missed => exact follows.flowReset idx key epoch seq now

theorem Follows.submit (follows : Follows log w) (emit : α → Bool) (holdNs : BitVec 64)
    (key : Key) (epoch : BitVec 32) (seq : Seq) (item : α) (now : BitVec 64) :
    Follows (log ++ (w.dpUdpReorderSubmit emit holdNs key epoch seq item now).2.1)
      (w.dpUdpReorderSubmit emit holdNs key epoch seq item now).1 := by
  have looks := Worker.looks_flowLookup w key epoch seq now
  unfold Worker.dpUdpReorderSubmit
  generalize w.flowLookup key epoch seq now = looked at looks
  obtain ⟨idx, w₁, events⟩ := looked
  have looked := follows.looks looks
  obtain ⟨flow, valid⟩ := looks.valid
  have submits := Entry.submits_submit emit holdNs now seq item (w₁.entry idx flow)
  simp only [valid]
  generalize (w₁.entry idx flow).submit emit holdNs now seq item = result at submits
  obtain ⟨e, more, returned⟩ := result
  have written := looked.put valid submits.follow
  rwa [List.append_assoc, ← List.map_append] at written

theorem Follows.gcFlow (follows : Follows log w) (emit : α → Bool) (holdNs now : BitVec 64)
    (idx : Fin 512) :
    Follows (log ++ (w.gcFlow emit holdNs now idx).2.map (idx, ·))
      (w.gcFlow emit holdNs now idx).1 := by
  unfold Worker.gcFlow
  split
  · simpa using follows
  · rename_i flow valid
    have moves := Entry.moves_expireGap emit holdNs now (w.entry idx flow)
    generalize (w.entry idx flow).expireGap emit holdNs now = result at moves
    obtain ⟨e, events⟩ := result
    have written := follows.put valid moves.follow
    simp only
    split
    · exact written.fewer fun j other stored => by
        by_cases same : j = idx
        · simp [same] at stored
        · simpa [same] using stored
    · exact written

theorem Follows.resetFlow (follows : Follows log w) (idx : Fin 512) :
    Follows (log ++ (w.resetFlow idx).2.map (idx, ·)) (w.resetFlow idx).1 := by
  have flows : (w.resetFlow idx).1.flows = Function.update w.flows idx none := by
    simp only [Worker.resetFlow, Worker.dropValid_flows]
  exact follows.writes flows fun next _ =>
    ⟨next, follow_dropValid next w idx, fun _ none => absurd none.symm (Option.some_ne_none _)⟩

theorem Follows.gc (follows : Follows log w) (emit : α → Bool) (holdNs now : BitVec 64) :
    Follows (log ++ (w.dpUdpReorderGc emit holdNs now).2) (w.dpUdpReorderGc emit holdNs now).1 := by
  have loop := Worker.forFlows_induct (P := Follows) (f := Worker.gcFlow emit holdNs now)
    (fun idx _ _ follows => follows.gcFlow emit holdNs now idx) w.gcSlice follows
  exact loop.fewer fun _ _ valid => valid

theorem Follows.resetWorker (follows : Follows log w) :
    Follows (log ++ w.dpUdpReorderResetWorker.2) w.dpUdpReorderResetWorker.1 := by
  have loop := Worker.forFlows_induct (P := Follows) (f := Worker.resetFlow)
    (fun idx _ _ follows => follows.resetFlow idx) (List.finRange 512) follows
  simp only [Worker.dpUdpReorderResetWorker]
  generalize Worker.forFlows Worker.resetFlow (List.finRange 512) w = result at loop ⊢
  exact loop.fewer fun _ _ valid => valid

/-! ## Runs -/

namespace Run

variable {settings : Settings} {s : Run α} {c : Call α}

theorem follows_call (follows : Follows s.log s.worker) :
    Follows (s.call settings c).log (s.call settings c).worker := by
  cases c with
  | submit key epoch seq item now emit =>
    cases enabled : settings.enabled with
    | true =>
      rw [call_submit enabled]
      exact follows.submit emit settings.holdNs key epoch seq item now
    | false =>
      rw [call_passThrough enabled]
      exact follows
  | gc now emit => exact follows.gc emit settings.holdNs now
  | resetWorker =>
    have reset := follows.resetWorker
    rw [call_resetWorker]
    generalize s.worker.dpUdpReorderResetWorker = result at reset ⊢
    exact reset

/-- In every run the packets of a flow are emitted in order: each is the one at `next_seq` at that
moment, `next_seq` then moves past it and never back until the flow is reset, and it stands where the
replay of the callbacks ends.  Of two packets emitted without a reset between them the second
lies ahead of the first by just what `next_seq` has travelled. -/
theorem emitted_in_order (settings : Settings) (s : Run α)
    (reached : Transition.Reachable (step settings) initial s) (idx : Fin 512) :
    (∃ next, follow 0 (flowLog idx s.log) = some next ∧
      ∀ flow, s.worker.flows idx = some flow → flow.nextSeq = next) ∧
    ∀ before between after seq item sent seq₁ item₁ sent₁,
      flowLog idx s.log =
        before ++ .emit seq item sent :: (between ++ .emit seq₁ item₁ sent₁ :: after) →
      (∀ event ∈ between, event.isReset = false) →
      seq₁ = seq + BitVec.ofNat 32 (1 + travel (seq + 1) between) ∧
        (travel (seq + 1) between + 1 < 2 ^ 31 → 0 < delta seq₁ seq) := by
  have follows : Follows s.log s.worker := by
    refine reached.invariant (I := fun s => Follows s.log s.worker) ?_ fun s c t follows _ enabled => ?_
    · exact fun idx => ⟨0, rfl, fun _ none => nomatch none⟩
    · rw [(step_eq_some enabled).2]
      exact follows_call follows
  refine ⟨follows idx, fun before between after seq item sent seq₁ item₁ sent₁ split steady => ?_⟩
  obtain ⟨last, replayed, _⟩ := follows idx
  rw [split, follow_append] at replayed
  obtain ⟨next, _, replayed⟩ := Option.bind_eq_some_iff.mp replayed
  obtain ⟨_, replayed⟩ := follow_emit replayed
  rw [follow_append] at replayed
  obtain ⟨next₁, travelled, replayed⟩ := Option.bind_eq_some_iff.mp replayed
  obtain ⟨turn, _⟩ := follow_emit replayed
  have moved : seq₁ = seq + BitVec.ofNat 32 (1 + travel (seq + 1) between) := by
    rw [turn, follow_travel travelled steady, BitVec.ofNat_add]
    bv_omega
  refine ⟨moved, fun short => ?_⟩
  have distance : (seq₁ - seq).toNat = 1 + travel (seq + 1) between := by
    rw [moved, toNat_add_sub seq (by omega)]
  rw [delta_eq_toNat (by omega), distance]
  omega

/-- Packet `n` of one flow. -/
def sampleCall (n : ℕ) : Call ℕ := .submit ⟨0, 0, 0, 0⟩ 0 (BitVec.ofNat 32 n) n 5 fun _ => true

def sampleRun : Run ℕ :=
  ((initial.call ⟨true, 2000000⟩ (sampleCall 0)).call ⟨true, 2000000⟩ (sampleCall 2)).call
    ⟨true, 2000000⟩ (sampleCall 1)

theorem emitted_in_order_sample :
    flowLog 0 sampleRun.log = [.reset 0, .emit 0 0 true, .emit 1 1 true, .emit 2 2 true] ∧
      0 < delta (2 : Seq) 0 := by
  have log : flowLog 0 sampleRun.log =
      [.reset 0, .emit 0 0 true, .emit 1 1 true, .emit 2 2 true] := by rfl
  have reached : Transition.Reachable (step ⟨true, 2000000⟩) initial sampleRun :=
    .tail (a := sampleCall 1)
      (.tail (a := sampleCall 2) (.single (a := sampleCall 0) trivial rfl) trivial rfl) trivial rfl
  have order := emitted_in_order ⟨true, 2000000⟩ sampleRun reached 0
  refine ⟨log, (order.2 [.reset 0] [.emit 1 1 true] [] 0 0 true 2 2 true log ?_).2 (by decide)⟩
  simp [Event.isReset]

end Run

end NeEncryptor.Reorder
