import Mathlib.Algebra.BigOperators.Group.Finset.Sigma
import NeEncryptor.Dataplane.ReorderInOrder
import NeEncryptor.Lib.Ways

/-!
# The flows of a reorder worker in step with their senders

Datagrams of many flows come at one worker, each flow's out of order.  While each packet comes in
time, no set gets more flows than it has ways, and the flows together keep less than the cap, each
flow is handed out in the order of its sender, from its first packet on.
-/

namespace NeEncryptor.Reorder

open SerialNumber Resequencer

variable {α : Type*}

/-- What a worker is asked for. -/
inductive Ask (α : Type*)
  /-- The packet of a flow at a position that its sender gave it. -/
  | packet (key : Key) (n : ℕ) (item : α) (now : BitVec 64) (emit : α → Bool)
  | gc (now : BitVec 64) (emit : α → Bool)

/-- The flows that come, their packets, and the hold time of the worker. -/
structure Plan (α : Type*) where
  keys : Finset Key
  source : Key → Source α
  holdNs : BitVec 64

abbrev Streams := Key → Stream (BitVec 64)

/-- No packet has come. -/
def Streams.fresh : Streams := fun _ => ⟨∅, 0, 0⟩

/-- The packets that the flows keep. -/
def Plan.kept (plan : Plan α) (streams : Streams) : ℕ :=
  ∑ key ∈ plan.keys, (waiting (streams key).arrived).card

namespace Ask

variable (plan : Plan α)

def call : Ask α → Call α
  | .packet key n item now emit =>
    .submit key (plan.source key).epoch ((plan.source key).seq n) item now emit
  | .gc now emit => .gc now emit

/-- What has come afterwards. -/
def after (streams : Streams) : Ask α → Streams
  | .packet key n _ now _ => Function.update streams key ((streams key).arrive n now)
  | .gc _ _ => streams

/-- Packets come in time, and a flow starts near its first packet; the collector finds no flow that
waits or rests for too long. -/
def Timely (streams : Streams) : Ask α → Prop
  | .packet key n item now _ =>
    key ∈ plan.keys ∧ InTime plan.holdNs (streams key) n now ∧
      (n ∉ (streams key).arrived → item = (plan.source key).item n) ∧
      ((streams key).arrived = ∅ → (plan.source key).seq n -
        Worker.backtrack ((plan.source key).seq n) = (plan.source key).base) ∧
      plan.kept streams < heldCap
  | .gc now _ => ∀ key ∈ plan.keys, (streams key).arrived.Nonempty →
    (waiting (streams key).arrived ≠ ∅ → now - (streams key).since < plan.holdNs) ∧
      (waiting (streams key).arrived = ∅ → now - (streams key).seen ≤ Worker.flowIdleNs)

/-- The packets that come again. -/
def again (streams : Streams) : Ask α → Multiset α
  | .packet key n item _ _ => if n ∈ (streams key).arrived then {item} else 0
  | .gc _ _ => 0

end Ask

namespace Worker

/-- Each flow of the table is in step with its sender, and the ways of a set fill up in order. -/
structure InStep (plan : Plan α) (streams : Streams) (w : Worker α) : Prop where
  counted : w.Counted
  keyed : w.Keyed
  packed : ∀ set way way', way < way' → w.flows (wayOf set way) = none →
    w.flows (wayOf set way') = none
  flow : ∀ idx flow, w.flows idx = some flow → flow.key ∈ plan.keys ∧
    (streams flow.key).arrived.Nonempty ∧
      (w.entry idx flow).Resequences (plan.source flow.key) (streams flow.key)
  known : ∀ key, (streams key).arrived.Nonempty → ∃ idx, w.keyAt idx = some key

variable {plan : Plan α} {streams : Streams} {w : Worker α} {key : Key} {idx : Fin 512}

theorem wayOf_inj {set set' : Fin 128} {way way' : Fin 4} (same : wayOf set way = wayOf set' way') :
    set = set' ∧ way = way' := by
  have equal : set.val * 4 + way.val = set'.val * 4 + way'.val := congrArg Fin.val same
  exact ⟨by omega, by omega⟩

/-- A scan that misses ends at the first free way, or has found none. -/
theorem scanWays_free {set : Fin 128} {ways : List (Fin 4)} {victim : Fin 512}
    (sorted : ways.Pairwise (· < ·)) (missed : w.scanWays key set ways victim = (idx, false)) :
    (∃ way, idx = wayOf set way ∧ w.flows (wayOf set way) = none ∧
      ∀ way' ∈ ways, way' < way → w.flows (wayOf set way') ≠ none) ∨
      ∀ way ∈ ways, w.flows (wayOf set way) ≠ none := by
  induction ways generalizing victim with
  | nil => exact .inr (by simp)
  | cons first ways ih =>
    obtain ⟨least, rest⟩ := List.pairwise_cons.mp sorted
    unfold scanWays at missed
    split at missed
    · rename_i free
      refine .inl ⟨first, (congrArg Prod.fst missed).symm, free, fun way mem before => ?_⟩
      rcases List.mem_cons.mp mem with rfl | later
      · exact absurd before (lt_irrefl _)
      · exact absurd before (least way later).asymm
    · rename_i flow valid
      have filled : w.flows (wayOf set first) ≠ none := by
        rw [valid]
        exact Option.some_ne_none _
      split at missed
      · cases missed
      · rcases ih rest missed with ⟨way, here, free, earlier⟩ | full
        · refine .inl ⟨way, here, free, fun way' mem before => ?_⟩
          rcases List.mem_cons.mp mem with rfl | later
          · exact filled
          · exact earlier way' later before
        · refine .inr fun way mem => ?_
          rcases List.mem_cons.mp mem with rfl | later
          · exact filled
          · exact full way later

/-- No flow is hidden where the ways fill up in order. -/
theorem InStep.not_hidden (inStep : w.InStep plan streams) (key : Key) : ¬ w.Hidden key := by
  rintro ⟨way, way', before, free, carried⟩
  rw [keyAt, inStep.packed _ _ _ before free] at carried
  cases carried

/-- A new flow finds a free way of its set, the first one. -/
theorem InStep.scan_new (inStep : w.InStep plan streams)
    (few : ∀ set, (plan.keys.filter (setOf · = set)).card ≤ 4) (planned : key ∈ plan.keys)
    (new : (streams key).arrived = ∅) :
    ∃ way, w.scan key = (wayOf (setOf key) way, false) ∧
      w.flows (wayOf (setOf key) way) = none ∧
        ∀ way' < way, w.flows (wayOf (setOf key) way') ≠ none := by
  have unknown (i : Fin 512) (flow : Flow) (valid : w.flows i = some flow) : flow.key ≠ key := by
    rintro rfl
    obtain ⟨-, some, -⟩ := inStep.flow i flow valid
    rw [new] at some
    exact absurd some Finset.not_nonempty_empty
  cases scanned : w.scan key with
  | mk idx hit =>
    cases hit with
    | true =>
      obtain ⟨flow, valid, same⟩ := scanWays_hit scanned
      exact absurd same (unknown idx flow valid)
    | false =>
      rcases scanWays_free (List.pairwise_lt_finRange 4) scanned with
        ⟨way, rfl, free, earlier⟩ | full
      · exact ⟨way, rfl, free, fun way' before => earlier way' (List.mem_finRange _) before⟩
      · -- four flows of the set and the new one are five keys
        exfalso
        have distinct : Ways.Distinct Flow.key fun way => w.flows (wayOf (setOf key) way) := by
          intro way way' flow flow' valid valid' same
          have carried := keyAt_of_valid valid'
          rw [← same] at carried
          exact (wayOf_inj (inStep.keyed.unique _ _ _ (keyAt_of_valid valid) carried)).2
        have known : ∀ way flow, w.flows (wayOf (setOf key) way) = some flow →
            flow.key ∈ plan.keys.filter (setOf · = setOf key) := by
          intro way flow valid
          obtain ⟨way', here⟩ := inStep.keyed.inSet _ _ (keyAt_of_valid valid)
          exact Finset.mem_filter.mpr ⟨(inStep.flow _ _ valid).1, (wayOf_inj here).1.symm⟩
        obtain ⟨way, free⟩ := Ways.exists_free distinct known (few (setOf key))
          (Finset.mem_filter.mpr ⟨planned, rfl⟩)
          (Ways.find_eq_none_iff.mpr fun way flow => unknown _ flow)
        exact full way (List.mem_finRange way) free

theorem flowLookup_of_miss (w : Worker α) (scanned : w.scan key = (idx, false)) (epoch : BitVec 32)
    (seq : Seq) (now : BitVec 64) :
    w.flowLookup key epoch seq now = (idx, (w.flowReset idx key epoch seq now).1,
      (w.flowReset idx key epoch seq now).2) := by
  rw [Worker.flowLookup, scanned]
  rfl

/-- The flow of a key in a table that differs from `w` there only. -/
structure Looked (w : Worker α) (key : Key) (idx : Fin 512) (flow : Flow) (w' : Worker α) : Prop where
  valid : w'.flows idx = some flow
  same : flow.key = key
  others : ∀ i ≠ idx, w'.flows i = w.flows i ∧ w'.slots i = w.slots i
  held : w'.held = w.held
  /-- The place was the key's, or the first free one of its set. -/
  place : w.keyAt idx = some key ∨ ∃ way, idx = wayOf (setOf key) way ∧ w.flows idx = none ∧
    ∀ way' < way, w.flows (wayOf (setOf key) way') ≠ none

/-- A new flow waits for the packets that its first one may have overtaken. -/
theorem resequences_freshFlow {src : Source α} {e : Entry α} {n : ℕ} {now stamp : BitVec 64}
    {s : Stream (BitVec 64)}
    (flow : e.flow = freshFlow key src.epoch (src.seq n) now stamp) (empty : ∀ i, e.slots i = none)
    (starts : src.seq n - backtrack (src.seq n) = src.base) (none : s.arrived = ∅)
    (seen : s.seen = now) : e.Resequences src s := by
  refine ⟨⟨?_, ?_, ?_, ?_, fun i slot => ?_, ?_⟩, fun some => ?_, fun _ => ?_⟩
  · rw [flow]
    rfl
  · rw [flow, seen]
    rfl
  · have first : src.seq 0 = src.base := BitVec.add_zero _
    rw [flow, none, front_empty, first]
    exact starts
  · rw [none, waiting_empty]
    exact fun n mem => absurd mem (Finset.notMem_empty n)
  · rw [empty, none, waiting_empty]
    constructor
    · intro valid
      cases valid
    · rintro ⟨n, mem, -⟩
      exact absurd mem (Finset.notMem_empty n)
  · rw [flow, none]
    rfl
  · rw [none] at some
    exact absurd rfl some
  · rw [flow, seen]
    change (if backtrack (src.seq n) ≠ 0 then now else 0) = 0 ∨ _ ∧
      (if backtrack (src.seq n) ≠ 0 then now else 0) = now
    split
    · exact .inr ⟨none, rfl⟩
    · exact .inl rfl

/-- A use of a flow leaves it in step. -/
theorem resequences_touch {src : Source α} {flow : Flow} {now stamp : BitVec 64}
    {s : Stream (BitVec 64)} {slots : Fin 256 → Option (Slot α)} {total : ℕ}
    (reseq : (⟨flow, slots, total⟩ : Entry α).Resequences src s) (some : s.arrived.Nonempty) :
    (⟨{ flow with lastSeenNs := now, stamp := stamp }, slots, total⟩ : Entry α).Resequences src
      { s with seen := now } where
  window := ⟨reseq.window.epoch, rfl, reseq.window.next, reseq.window.inside, reseq.window.slots,
    reseq.window.held⟩
  clock := reseq.clock
  idle := fun none => (reseq.idle none).imp_right fun new => absurd new.1 some.ne_empty

/-- A flow that is known or new is looked up in step. -/
theorem InStep.flowLookup (inStep : w.InStep plan streams)
    (few : ∀ set, (plan.keys.filter (setOf · = set)).card ≤ 4) (planned : key ∈ plan.keys)
    {n : ℕ} (now : BitVec 64)
    (starts : (streams key).arrived = ∅ → (plan.source key).seq n -
      backtrack ((plan.source key).seq n) = (plan.source key).base) :
    ∃ idx flow w' looked,
      w.flowLookup key (plan.source key).epoch ((plan.source key).seq n) now = (idx, w', looked) ∧
        w.Looked key idx flow w' ∧
        (w'.entry idx flow).Resequences (plan.source key) { streams key with seen := now } ∧
        (looked = [] ∨ ∃ next, looked = [.reset next]) ∧
        (w.flows idx = none → (streams key).arrived = ∅) := by
  by_cases new : (streams key).arrived = ∅
  · obtain ⟨way, scanned, free, earlier⟩ := inStep.scan_new few planned new
    have dropped : w.dropValid (wayOf (setOf key) way) = (w, []) := by
      rw [dropValid, free]
      rfl
    have missed := w.flowLookup_of_miss scanned (plan.source key).epoch
      ((plan.source key).seq n) now
    rw [flowReset, dropped] at missed
    refine ⟨_, _, _, _, missed, ⟨Function.update_self .., rfl, fun i other => ?_, rfl, .inr ?_⟩,
      ?_, .inr ⟨_, rfl⟩, fun _ => new⟩
    · exact ⟨Function.update_of_ne other .., rfl⟩
    · exact ⟨way, rfl, free, earlier⟩
    · exact resequences_freshFlow rfl (inStep.counted.free _ free) (starts new) new rfl
  · obtain ⟨idx, carried⟩ := inStep.known key (Finset.nonempty_iff_ne_empty.mpr new)
    have scanned := inStep.keyed.scan_eq (inStep.not_hidden key) carried
    obtain ⟨flow, valid, rfl⟩ := scanWays_hit scanned
    obtain ⟨-, some, reseq⟩ := inStep.flow idx flow valid
    refine ⟨idx, { flow with lastSeenNs := now, stamp := w.stamp + 1 }, w.touch idx now, [], ?_,
      ⟨?_, rfl, fun i other => ⟨?_, rfl⟩, rfl, .inl carried⟩, resequences_touch reseq some,
      .inl rfl, fun free => absurd (free.symm.trans valid) (Option.some_ne_none _).symm⟩
    · have current : flow.epoch = (plan.source flow.key).epoch := reseq.window.epoch
      rw [Worker.flowLookup, scanned]
      dsimp only
      rw [if_pos rfl, valid, Option.any_some, current, bne_self_eq_false, if_neg (by decide)]
    · rw [touch_flows valid, Function.update_self]
    · rw [touch_flows valid, Function.update_of_ne other]

theorem entry_put (w : Worker α) (idx : Fin 512) (e : Entry α) :
    (w.put idx e).entry idx e.flow = e := by
  change (⟨e.flow, Function.update w.slots idx e.slots idx, e.total⟩ : Entry α) = e
  rw [Function.update_self]

/-- The packets that the flows keep are those that the worker counts. -/
theorem InStep.held_eq (inStep : w.InStep plan streams) : w.held = plan.kept streams := by
  have each (i : Fin 512) : (windowItems (w.slots i)).card = ∑ key ∈ plan.keys,
      if w.keyAt i = some key then (waiting (streams key).arrived).card else 0 := by
    cases valid : w.flows i with
    | none =>
      have empty : w.slots i = fun _ => none := funext (inStep.counted.free i valid)
      rw [empty, windowItems_empty, keyAt, valid]
      simp
    | some flow =>
      obtain ⟨planned, -, reseq⟩ := inStep.flow i flow valid
      have held : flow.held = (waiting (streams flow.key).arrived).card := reseq.window.held
      rw [← inStep.counted.flow i flow valid, held, keyAt_of_valid valid]
      simp only [Option.some.injEq]
      rw [Finset.sum_ite_eq, if_pos planned]
  have swapped (key : Key) : (∑ i, if w.keyAt i = some key then
      (waiting (streams key).arrived).card else 0) = (waiting (streams key).arrived).card := by
    by_cases new : (streams key).arrived = ∅
    · rw [new, waiting_empty]
      simp
    · obtain ⟨i, carried⟩ := inStep.known key (Finset.nonempty_iff_ne_empty.mpr new)
      rw [Finset.sum_eq_single i, if_pos carried]
      · intro j _ other
        rw [if_neg fun there => other (inStep.keyed.unique j i key there carried)]
      · exact fun missing => absurd (Finset.mem_univ i) missing
  calc w.held = ∑ i, (windowItems (w.slots i)).card := by
        rw [inStep.counted.total, heldItems, Multiset.card_sum]
    _ = ∑ key ∈ plan.keys, ∑ i, if w.keyAt i = some key then
          (waiting (streams key).arrived).card else 0 := by
        rw [Finset.sum_comm]
        exact Finset.sum_congr rfl fun i _ => each i
    _ = plan.kept streams := Finset.sum_congr rfl fun key _ => swapped key

/-- A packet that comes in time: its flow answers, and the table stays in step. -/
structure Answers (plan : Plan α) (streams : Streams) (w : Worker α) (key : Key) (n : ℕ) (item : α)
    (now : BitVec 64) (emit : α → Bool) (idx : Fin 512) (looked : List (Event α))
    (result : Worker α × List (Fin 512 × Event α) × Bool) : Prop where
  inStep : result.1.InStep plan (Function.update streams key ((streams key).arrive n now))
  returned : result.2.2 = true
  events : result.2.1 =
    (looked ++ Entry.answer (plan.source key) (streams key) n item emit).map (idx, ·)
  looked : looked = [] ∨ ∃ next, looked = [.reset next]
  here : result.1.keyAt idx = some key
  others : ∀ i ≠ idx, result.1.keyAt i = w.keyAt i
  before : w.keyAt idx = some key ∨ w.keyAt idx = none ∧ (streams key).arrived = ∅

theorem InStep.submit (inStep : w.InStep plan streams)
    (few : ∀ set, (plan.keys.filter (setOf · = set)).card ≤ 4) {n : ℕ} {item : α}
    {now : BitVec 64} {emit : α → Bool}
    (timely : (Ask.packet key n item now emit).Timely plan streams) :
    ∃ idx looked, Answers plan streams w key n item now emit idx looked
      (w.dpUdpReorderSubmit emit plan.holdNs key (plan.source key).epoch
        ((plan.source key).seq n) item now) := by
  obtain ⟨planned, inTime, genuine, starts, room⟩ := timely
  have counted := (inStep.counted.accounts_submit emit plan.holdNs key (plan.source key).epoch
    ((plan.source key).seq n) item now).counted
  have keyed := inStep.keyed.submit (inStep.not_hidden key) emit plan.holdNs
    (plan.source key).epoch ((plan.source key).seq n) item now
  obtain ⟨idx, flow, w', looked, found, place, reseq, quiet, new⟩ :=
    inStep.flowLookup few planned now starts
  have total : (w'.entry idx flow).total < heldCap := by
    change w'.held < heldCap
    rw [place.held, inStep.held_eq]
    exact room
  obtain ⟨stays, answers⟩ : ((w'.entry idx flow).submit emit plan.holdNs now
        ((plan.source key).seq n) item).1.Resequences (plan.source key)
          ((streams key).arrive n now) ∧
      ((w'.entry idx flow).submit emit plan.holdNs now ((plan.source key).seq n) item).2 =
        (Entry.answer (plan.source key) (streams key) n item emit, true) :=
    reseq.submit rfl ⟨inTime.started, inTime.near, inTime.recent, inTime.soon⟩ total genuine
  have keyOf := (Entry.submit_key emit plan.holdNs now ((plan.source key).seq n) item
    (w'.entry idx flow)).1
  have result : w.dpUdpReorderSubmit emit plan.holdNs key (plan.source key).epoch
      ((plan.source key).seq n) item now = (w'.put idx ((w'.entry idx flow).submit emit plan.holdNs
        now ((plan.source key).seq n) item).1, (looked ++ Entry.answer (plan.source key)
        (streams key) n item emit).map (idx, ·), true) := by
    rw [dpUdpReorderSubmit, found]
    dsimp only
    rw [place.valid]
    dsimp only
    rw [(Prod.ext_iff.mp answers).1, (Prod.ext_iff.mp answers).2]
  rw [result] at counted keyed ⊢
  generalize (w'.entry idx flow).submit emit plan.holdNs now ((plan.source key).seq n) item =
    submitted at stays keyOf counted keyed ⊢
  have here : (w'.put idx submitted.1).flows idx = some submitted.1.flow := Function.update_self ..
  have others (i : Fin 512) (other : i ≠ idx) : (w'.put idx submitted.1).flows i = w.flows i :=
    (Function.update_of_ne other ..).trans (place.others i other).1
  have keyHere : (w'.put idx submitted.1).keyAt idx = some key := by
    rw [keyAt_of_valid here, keyOf]
    exact congrArg some place.same
  have before : w.keyAt idx = some key ∨ w.flows idx = none := by
    rcases place.place with carried | ⟨way, -, free, -⟩
    · exact .inl carried
    · exact .inr free
  refine ⟨idx, looked, ⟨counted, keyed, ?_, ?_, ?_⟩, rfl, rfl, quiet, keyHere, ?_, ?_⟩
  · -- the packed ways
    intro set way way' earlier free
    have apart : wayOf set way ≠ idx := by
      intro same
      rw [same, here] at free
      cases free
    rw [others _ apart] at free
    have free' := inStep.packed set way way' earlier free
    by_cases same : wayOf set way' = idx
    · exfalso
      rcases place.place with carried | ⟨first, at', -, filled⟩
      · rw [← same, keyAt, free'] at carried
        cases carried
      · obtain ⟨rfl, rfl⟩ := wayOf_inj (same.trans at')
        exact filled way earlier free
    · rw [others _ same]
      exact free'
  · -- the flows
    intro i other valid
    by_cases same : i = idx
    · subst same
      obtain rfl := Option.some.inj (here.symm.trans valid)
      have named : submitted.1.flow.key = key := keyOf.trans place.same
      rw [named, Function.update_self]
      refine ⟨planned, ⟨n, Finset.mem_insert_self ..⟩, ?_⟩
      rw [entry_put]
      exact stays
    · have distinct : other.key ≠ key := by
        rintro rfl
        exact same (keyed.unique i idx _ (keyAt_of_valid valid) keyHere)
      rw [others i same] at valid
      rw [Function.update_of_ne distinct]
      obtain ⟨planned', some', reseq'⟩ := inStep.flow i other valid
      refine ⟨planned', some', ⟨?_, reseq'.clock, reseq'.idle⟩⟩
      have slots : (w'.put idx submitted.1).slots i = w.slots i :=
        (Function.update_of_ne same ..).trans (place.others i same).2
      have window := reseq'.window
      refine ⟨window.epoch, window.seen, window.next, window.inside, ?_, window.held⟩
      change ∀ j slot, (w'.put idx submitted.1).slots i j = some slot ↔ _
      rw [slots]
      exact window.slots
  · -- the keys
    intro other some'
    by_cases same : other = key
    · exact ⟨idx, same ▸ keyHere⟩
    · rw [Function.update_of_ne same] at some'
      obtain ⟨i, carried⟩ := inStep.known other some'
      have apart : i ≠ idx := by
        rintro rfl
        rcases before with there | free
        · exact same (Option.some.inj (carried.symm.trans there))
        · rw [keyAt, free] at carried
          cases carried
      exact ⟨i, by rw [keyAt, others i apart]; exact carried⟩
  · intro i other
    rw [keyAt, keyAt, others i other]
  · refine before.imp_right fun free => ⟨?_, new free⟩
    rw [keyAt, free]
    rfl

/-- A slice of the collector that finds nothing to do. -/
theorem InStep.gc (inStep : w.InStep plan streams) {now : BitVec 64} {emit : α → Bool}
    (timely : (Ask.gc now emit).Timely plan streams) :
    (w.dpUdpReorderGc emit plan.holdNs now).2 = [] ∧
      (w.dpUdpReorderGc emit plan.holdNs now).1.InStep plan streams ∧
      (w.dpUdpReorderGc emit plan.holdNs now).1.flows = w.flows := by
  have round (idx : Fin 512) : w.gcFlow emit plan.holdNs now idx = (w, []) := by
    unfold gcFlow
    cases valid : w.flows idx with
    | none => rfl
    | some flow =>
      obtain ⟨planned, some', reseq⟩ := inStep.flow idx flow valid
      obtain ⟨soon, fresh⟩ := timely flow.key planned some'
      have calm : (w.entry idx flow).gapExpired plan.holdNs now = false := reseq.not_expired soon
      dsimp only
      rw [Entry.expireGap, calm, if_neg Bool.false_ne_true]
      dsimp only
      have same : w.put idx (w.entry idx flow) = w := by
        unfold Worker.put Worker.entry
        rw [← valid, Function.update_eq_self, Function.update_eq_self]
      rw [if_neg, same]
      rintro ⟨none, old⟩
      have held : flow.held = (waiting (streams flow.key).arrived).card := reseq.window.held
      have seen : flow.lastSeenNs = (streams flow.key).seen := reseq.window.seen
      have young := fresh (Finset.card_eq_zero.mp (held ▸ none))
      rw [← seen] at young
      exact absurd old (BitVec.not_lt.mpr young)
  have loop (places : List (Fin 512)) :
      forFlows (gcFlow emit plan.holdNs now) places w = (w, []) := by
    induction places with
    | nil => rfl
    | cons idx places ih =>
      rw [forFlows, round]
      dsimp only
      rw [ih]
      rfl
  rw [dpUdpReorderGc, loop]
  refine ⟨rfl, ⟨?_, ?_, inStep.packed, inStep.flow, inStep.known⟩, rfl⟩
  · exact ⟨inStep.counted.free, inStep.counted.flow, inStep.counted.total⟩
  · exact ⟨inStep.keyed.unique, inStep.keyed.inSet⟩

end Worker

/-! ## Runs -/

/-- The packet that a callback hands out, with its number. -/
def Event.handed : Event α → Option (Seq × α)
  | .emit seq item _ => some (seq, item)
  | _ => none

/-- The packet that `ops.emit` does not take. -/
def Event.refused : Event α → Option α
  | .emit _ item false => some item
  | _ => none

def refusedItems (events : List (Event α)) : Multiset α := events.filterMap Event.refused

/-- What was handed out for the flow at an index. -/
def handedAt (log : List (Fin 512 × Event α)) (idx : Fin 512) : List (Seq × α) :=
  log.filterMap fun entry => if entry.1 = idx then entry.2.handed else none

/-- The packets before a position, in the order of their sender. -/
def Source.firsts (src : Source α) (n : ℕ) : List (Seq × α) :=
  (List.range n).map fun k => (src.seq k, src.item k)

variable {src : Source α} {emit : α → Bool}

theorem handed_handedOut (positions : List ℕ) :
    (src.handedOut emit positions).filterMap Event.handed =
      positions.map fun k => (src.seq k, src.item k) := by
  induction positions with
  | nil => rfl
  | cons k positions ih =>
    change (itemEmit emit (src.seq k) (src.item k) ++ src.handedOut emit positions).filterMap _ = _
    rw [List.filterMap_append, ih]
    unfold itemEmit
    split <;> rfl

theorem dropped_handedOut (positions : List ℕ) :
    droppedItems (src.handedOut emit positions) = refusedItems (src.handedOut emit positions) := by
  unfold droppedItems refusedItems
  congr 1
  induction positions with
  | nil => rfl
  | cons k positions ih =>
    change (itemEmit emit (src.seq k) (src.item k) ++ src.handedOut emit positions).filterMap _ =
      (itemEmit emit (src.seq k) (src.item k) ++ src.handedOut emit positions).filterMap _
    rw [List.filterMap_append, List.filterMap_append, ih]
    unfold itemEmit
    split <;> rfl

theorem droppedItems_append (events more : List (Event α)) :
    droppedItems (events ++ more) = droppedItems events + droppedItems more := by
  rw [droppedItems, List.filterMap_append, ← Multiset.coe_add]
  rfl

theorem refusedItems_append (events more : List (Event α)) :
    refusedItems (events ++ more) = refusedItems events + refusedItems more := by
  rw [refusedItems, List.filterMap_append, ← Multiset.coe_add]
  rfl

theorem handedAt_append (log more : List (Fin 512 × Event α)) (idx : Fin 512) :
    handedAt (log ++ more) idx = handedAt log idx ++ handedAt more idx :=
  List.filterMap_append

theorem handedAt_tagged (idx i : Fin 512) (events : List (Event α)) :
    handedAt (events.map (idx, ·)) i = if idx = i then events.filterMap Event.handed else [] := by
  unfold handedAt
  rw [List.filterMap_map]
  by_cases same : idx = i
  · rw [if_pos same]
    exact List.filterMap_congr fun event _ => if_pos same
  · rw [if_neg same, List.filterMap_eq_nil_iff]
    exact fun event _ => if_neg same

/-- The packets that an answer hands out lie between the two fronts. -/
theorem handed_answer (s : Stream (BitVec 64)) (n : ℕ) (item : α) :
    src.firsts (front s.arrived) ++ (Entry.answer src s n item emit).filterMap Event.handed =
      src.firsts (front (insert n s.arrived)) := by
  unfold Entry.answer Source.firsts
  split
  · rename_i came
    rw [Finset.insert_eq_of_mem came]
    exact List.append_nil _
  · rw [handed_handedOut, ← List.map_append, range_append_released]

namespace Ask

/-- What has come at the end. -/
def afterAll (streams : Streams) (asks : List (Ask α)) : Streams := asks.foldl Ask.after streams

def AllTimely (plan : Plan α) : Streams → List (Ask α) → Prop
  | _, [] => True
  | streams, ask :: rest => ask.Timely plan streams ∧ AllTimely plan (ask.after streams) rest

/-- The packets that come again. -/
def allAgain : Streams → List (Ask α) → Multiset α
  | _, [] => 0
  | streams, ask :: rest => ask.again streams + allAgain (ask.after streams) rest

end Ask

namespace Run

variable {plan : Plan α} {streams : Streams} {s : Run α} {again : Multiset α}

/-- Each flow was handed out up to its front, and nothing else was dropped but what `ops.emit` did
not take and what came again. -/
structure InStep (plan : Plan α) (streams : Streams) (again : Multiset α) (s : Run α) : Prop where
  table : s.worker.InStep plan streams
  returned : s.returned = true
  handed : ∀ idx, handedAt s.log idx = (s.worker.keyAt idx).elim [] fun key =>
    (plan.source key).firsts (front (streams key).arrived)
  dropped : droppedItems s.callbacks = refusedItems s.callbacks + again

theorem inStep_initial : (initial : Run α).InStep plan Streams.fresh 0 where
  table := by
    refine ⟨Worker.counted_initial, ⟨?_, ?_⟩, fun _ _ _ _ _ => rfl, ?_, ?_⟩
    · rintro i j key ⟨⟩
    · rintro i key ⟨⟩
    · rintro i flow ⟨⟩
    · rintro key ⟨n, mem⟩
      exact absurd mem (Finset.notMem_empty n)
  returned := rfl
  handed := fun _ => rfl
  dropped := rfl

/-- One call keeps the flows in step. -/
theorem InStep.call (inStep : s.InStep plan streams again)
    (few : ∀ set, (plan.keys.filter (setOf · = set)).card ≤ 4) {ask : Ask α}
    (timely : ask.Timely plan streams) :
    (s.call ⟨true, plan.holdNs⟩ (ask.call plan)).InStep plan (ask.after streams)
      (again + ask.again streams) := by
  cases ask with
  | packet key n item now emit =>
    obtain ⟨idx, looked, answers⟩ := inStep.table.submit few timely
    change (s.call ⟨true, plan.holdNs⟩ (.submit ..)).InStep _ _ _
    rw [call_submit rfl]
    dsimp only
    generalize s.worker.dpUdpReorderSubmit emit plan.holdNs key (plan.source key).epoch
      ((plan.source key).seq n) item now = result at answers ⊢
    have quiet : looked.filterMap Event.handed = [] ∧ droppedItems looked = 0 ∧
        refusedItems looked = 0 := by
      rcases answers.looked with rfl | ⟨next, rfl⟩
      · exact ⟨rfl, rfl, rfl⟩
      · exact ⟨rfl, rfl, rfl⟩
    refine ⟨answers.inStep, answers.returned, fun i => ?_, ?_⟩
    · dsimp only
      rw [answers.events, handedAt_append, handedAt_tagged, List.filterMap_append, quiet.1,
        List.nil_append]
      by_cases same : idx = i
      · subst same
        have before : handedAt s.log idx =
            (plan.source key).firsts (front (streams key).arrived) := by
          rw [inStep.handed]
          rcases answers.before with carried | ⟨free, new⟩
          · rw [carried]
            rfl
          · rw [free, new, front_empty]
            rfl
        rw [if_pos rfl, before, handed_answer, answers.here]
        change _ = (plan.source key).firsts (front (Function.update streams key _ key).arrived)
        rw [Function.update_self]
        rfl
      · rw [if_neg same, List.append_nil, inStep.handed, ← answers.others i (Ne.symm same)]
        cases carried : result.1.keyAt i with
        | none => rfl
        | some other =>
          have distinct : other ≠ key := by
            rintro rfl
            exact same (answers.inStep.keyed.unique idx i _ answers.here carried)
          change _ = (plan.source other).firsts
            (front (Function.update streams key _ other).arrived)
          rw [Function.update_of_ne distinct]
          rfl
    · have dropped := inStep.dropped
      have answered : droppedItems
            (Entry.answer (plan.source key) (streams key) n item emit) =
          refusedItems (Entry.answer (plan.source key) (streams key) n item emit) +
            (Ask.packet key n item now emit).again streams := by
        unfold Entry.answer Ask.again
        dsimp only
        split
        · rfl
        · rw [dropped_handedOut, add_zero]
      unfold callbacks at dropped ⊢
      dsimp only
      rw [answers.events, Worker.callbacks_append, Worker.callbacks_tagged]
      simp only [droppedItems_append, refusedItems_append, quiet.2.1, quiet.2.2, zero_add]
        at dropped ⊢
      rw [answered, ← add_assoc, ← add_assoc, dropped]
      abel
  | gc now emit =>
    obtain ⟨events, table, flows⟩ := inStep.table.gc timely
    change (s.call ⟨true, plan.holdNs⟩ (.gc now emit)).InStep plan streams (again + 0)
    rw [call_gc, events, List.append_nil, add_zero]
    refine ⟨table, inStep.returned, fun i => ?_, inStep.dropped⟩
    dsimp only
    rw [inStep.handed, Worker.keyAt, Worker.keyAt, flows]

/-- A whole run keeps the flows in step. -/
theorem InStep.run (few : ∀ set, (plan.keys.filter (setOf · = set)).card ≤ 4) (asks : List (Ask α))
    (inStep : s.InStep plan streams again) (timely : Ask.AllTimely plan streams asks) :
    ∃ t, Transition.run (step ⟨true, plan.holdNs⟩) s (asks.map (Ask.call plan)) = some t ∧
      t.InStep plan (Ask.afterAll streams asks) (again + Ask.allAgain streams asks) := by
  induction asks generalizing s streams again with
  | nil => exact ⟨s, rfl, by rw [Ask.allAgain, add_zero]; exact inStep⟩
  | cons ask asks ih =>
    obtain ⟨now, later⟩ := timely
    obtain ⟨t, reached, ends⟩ := ih (inStep.call few now) later
    refine ⟨t, ?_, ?_⟩
    · have enabled : step ⟨true, plan.holdNs⟩ s (ask.call plan) =
          some (s.call ⟨true, plan.holdNs⟩ (ask.call plan)) := if_pos inStep.returned
      rw [List.map_cons, Transition.run, Transition.runWith, if_pos trivial, enabled]
      exact reached
    · rw [Ask.allAgain, ← add_assoc]
      exact ends

/-- The second packet of a flow comes first, and the first one before the hold time is over. -/
theorem timely_overtaken {key : Key} (only : plan.keys = {key})
    (base : (plan.source key).base = 0) {now later : BitVec 64} (started : now ≠ 0)
    (started' : later ≠ 0) (soon : later - now < plan.holdNs) (emit emit' : α → Bool) :
    Ask.AllTimely plan Streams.fresh [.packet key 1 ((plan.source key).item 1) now emit,
      .packet key 0 ((plan.source key).item 0) later emit'] := by
  have ahead : front (insert 1 ∅) = 0 := by
    rw [front_insert_of_ne (by rw [front_empty]; decide), front_empty]
  have waits : waiting (insert 1 ∅) = {1} := by
    rw [waiting_insert_of_lt (by rw [front_empty]; decide), waiting_empty]
    rfl
  have planned : key ∈ plan.keys := only ▸ Finset.mem_singleton_self key
  have none : plan.kept Streams.fresh = 0 := by
    rw [Plan.kept, only, Finset.sum_singleton]
    rfl
  have one : (Ask.packet key 1 ((plan.source key).item 1) now emit).after Streams.fresh key =
      ⟨insert 1 ∅, now, now⟩ := by
    change Function.update Streams.fresh key _ key = _
    rw [Function.update_self]
    rfl
  refine ⟨⟨planned, ⟨started, ?_, ?_, fun some => absurd rfl some⟩, fun _ => rfl, fun _ => ?_, ?_⟩,
    ⟨planned, ?_, fun _ => rfl, ?_, ?_⟩, trivial⟩
  · change 1 < front ∅ + 256
    rw [front_empty]
    decide
  · change front ∅ < _
    rw [front_empty]
    decide
  · unfold Source.seq
    rw [base]
    decide
  · rw [none]
    decide
  · rw [one]
    refine ⟨started', ?_, ?_, fun _ => soon⟩
    · rw [ahead]
      decide
    · rw [ahead]
      decide
  · rw [one]
    exact fun none => absurd none (Finset.insert_ne_empty _ _)
  · rw [Plan.kept, only, Finset.sum_singleton, one, waits]
    decide

def overtakenKey : Key := ⟨1, 2, 3, 4⟩

def overtakenPlan : Plan ℕ := ⟨{overtakenKey}, fun _ => ⟨0, 0, id⟩, 2000000⟩

def overtakenAsks : List (Ask ℕ) :=
  [.packet overtakenKey 1 1 5 fun _ => true, .packet overtakenKey 0 0 7 fun _ => true]

end Run

end NeEncryptor.Reorder
