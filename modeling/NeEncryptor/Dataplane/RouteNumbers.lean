import NeEncryptor.Dataplane.RouteTables
import NeEncryptor.Lib.Transition

/-!
# Transmit numbers of a flow

The threads that look up routes and number packets, with the numbers each flow direction got.  A
direction counts up from 0, in its route entry or in the fallback table of its thread, until its
way there is overwritten.
-/

namespace NeEncryptor.Route

/-- Where a thread is in `dp_udp_next_tx_seq`. -/
inductive Phase
  | idle
  /-- After the first scan found nothing. -/
  | missed (pkt : Packet) (key : Key) (direction : Bool)
  /-- After `dp_flow_route_get`. -/
  | routed (key : Key) (direction : Bool)
  deriving DecidableEq

structure Thread where
  tables : Local
  phase : Phase

/-- The process, with the numbers each flow direction got and the directions whose number a thread
lost when it overwrote the way. -/
structure World where
  table : Table
  threads : ℕ → Thread
  returned : Key → Bool → List (BitVec 32)
  lost : ℕ → Key → Bool → Bool

inductive Action
  | setActiveTxSlots (slots : BitVec 32)
  /-- `dp_flow_route_get` by any thread. -/
  | routeGet (pkt : Packet) (workerHint : ℤ)
  /-- `dp_udp_next_tx_seq` up to its first scan. -/
  | start (t : ℕ) (pkt : Packet)
  /-- Its call of `dp_flow_route_get`. -/
  | retry (t : ℕ) (workerHint : ℤ)
  /-- Its second scan and the fallback. -/
  | finish (t : ℕ)

namespace World

/-- A new process. -/
def init : World :=
  ⟨.init, fun _ => ⟨.init, .idle⟩, fun _ _ => [], fun _ _ _ => false⟩

def setPhase (w : World) (t : ℕ) (phase : Phase) : World :=
  { w with threads := Function.update w.threads t { w.threads t with phase } }

/-- A number is returned. -/
def record (w : World) (key : Key) (direction : Bool) (seq : BitVec 32) : World :=
  { w with
    returned := Function.update w.returned key
      (Function.update (w.returned key) direction (w.returned key direction ++ [seq])) }

/-- The fallback of a thread. -/
def fallback (w : World) (t : ℕ) (key : Key) (direction : Bool) : World :=
  let l := (w.threads t).tables
  let (tables, seq) := l.fallbackSeq key direction
  let loses := fun k d => (l.victim key).any fun f => f.key = k ∧ f.nextSeq d ≠ 0
  { w.record key direction seq with
    threads := Function.update w.threads t ⟨tables, .idle⟩
    lost := Function.update w.lost t fun k d => w.lost t k d || loses k d }

/-- `none` where the thread is not at the step. -/
def step (w : World) : Action → Option World
  | .setActiveTxSlots slots => some { w with table := w.table.dpRouteSetActiveTxSlots slots }
  | .routeGet pkt hint => some { w with table := (w.table.dpFlowRouteGet pkt hint).1 }
  | .start t pkt =>
    match (w.threads t).phase with
    | .idle =>
      match dpRouteKeyParseDirection pkt with
      | none => some w
      | some (key, direction) =>
        if key.protocol ≠ 17 then some w
        else
          match w.table.takeSeq key direction with
          | some (table, seq) => some ({ w with table }.record key direction seq)
          | none => some (w.setPhase t (.missed pkt key direction))
    | _ => none
  | .retry t hint =>
    match (w.threads t).phase with
    | .missed pkt key direction =>
      some ({ w with table := (w.table.dpFlowRouteGet pkt hint).1 }.setPhase t
        (.routed key direction))
    | _ => none
  | .finish t =>
    match (w.threads t).phase with
    | .routed key direction =>
      match w.table.takeSeq key direction with
      | some (table, seq) =>
        some (({ w with table }.record key direction seq).setPhase t .idle)
      | none => some (w.fallback t key direction)
    | _ => none

/-- The numbers of a flow direction are 0, 1, 2, … modulo `2 ^ 32`. -/
def InOrder (w : World) (key : Key) (direction : Bool) : Prop :=
  w.returned key direction =
    (List.range (w.returned key direction).length).map (BitVec.ofNat 32)

instance (w : World) (key : Key) (direction : Bool) : Decidable (w.InOrder key direction) :=
  inferInstanceAs (Decidable (_ = _))

/-- The worker `t` alone numbers the flow direction. -/
def HandledBy (t : ℕ) (key : Key) (direction : Bool) : Action → Prop
  | .start t' pkt => dpRouteKeyParseDirection pkt = some (key, direction) → t' = t
  | _ => True

/-- The step does not take a number of the flow direction from the fallback after the fallback has
lost the direction. -/
def KeepsNumber (t : ℕ) (key : Key) (direction : Bool) (w : World) : Action → Prop
  | .finish t' => (w.threads t').phase = .routed key direction → w.table.entry key = none →
      w.lost t key direction = false
  | _ => True

instance (t : ℕ) (key : Key) (direction : Bool) :
    (a : Action) → Decidable (HandledBy t key direction a)
  | .start t' pkt =>
    inferInstanceAs (Decidable (dpRouteKeyParseDirection pkt = some (key, direction) → t' = t))
  | .setActiveTxSlots _ | .routeGet _ _ | .retry _ _ | .finish _ => isTrue trivial

instance (table : Table) (key : Key) : Decidable (table.entry key = none) :=
  decidable_of_iff ((table.entry key).isNone = true) Option.isNone_iff_eq_none

instance (t : ℕ) (key : Key) (direction : Bool) (w : World) :
    (a : Action) → Decidable (KeepsNumber t key direction w a)
  | .finish t' =>
    inferInstanceAs (Decidable ((w.threads t').phase = .routed key direction →
      w.table.entry key = none → w.lost t key direction = false))
  | .setActiveTxSlots _ | .routeGet _ _ | .start _ _ | .retry _ _ => isTrue trivial

/-- How many numbers a flow direction got, modulo `2 ^ 32`. -/
def count (w : World) (key : Key) (direction : Bool) : BitVec 32 :=
  BitVec.ofNat 32 (w.returned key direction).length

/-- The next number of a flow direction is right, wherever it is kept, until it is lost. -/
structure Counted (t : ℕ) (key : Key) (direction : Bool) (w : World) : Prop where
  inOrder : w.InOrder key direction
  parsed : ∀ t' pkt k d, (w.threads t').phase = .missed pkt k d →
    dpRouteKeyParseDirection pkt = some (k, d)
  mine : ∀ t', (w.threads t').phase = .routed key direction ∨
    (∃ pkt, (w.threads t').phase = .missed pkt key direction) → t' = t
  settled : ∀ t' d, (w.threads t').phase = .routed key d →
    w.table.entry key ≠ none ∨ Ways.Full (w.table.setOf key)
  unused : w.table.entry key = none → ¬ Ways.Full (w.table.setOf key) →
    w.returned key direction = []
  present : ∀ e, w.table.entry key = some e →
    (e.udpTxSeq direction).setWidth 32 = w.count key direction
  absent : w.table.entry key = none → w.lost t key direction = false →
    (w.threads t).tables.value key direction = w.count key direction
  /-- A lost number is not the one that the fallback starts again with. -/
  gone : w.table.entry key = none → w.lost t key direction = true →
    (w.threads t).tables.value key direction = 0 ∧ w.count key direction ≠ 0
  sound : (w.threads t).tables.Sound

variable {w w' : World} {t : ℕ} {key k : Key} {direction d : Bool} {seq : BitVec 32}
  {table : Table}

theorem counted_init (t : ℕ) (key : Key) (direction : Bool) : init.Counted t key direction where
  inOrder := rfl
  parsed := fun _ _ _ _ h => by cases h
  mine := by
    rintro _ (h | ⟨_, h⟩)
    · cases h
    · cases h
  settled := fun _ _ h => by cases h
  unused := fun _ _ => rfl
  present := fun e h => by
    have absent : init.table.entry key = none :=
      Ways.entry_eq_none_iff.mpr (Ways.find_eq_none_iff.mpr fun _ _ valid => by cases valid)
    rw [absent] at h
    cases h
  absent := fun _ _ => Local.value_of_absent
    (Ways.entry_eq_none_iff.mpr (Ways.find_eq_none_iff.mpr fun _ _ valid => by cases valid))
  gone := fun _ h => by cases h
  sound := Local.sound_init

theorem returned_record_self :
    (w.record key direction seq).returned key direction = w.returned key direction ++ [seq] := by
  simp [record]

theorem returned_record_of_ne (other : ¬ (key = k ∧ direction = d)) :
    (w.record k d seq).returned key direction = w.returned key direction := by
  by_cases same : key = k
  · subst same
    have other : direction ≠ d := fun h => other ⟨rfl, h⟩
    simp [record, Function.update_of_ne other]
  · simp [record, Function.update_of_ne same]

theorem count_of_returned (same : w'.returned key direction = w.returned key direction) :
    w'.count key direction = w.count key direction := by
  rw [count, same, count]

theorem count_record_self :
    (w.record key direction seq).count key direction = w.count key direction + 1 := by
  rw [count, returned_record_self, List.length_append, BitVec.ofNat_add]
  rfl

/-- A number is in order where it is the next one. -/
theorem inOrder_record_iff (inOrder : w.InOrder key direction) :
    (w.record key direction seq).InOrder key direction ↔ seq = w.count key direction := by
  unfold InOrder at inOrder ⊢
  rw [returned_record_self, List.length_append, List.length_singleton, List.range_succ,
    List.map_append, ← inOrder]
  constructor
  · intro h
    exact List.singleton_inj.mp (List.append_cancel_left h)
  · intro h
    rw [h]
    rfl

/-- What a number taken from the fallback does to the next number of a direction: it is stepped, it
stays, or it is lost. -/
theorem fallback_effect {t' : ℕ} (sound : (w.threads t).tables.Sound)
    (here : key = k → direction = d → t' = t) :
    ((w.fallback t' k d).threads t).tables.Sound ∧
      (key = k ∧ direction = d ∧
          ((w.fallback t' k d).threads t).tables.value key direction =
            (w.threads t).tables.value key direction + 1 ∧
          (w.fallback t' k d).lost t key direction = w.lost t key direction ∨
        ¬ (key = k ∧ direction = d) ∧
          (((w.fallback t' k d).threads t).tables.value key direction =
              (w.threads t).tables.value key direction ∧
            (w.fallback t' k d).lost t key direction = w.lost t key direction ∨
          (w.threads t).tables.value key direction ≠ 0 ∧
            ((w.fallback t' k d).threads t).tables.value key direction = 0 ∧
            (w.fallback t' k d).lost t key direction = true)) := by
  by_cases same : t' = t
  · subst same
    have tables : ((w.fallback t' k d).threads t').tables =
        ((w.threads t').tables.fallbackSeq k d).1 := by simp [World.fallback]
    have lost : (w.fallback t' k d).lost t' key direction = (w.lost t' key direction ||
        ((w.threads t').tables.victim k).any fun f => f.key = key ∧ f.nextSeq direction ≠ 0) := by
      simp [World.fallback]
    have after := Local.fallbackSeq_value sound k key d direction
    rw [tables, lost, after.1]
    refine ⟨Local.sound_fallbackSeq sound k d, ?_⟩
    by_cases own : key = k ∧ direction = d
    · refine .inl ⟨own.1, own.2, if_pos own, ?_⟩
      have spared : ((w.threads t').tables.victim k).any
          (fun f => f.key = key ∧ f.nextSeq direction ≠ 0) = false := by
        rw [Bool.eq_false_iff, ne_eq, Option.any_eq_true]
        rintro ⟨f, victim, carried⟩
        exact (after.2 f victim (of_decide_eq_true carried).1).1 own.1
      rw [spared, Bool.or_false]
    · refine .inr ⟨own, ?_⟩
      rw [if_neg own]
      cases victim : (w.threads t').tables.victim k with
      | none => exact .inl ⟨rfl, Bool.or_false _⟩
      | some f =>
        by_cases carried : f.key = key
        · have value := (after.2 f victim carried).2
          by_cases zero : f.nextSeq direction = 0
          · left
            simp [carried, zero, value]
          · have zero : ¬ f.nextSeq direction = 0#32 := zero
            right
            simp [carried, zero, value]
        · left
          simp [carried]
  · have other : ¬ (key = k ∧ direction = d) := fun own => same (here own.1 own.2)
    have threads : (w.fallback t' k d).threads t = w.threads t :=
      Function.update_of_ne (Ne.symm same) _ _
    have lost : (w.fallback t' k d).lost t = w.lost t :=
      Function.update_of_ne (Ne.symm same) _ _
    rw [threads, lost]
    exact ⟨sound, .inr ⟨other, .inl ⟨rfl, rfl⟩⟩⟩

namespace Counted

/-- Route lookups of any flow keep the numbers. -/
theorem extend (counted : w.Counted t key direction) (grows : Table.Extends key w.table table) :
    ({ w with table } : World).Counted t key direction := by
  have still_absent (h : table.entry key = none) : w.table.entry key = none := by
    rcases grows.entry with same | ⟨absent, -⟩
    · rwa [← same]
    · exact absent
  exact
    { inOrder := counted.inOrder
      parsed := counted.parsed
      mine := counted.mine
      settled := fun t' d phase => (counted.settled t' d phase).imp
        (fun present absent => present (still_absent absent)) grows.full
      unused := fun absent room => counted.unused (still_absent absent)
        fun full => room (grows.full full)
      present := fun e present => by
        rcases grows.entry with same | ⟨absent, room, e', inserted, fresh⟩
        · exact counted.present e (same ▸ present)
        · obtain rfl := Option.some.inj (present.symm.trans inserted)
          have unused : ({ w with table } : World).count key direction = 0 := by
            rw [count, counted.unused absent room]
            rfl
          rw [fresh, unused]
          rfl
      absent := fun absent => counted.absent (still_absent absent)
      gone := fun absent => counted.gone (still_absent absent)
      sound := counted.sound }

theorem setPhase (counted : w.Counted t key direction) (t' : ℕ) (phase : Phase)
    (parsed : ∀ pkt k d, phase = .missed pkt k d → dpRouteKeyParseDirection pkt = some (k, d))
    (mine : phase = .routed key direction ∨ (∃ pkt, phase = .missed pkt key direction) → t' = t)
    (settled : ∀ d, phase = .routed key d →
      w.table.entry key ≠ none ∨ Ways.Full (w.table.setOf key)) :
    (w.setPhase t' phase).Counted t key direction := by
  have tables (i : ℕ) : ((w.setPhase t' phase).threads i).tables = (w.threads i).tables := by
    by_cases here : i = t'
    · subst here
      simp [World.setPhase]
    · simp [World.setPhase, Function.update_of_ne here]
  have phases (i : ℕ) : ((w.setPhase t' phase).threads i).phase = (w.threads i).phase ∨
      i = t' ∧ ((w.setPhase t' phase).threads i).phase = phase := by
    by_cases here : i = t'
    · subst here
      simp [World.setPhase]
    · simp [World.setPhase, Function.update_of_ne here]
  constructor
  · exact counted.inOrder
  · intro i pkt k d h
    rcases phases i with same | ⟨rfl, same⟩
    · exact counted.parsed i pkt k d (same ▸ h)
    · exact parsed pkt k d (same ▸ h)
  · intro i h
    rcases phases i with same | ⟨rfl, same⟩
    · exact counted.mine i (same ▸ h)
    · exact mine (same ▸ h)
  · intro i d h
    rcases phases i with same | ⟨rfl, same⟩
    · exact counted.settled i d (same ▸ h)
    · exact settled d (same ▸ h)
  · exact counted.unused
  · exact counted.present
  · intro absent kept
    rw [tables]
    exact counted.absent absent kept
  · intro absent lost
    rw [tables]
    exact counted.gone absent lost
  · rw [tables]
    exact counted.sound

/-- A number taken from a route entry. -/
theorem takeSeq (counted : w.Counted t key direction)
    (taken : w.table.takeSeq k d = some (table, seq)) :
    (({ w with table } : World).record k d seq).Counted t key direction := by
  obtain ⟨e, before, number, after, others, full⟩ := Table.takeSeq_some taken
  have absent_iff : table.entry key = none ↔ w.table.entry key = none := by
    by_cases same : key = k
    · subst same
      rw [before, after]
      simp
    · rw [others key same]
  have not_own (absent : table.entry key = none) : ¬ (key = k ∧ direction = d) := by
    rintro ⟨rfl, -⟩
    rw [after] at absent
    cases absent
  have returned (absent : table.entry key = none) :
      (({ w with table } : World).record k d seq).returned key direction =
        w.returned key direction := returned_record_of_ne (not_own absent)
  constructor
  · by_cases own : key = k ∧ direction = d
    · obtain ⟨rfl, rfl⟩ := own
      refine (inOrder_record_iff counted.inOrder).mpr ?_
      rw [number]
      exact counted.present e before
    · unfold InOrder
      rw [returned_record_of_ne own]
      exact counted.inOrder
  · exact counted.parsed
  · exact counted.mine
  · intro t' d' phase
    exact (counted.settled t' d' phase).imp (fun present absent => present (absent_iff.mp absent))
      (full key)
  · intro absent room
    rw [returned absent]
    exact counted.unused (absent_iff.mp absent) fun f => room (full key f)
  · intro e' present
    replace present : table.entry key = some e' := present
    by_cases same : key = k
    · subst same
      obtain rfl := Option.some.inj (after.symm.trans present)
      by_cases same : direction = d
      · subst same
        rw [count_record_self]
        dsimp only
        rw [Function.update_self, BitVec.setWidth_add _ _ (by decide), counted.present e before]
        rfl
      · rw [count_of_returned (returned_record_of_ne fun h => same h.2)]
        dsimp only
        rw [Function.update_of_ne same]
        exact counted.present e before
    · rw [count_of_returned (returned_record_of_ne fun h => same h.1)]
      exact counted.present e' (others key same ▸ present)
  · intro absent kept
    rw [count_of_returned (returned absent)]
    exact counted.absent (absent_iff.mp absent) kept
  · intro absent lost
    rw [count_of_returned (returned absent)]
    exact counted.gone (absent_iff.mp absent) lost
  · exact counted.sound

/-- A number taken from the fallback of a thread. -/
theorem fallback {t' : ℕ} (counted : w.Counted t key direction)
    (phase : (w.threads t').phase = .routed k d)
    (keeps : key = k → direction = d →
      w.table.entry key = none ∧ w.lost t key direction = false) :
    (w.fallback t' k d).Counted t key direction := by
  have here : key = k → direction = d → t' = t := by
    rintro rfl rfl
    exact counted.mine t' (.inl phase)
  obtain ⟨sound, effect⟩ := fallback_effect counted.sound here
  have phases (i : ℕ) : ((w.fallback t' k d).threads i).phase = (w.threads i).phase ∨
      ((w.fallback t' k d).threads i).phase = .idle := by
    by_cases at_i : i = t'
    · subst at_i
      simp [World.fallback]
    · simp [World.fallback, Function.update_of_ne at_i]
  have returned (other : ¬ (key = k ∧ direction = d)) :
      (w.fallback t' k d).returned key direction = w.returned key direction :=
    returned_record_of_ne other
  have unchanged (other : ¬ (key = k ∧ direction = d)) :
      (w.fallback t' k d).count key direction = w.count key direction :=
    count_of_returned (returned other)
  have counts (own : key = k ∧ direction = d) :
      (w.fallback t' k d).count key direction = w.count key direction + 1 := by
    obtain ⟨rfl, rfl⟩ := own
    exact count_record_self
  constructor
  · by_cases own : key = k ∧ direction = d
    · obtain ⟨rfl, rfl⟩ := own
      refine (inOrder_record_iff counted.inOrder).mpr ?_
      refine (Local.fallbackSeq_snd (w.threads t').tables key direction).trans ?_
      rw [here rfl rfl]
      exact counted.absent (keeps rfl rfl).1 (keeps rfl rfl).2
    · unfold InOrder
      rw [returned own]
      exact counted.inOrder
  · intro i pkt k' d' h
    rcases phases i with same | idle
    · exact counted.parsed i pkt k' d' (same ▸ h)
    · rw [idle] at h
      cases h
  · intro i h
    rcases phases i with same | idle
    · exact counted.mine i (same ▸ h)
    · rw [idle] at h
      rcases h with h | ⟨_, h⟩
      · cases h
      · cases h
  · intro i d' h
    rcases phases i with same | idle
    · exact counted.settled i d' (same ▸ h)
    · rw [idle] at h
      cases h
  · intro absent room
    by_cases own : key = k ∧ direction = d
    · obtain ⟨rfl, rfl⟩ := own
      rcases counted.settled t' direction phase with present | full
      · exact absurd absent present
      · exact absurd full room
    · rw [returned own]
      exact counted.unused absent room
  · intro e present
    by_cases own : key = k ∧ direction = d
    · have absent := (keeps own.1 own.2).1
      exact absurd (absent.symm.trans present) (Option.some_ne_none e).symm
    · rw [unchanged own]
      exact counted.present e present
  · intro absent kept
    rcases effect with ⟨rfl, rfl, stepped, lost⟩ | ⟨other, ⟨same, lost⟩ | ⟨_, _, lost⟩⟩
    · rw [stepped, counts ⟨rfl, rfl⟩, counted.absent absent (keeps rfl rfl).2]
    · rw [same, unchanged other]
      exact counted.absent absent (lost ▸ kept)
    · rw [lost] at kept
      cases kept
  · intro absent gone
    rcases effect with ⟨rfl, rfl, _, lost⟩ | ⟨other, ⟨same, lost⟩ | ⟨nonzero, zero, _⟩⟩
    · rw [lost, (keeps rfl rfl).2] at gone
      cases gone
    · rw [same, unchanged other]
      exact counted.gone absent (lost ▸ gone)
    · rw [zero, unchanged other]
      cases before : w.lost t key direction with
      | true => exact absurd (counted.gone absent before).1 nonzero
      | false => exact ⟨rfl, counted.absent absent before ▸ nonzero⟩
  · exact sound

/-- Every step that keeps the number of the flow direction counts on. -/
theorem step {a : Action} (counted : w.Counted t key direction)
    (handled : HandledBy t key direction a) (keeps : KeepsNumber t key direction w a)
    (enabled : w.step a = some w') : w'.Counted t key direction := by
  cases a with
  | setActiveTxSlots slots =>
    cases enabled
    exact counted.extend ⟨.inl rfl, id⟩
  | routeGet pkt hint =>
    cases enabled
    exact counted.extend (Table.dpFlowRouteGet_extends key w.table pkt hint)
  | start t' pkt =>
    rw [World.step] at enabled
    split at enabled
    · split at enabled
      · cases enabled
        exact counted
      rename_i k d parsed
      split at enabled
      · cases enabled
        exact counted
      split at enabled
      · rename_i taken
        cases enabled
        exact counted.takeSeq taken
      · cases enabled
        refine counted.setPhase t' _ ?_ ?_ fun _ h => by cases h
        · intro pkt' k' d' h
          cases h
          exact parsed
        · rintro (h | ⟨_, h⟩)
          · cases h
          · cases h
            exact handled parsed
    · cases enabled
  | retry t' hint =>
    rw [World.step] at enabled
    split at enabled
    · rename_i pkt k d phase
      cases enabled
      have parsed := counted.parsed t' pkt k d phase
      refine (counted.extend (Table.dpFlowRouteGet_extends key w.table pkt hint)).setPhase t' _
        (fun _ _ _ h => by cases h) ?_ ?_
      · rintro (h | ⟨_, h⟩)
        · cases h
          exact counted.mine t' (.inr ⟨pkt, phase⟩)
        · cases h
      · intro d' h
        cases h
        exact Table.dpFlowRouteGet_settles hint parsed
    · cases enabled
  | finish t' =>
    rw [World.step] at enabled
    split at enabled
    · rename_i k d phase
      split at enabled
      · rename_i taken
        cases enabled
        refine (counted.takeSeq taken).setPhase t' .idle (fun _ _ _ h => by cases h) ?_
          fun _ h => by cases h
        rintro (h | ⟨_, h⟩)
        · cases h
        · cases h
      · rename_i missing
        cases enabled
        refine counted.fallback phase ?_
        rintro rfl rfl
        have absent := Table.takeSeq_eq_none_iff.mp missing
        exact ⟨absent, keeps phase absent⟩
    · cases enabled

end Counted

/-- A run in which one worker handles the flow direction and never numbers it in the fallback after
the fallback has lost it. -/
abbrev KeptRun (t : ℕ) (key : Key) (direction : Bool) : World → Prop :=
  Transition.ReachableWith step
    (fun w a => HandledBy t key direction a ∧ KeepsNumber t key direction w a) init

theorem KeptRun.counted (run : KeptRun t key direction w) : w.Counted t key direction :=
  run.invariant (counted_init t key direction)
    fun _ _ _ counted admitted enabled => counted.step admitted.1 admitted.2 enabled

/-- A direction that the fallback lost gets a number a second time. -/
theorem Counted.not_inOrder {a : Action} (counted : w.Counted t key direction)
    (loses : ¬ KeepsNumber t key direction w a) (enabled : w.step a = some w') :
    ¬ w'.InOrder key direction := by
  cases a with
  | finish t' =>
    simp only [KeepsNumber, Classical.not_imp, Bool.not_eq_false] at loses
    obtain ⟨phase, absent, lost⟩ := loses
    have mine := counted.mine t' (.inl phase)
    have gone := counted.gone absent lost
    simp only [World.step, phase, Table.takeSeq_eq_none_iff.mpr absent] at enabled
    cases enabled
    intro inOrder
    have given := Local.fallbackSeq_snd (w.threads t').tables key direction
    have number := (inOrder_record_iff counted.inOrder).mp inOrder
    rw [mine, gone.1] at given
    exact gone.2 (number.symm.trans (mine ▸ given))
  | _ => exact absurd trivial loses

/-- The numbers of a flow direction count up from 0 in every run that keeps its number, and the
first step that does not keep it breaks the order. -/
theorem numbers_in_order (run : KeptRun t key direction w) :
    w.InOrder key direction ∧
      ∀ a w', HandledBy t key direction a → w.step a = some w' →
        (w'.InOrder key direction ↔ KeepsNumber t key direction w a) := by
  refine ⟨run.counted.inOrder, fun a w' handled enabled => ⟨fun inOrder => ?_, fun keeps => ?_⟩⟩
  · by_contra loses
    exact run.counted.not_inOrder loses enabled inOrder
  · exact (run.counted.step handled keeps enabled).inOrder

/-- UDP flows that all hash to one set. -/
def sampleFlow (i : ℕ) : Packet :=
  ⟨[], some ⟨0x0a000001, 0x0a000100 ^^^ BitVec.ofNat 32 i, 5000, 6000 ^^^ BitVec.ofNat 16 i, 17⟩⟩

def sampleKey : Key := ⟨0x0a000001, 0x0a000108, 5000, 6008, 17⟩

def sampleCall (i : ℕ) : List Action := [.start 0 (sampleFlow i), .retry 0 0, .finish 0]

theorem numbers_in_order_sample :
    ∃ w, KeptRun 0 sampleKey false w ∧ w.returned sampleKey false = [0, 1] ∧
      w.InOrder sampleKey false := by
  have run : ((Transition.runWith step
      (fun w a => HandledBy 0 sampleKey false a ∧ KeepsNumber 0 sampleKey false w a) init
      ((sampleCall 8).append [.start 0 (sampleFlow 8)])).any fun w =>
        w.returned sampleKey false = [0, 1]) = true := by decide +kernel
  obtain ⟨w, reached, ends⟩ := (Option.any_eq_true _ _).mp run
  have kept : KeptRun 0 sampleKey false w := .of_runWith _ reached
  exact ⟨w, kept, of_decide_eq_true ends, (numbers_in_order kept).1⟩

/-- Eight flows fill the route set.  Of the next five the last takes the fallback way of the first,
which then starts again at 0. -/
theorem numbers_not_always_in_order :
    ¬ ∀ t key direction w,
      Transition.ReachableWith step (fun _ a => HandledBy t key direction a) init w →
        w.InOrder key direction := by
  intro always
  have run : ((Transition.runWith step (fun _ a => HandledBy 0 sampleKey false a) init
      ((List.range 8).map (fun i => .routeGet (sampleFlow i) (-1)) ++
        [8, 9, 10, 11, 12, 8].flatMap sampleCall)).any fun w =>
          !decide (w.InOrder sampleKey false)) = true := by decide +kernel
  obtain ⟨w, reached, bad⟩ := (Option.any_eq_true _ _).mp run
  exact absurd (always 0 sampleKey false w (.of_runWith _ reached)) (by simpa using bad)

end World

end NeEncryptor.Route
