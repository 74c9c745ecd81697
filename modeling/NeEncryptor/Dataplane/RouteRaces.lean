import Mathlib.Data.Fintype.Prod
import NeEncryptor.Lib.Transition
import NeEncryptor.Dataplane.RouteTables

/-!
# Route lookups of many threads

`dp_flow_route_get` as it runs in any number of threads: the look at a way, the exchange that takes
the lock, the choice of a worker and of a slot, the counts, the store that publishes the entry and
the one that gives the lock back are steps of their own.
-/

namespace NeEncryptor.Route

open Transition

/-! ## The calls -/

/-- The arguments of `dp_flow_route_get`. -/
structure Call where
  pkt : Packet
  workerHint : ℤ

/-- The route in an entry. -/
def Entry.route (e : Entry) : FlowRoute := ⟨e.workerIdx, e.txSlot⟩

/-- The route of a hash. -/
def Table.hashRoute (table : Table) (hash : BitVec 32) : FlowRoute :=
  ⟨dpHashToN hash cryptoWorkers, dpHashToN hash table.dpActiveTxSlots⟩

/-- Where a thread is in `dp_flow_route_get`; the scans have the ways that are left. -/
inductive Pc
  | idle
  | lookup (c : Call) (key : Key) (ways : List (Fin 8))
  | lock (c : Call) (key : Key)
  | rescan (c : Call) (key : Key) (ways : List (Fin 8)) (empty : Option (Fin 8))
  | pickWorker (c : Call) (key : Key) (empty : Fin 8)
  | pickTx (c : Call) (key : Key) (empty : Fin 8) (workerIdx : ℕ)
  | countWorker (c : Call) (key : Key) (empty : Fin 8) (route : FlowRoute)
  | countTx (c : Call) (key : Key) (empty : Fin 8) (route : FlowRoute)
  | publish (c : Call) (key : Key) (empty : Fin 8) (route : FlowRoute)
  | unlock (c : Call) (route : FlowRoute)

/-- The table, the thread that has `g_route_insert_lock`, and the calls that have returned. -/
structure Threads (T : Type*) where
  table : Table
  lock : Option T
  pc : T → Pc
  returned : List (Call × FlowRoute)

inductive Act (T : Type*)
  | call (t : T) (c : Call)
  | advance (t : T)

namespace Threads

variable {T : Type*} [DecidableEq T]

/-- The thread goes on at another place. -/
def goto (st : Threads T) (t : T) (pc : Pc) : Threads T :=
  { st with pc := Function.update st.pc t pc }

/-- The call of the thread returns. -/
def ret (st : Threads T) (t : T) (c : Call) (route : FlowRoute) : Threads T :=
  { st.goto t .idle with returned := st.returned ++ [(c, route)] }

/-- What a thread does next. -/
def advance (st : Threads T) (t : T) : Option (Threads T) :=
  match st.pc t with
  | .idle => none
  | .lookup c key [] => some (st.goto t (.lock c key))
  | .lookup c key (way :: ways) =>
    match st.table.setOf key way with
    | none => some (st.goto t (.lookup c key ways))
    | some e =>
      if e.key = key then some (st.ret t c e.route) else some (st.goto t (.lookup c key ways))
  | .lock c key =>
    -- `dp_route_insert_lock` spins while another thread has the lock.
    if st.lock.isNone then
      some { st.goto t (.rescan c key (List.finRange 8) none) with lock := some t }
    else none
  | .rescan c key (way :: ways) empty =>
    match st.table.setOf key way with
    | none => some (st.goto t (.rescan c key ways (empty.or (some way))))
    | some e =>
      if e.key = key then some (st.goto t (.unlock c e.route))
      else some (st.goto t (.rescan c key ways empty))
  | .rescan c key [] none => some (st.goto t (.unlock c (st.table.hashRoute (dpRouteKeyHash key))))
  | .rescan c key [] (some way) => some (st.goto t (.pickWorker c key way))
  | .pickWorker c key way =>
    if 0 ≤ c.workerHint ∧ c.workerHint < cryptoWorkers then
      some (st.goto t (.pickTx c key way c.workerHint.toNat))
    else
      let workerIdx := dpRouteLeastLoaded st.table.workerCount cryptoWorkers st.table.workerRr
      some { st.goto t (.pickTx c key way workerIdx) with
        table := { st.table with workerRr := st.table.workerRr + 1 } }
  | .pickTx c key way workerIdx =>
    let txSlot := dpRouteLeastLoaded st.table.txCount st.table.dpActiveTxSlots st.table.txRr
    some { st.goto t (.countWorker c key way ⟨workerIdx, txSlot⟩) with
      table := { st.table with txRr := st.table.txRr + 1 } }
  | .countWorker c key way route =>
    some { st.goto t (.countTx c key way route) with
      table := { st.table with
        workerCount := Function.update st.table.workerCount route.workerIdx
          (st.table.workerCount route.workerIdx + 1) } }
  | .countTx c key way route =>
    some { st.goto t (.publish c key way route) with
      table := { st.table with
        txCount := Function.update st.table.txCount route.txSlot
          (st.table.txCount route.txSlot + 1) } }
  | .publish c key way route =>
    some { st.goto t (.unlock c route) with
      table := st.table.write key way
        ⟨key, fun _ => 0, route.workerIdx % 256, route.txSlot % 256⟩ }
  | .unlock c route => some { st.ret t c route with lock := none }

def step (st : Threads T) : Act T → Option (Threads T)
  | .call t c =>
    match st.pc t, dpRouteKeyParseDirection c.pkt with
    | .idle, none => some (st.ret t c (st.table.hashRoute (dpPktFlowHash c.pkt)))
    | .idle, some (key, _) => some (st.goto t (.lookup c key (List.finRange 8)))
    | _, _ => none
  | .advance t => st.advance t

/-- The threads of a new process, with a number of transmit slots. -/
def initial (slots : BitVec 32) : Threads T :=
  ⟨Table.init.dpRouteSetActiveTxSlots slots, none, fun _ => .idle, []⟩

end Threads

/-! ## What holds while the threads run -/

/-- The number of entries with a property. -/
def Table.assigned (table : Table) (p : Entry → Bool) : ℕ :=
  (Finset.univ.filter fun x : Fin 8192 × Fin 8 => (table.routes x.1 x.2).any p = true).card

/-- The route is the one of the flow's entry, or there is no room for an entry. -/
def Table.Settled (table : Table) (c : Call) (route : FlowRoute) : Prop :=
  ∀ key direction, dpRouteKeyParseDirection c.pkt = some (key, direction) →
    (∃ way e, table.setOf key way = some e ∧ e.key = key ∧ route = e.route) ∨
      table.findWay key = none ∧ Ways.Full (table.setOf key) ∧
        route = table.hashRoute (dpRouteKeyHash key)

/-- The call is for the key. -/
def Call.Keyed (c : Call) (key : Key) : Prop :=
  ∃ direction, dpRouteKeyParseDirection c.pkt = some (key, direction)

/-- The key has no entry, and the way is free for one. -/
def Table.Free (table : Table) (key : Key) (way : Fin 8) : Prop :=
  table.findWay key = none ∧ table.setOf key way = none

namespace Pc

/-- The thread has the lock. -/
def inside : Pc → Bool
  | .idle | .lookup .. | .lock .. => false
  | _ => true

/-- The thread has counted the worker of an entry that is not yet valid. -/
def countedWorker (w : ℕ) : Pc → ℕ
  | .countTx _ _ _ route | .publish _ _ _ route => if route.workerIdx = w then 1 else 0
  | _ => 0

/-- The thread has counted the slot of an entry that is not yet valid. -/
def countedTx (s : ℕ) : Pc → ℕ
  | .publish _ _ _ route => if route.txSlot = s then 1 else 0
  | _ => 0

/-- What a thread knows about the table. -/
def Sound (table : Table) : Pc → Prop
  | .idle => True
  | .lookup c key _ => c.Keyed key
  | .lock c key => c.Keyed key
  | .rescan c key ways empty => c.Keyed key ∧
      (∀ way ∉ ways, ∀ e, table.setOf key way = some e → e.key ≠ key) ∧
      (empty = none → ∀ way ∉ ways, table.setOf key way ≠ none) ∧
      ∀ way, empty = some way → table.setOf key way = none
  | .pickWorker c key way => c.Keyed key ∧ table.Free key way
  | .pickTx c key way workerIdx => c.Keyed key ∧ table.Free key way ∧ workerIdx < cryptoWorkers
  | .countWorker c key way route | .countTx c key way route | .publish c key way route =>
      c.Keyed key ∧ table.Free key way ∧ route.workerIdx < cryptoWorkers ∧ route.txSlot < txSlots
  | .unlock c route => table.Settled c route

end Pc

section Table

variable {table table' : Table} {key : Key} {way : Fin 8} {e : Entry} {c : Call} {route : FlowRoute}

theorem Call.Keyed.unique {key' : Key} (one : c.Keyed key) (other : c.Keyed key') : key = key' := by
  obtain ⟨_, parsed⟩ := one
  obtain ⟨_, parsed'⟩ := other
  rw [parsed] at parsed'
  cases parsed'
  rfl

/-- Both directions of a flow have the key of the flow. -/
theorem keyed_of_flow {c c' : Call} {f : FiveTuple} (carried : f.protocol = 6 ∨ f.protocol = 17)
    (flow : c.pkt.flow = some f)
    (flow' : c'.pkt.flow = some f ∨ c'.pkt.flow = some f.reversed) :
    ∃ key, c.Keyed key ∧ c'.Keyed key := by
  have parsed (d : Call) (g : FiveTuple) (isFlow : d.pkt.flow = some g)
      (same : g.protocol = f.protocol) :
      d.Keyed (if g.dstIp < g.srcIp ∨ g.srcIp = g.dstIp ∧ g.dstPort < g.srcPort then
        ⟨g.dstIp, g.srcIp, g.dstPort, g.srcPort, g.protocol⟩
        else ⟨g.srcIp, g.dstIp, g.srcPort, g.dstPort, g.protocol⟩) := by
    have known : ¬ (g.protocol ≠ 6 ∧ g.protocol ≠ 17) := by
      rw [same]
      tauto
    unfold Call.Keyed dpRouteKeyParseDirection
    rw [isFlow]
    dsimp only
    rw [if_neg known]
    split
    · exact ⟨true, rfl⟩
    · exact ⟨false, rfl⟩
  refine ⟨_, parsed c f flow rfl, ?_⟩
  rcases flow' with flow' | flow'
  · exact parsed c' f flow' rfl
  · have back := parsed c' f.reversed flow' rfl
    unfold FiveTuple.reversed at back
    dsimp only at back
    split
    · rename_i swapped
      rwa [if_neg] at back
      rintro (less | ⟨same, less⟩)
      all_goals rcases swapped with less' | ⟨same', less'⟩
      all_goals bv_omega
    · rename_i straight
      split at back
      · exact back
      · rename_i straight'
        have ips : f.srcIp = f.dstIp := by bv_omega
        have ports : f.srcPort = f.dstPort := by bv_omega
        rw [ips, ports] at back ⊢
        exact back

theorem write_routes (set : Fin 8192) (w : Fin 8) :
    (table.write key way e).routes set w =
      if set = routeSetOf key ∧ w = way then some e else table.routes set w := by
  unfold Table.write Table.setOf
  by_cases there : set = routeSetOf key
  · subst there
    by_cases here : w = way
    · simp [here]
    · simp [here]
  · simp [there]

/-- A write to a free way keeps every entry. -/
theorem routes_write_of_some (free : table.setOf key way = none) {set : Fin 8192} {w : Fin 8}
    {e' : Entry} (valid : table.routes set w = some e') :
    (table.write key way e).routes set w = some e' := by
  rw [write_routes, if_neg]
  · exact valid
  · rintro ⟨rfl, rfl⟩
    rw [Table.setOf, valid] at free
    cases free

theorem assigned_write (free : table.setOf key way = none) (p : Entry → Bool) :
    (table.write key way e).assigned p = table.assigned p + if p e then 1 else 0 := by
  have elsewhere (x : Fin 8192 × Fin 8) (other : x ≠ (routeSetOf key, way)) :
      (table.write key way e).routes x.1 x.2 = table.routes x.1 x.2 := by
    rw [write_routes, if_neg]
    rintro ⟨same, same'⟩
    exact other (Prod.ext same same')
  have was : table.routes (routeSetOf key) way = none := free
  have is : (table.write key way e).routes (routeSetOf key) way = some e := by
    rw [write_routes, if_pos ⟨rfl, rfl⟩]
  unfold Table.assigned
  cases counted : p e with
  | true =>
    have here : (routeSetOf key, way) ∉
        Finset.univ.filter fun x : Fin 8192 × Fin 8 => (table.routes x.1 x.2).any p = true := by
      simp [was]
    rw [if_pos rfl, ← Finset.card_insert_of_notMem here]
    refine congrArg Finset.card (Finset.ext fun x => ?_)
    by_cases same : x = (routeSetOf key, way)
    · subst same
      simp [is, counted]
    · simp [elsewhere x same, same]
  | false =>
    rw [if_neg Bool.false_ne_true, Nat.add_zero]
    refine congrArg Finset.card (Finset.ext fun x => ?_)
    by_cases same : x = (routeSetOf key, way)
    · subst same
      simp [is, was, counted]
    · simp [elsewhere x same]

theorem assigned_lt (p : Entry → Bool) : table.assigned p < 2 ^ 64 := by
  have all : table.assigned p ≤ (Finset.univ : Finset (Fin 8192 × Fin 8)).card :=
    Finset.card_filter_le _ _
  rw [Finset.card_univ, Fintype.card_prod, Fintype.card_fin, Fintype.card_fin] at all
  omega

/-- What a call has returned stays right when another entry comes. -/
theorem Table.Settled.write (settled : table.Settled c route) (free : table.setOf key way = none) :
    (table.write key way e).Settled c route := by
  intro k direction parsed
  rcases settled k direction parsed with ⟨w, e', valid, same, is⟩ | ⟨absent, full, is⟩
  · exact .inl ⟨w, e', routes_write_of_some free valid, same, is⟩
  · have other : routeSetOf k ≠ routeSetOf key := by
      intro same
      rw [setOf, ← same] at free
      exact full way free
    refine .inr ?_
    rw [findWay, setOf_write_of_ne other]
    exact ⟨absent, full, is⟩

/-- The routes and the number of slots are all that the threads know of. -/
theorem Pc.sound_congr {pc : Pc} (routes : table'.routes = table.routes)
    (slots : table'.activeTxSlots = table.activeTxSlots) : pc.Sound table' = pc.Sound table := by
  obtain ⟨_, _, _, _, _, _⟩ := table
  obtain ⟨_, _, _, _, _, _⟩ := table'
  obtain rfl := routes
  obtain rfl := slots
  cases pc
  all_goals rfl

theorem Table.settled_congr (routes : table'.routes = table.routes)
    (slots : table'.activeTxSlots = table.activeTxSlots) :
    table'.Settled c route = table.Settled c route :=
  @Pc.sound_congr table table' (.unlock c route) routes slots

/-- Threads without the lock know nothing that a write could change. -/
theorem Pc.sound_of_outside {pc : Pc} (outside : pc.inside = false) (sound : pc.Sound table) :
    pc.Sound table' := by
  cases pc with
  | idle => exact sound
  | lookup => exact sound
  | lock => exact sound
  | _ => cases outside

end Table

namespace Threads

variable {T : Type*} [DecidableEq T]

/-- What the thread with the lock has counted in advance. -/
def ahead (st : Threads T) (counted : Pc → ℕ) : ℕ := (st.lock.map fun t => counted (st.pc t)).getD 0

structure Inv (st : Threads T) : Prop where
  inSet : ∀ set way e, st.table.routes set way = some e → routeSetOf e.key = set
  distinct : ∀ set, Ways.Distinct Entry.key (st.table.routes set)
  owner : ∀ t, (st.pc t).inside = true ↔ st.lock = some t
  sound : ∀ t, (st.pc t).Sound st.table
  settled : ∀ r ∈ st.returned, st.table.Settled r.1 r.2
  workers : ∀ w, st.table.workerCount w =
    BitVec.ofNat 64 (st.table.assigned (fun e => e.workerIdx = w) + st.ahead (Pc.countedWorker w))
  slots : ∀ s, st.table.txCount s =
    BitVec.ofNat 64 (st.table.assigned (fun e => e.txSlot = s) + st.ahead (Pc.countedTx s))

/-- Everything a lookup promises about the routes of flows. -/
structure Sticky (st : Threads T) : Prop where
  /-- A flow has one entry at most. -/
  unique : ∀ set set' way way' e e', st.table.routes set way = some e →
    st.table.routes set' way' = some e' → e.key = e'.key → set = set' ∧ way = way'
  /-- An entry never changes. -/
  kept : ∀ st', Reachable step st st' → ∀ set way e, st.table.routes set way = some e →
    st'.table.routes set way = some e
  /-- The calls for a flow, in either direction, return one route. -/
  oneRoute : ∀ r ∈ st.returned, ∀ r' ∈ st.returned, ∀ f, r.1.pkt.flow = some f →
    r'.1.pkt.flow = some f ∨ r'.1.pkt.flow = some f.reversed →
    f.protocol = 6 ∨ f.protocol = 17 → r.2 = r'.2
  /-- Where no thread has the lock, the counts are the numbers of the entries. -/
  counts : st.lock = none →
    (∀ w, (st.table.workerCount w).toNat = st.table.assigned fun e => e.workerIdx = w) ∧
    ∀ s, (st.table.txCount s).toNat = st.table.assigned fun e => e.txSlot = s

variable {st st' : Threads T} {t : T}

/-- A step of a thread that does not touch the table and has no part in the lock. -/
theorem Inv.outside (inv : Inv st) {pc : Pc} {returned : List (Call × FlowRoute)}
    (was : (st.pc t).inside = false) (is : pc.inside = false) (sound : pc.Sound st.table)
    (settled : ∀ r ∈ returned, st.table.Settled r.1 r.2) :
    Inv { st.goto t pc with returned := returned } := by
  have unlocked : st.lock ≠ some t := by
    rw [ne_eq, ← inv.owner t, was]
    exact Bool.false_ne_true
  have ahead (counted : Pc → ℕ) :
      ahead { st.goto t pc with returned := returned } counted = st.ahead counted := by
    unfold Threads.ahead goto
    cases holder : st.lock with
    | none => rfl
    | some u =>
      have other : u ≠ t := by
        rintro rfl
        exact unlocked holder
      simp [Function.update_of_ne other]
  refine ⟨inv.inSet, inv.distinct, fun u => ?_, fun u => ?_, settled, fun w => ?_, fun s => ?_⟩
  · by_cases same : u = t
    · subst same
      simp only [goto, Function.update_self, is, Bool.false_eq_true, false_iff]
      exact unlocked
    · simp only [goto, Function.update_of_ne same]
      exact inv.owner u
  · by_cases same : u = t
    · subst same
      simp only [goto, Function.update_self]
      exact sound
    · simp only [goto, Function.update_of_ne same]
      exact inv.sound u
  · rw [ahead]
    exact inv.workers w
  · rw [ahead]
    exact inv.slots s

/-- A step of the thread with the lock that writes no entry. -/
theorem Inv.inside (inv : Inv st) {pc : Pc} {table : Table}
    (was : (st.pc t).inside = true) (is : pc.inside = true)
    (routes : table.routes = st.table.routes)
    (active : table.activeTxSlots = st.table.activeTxSlots) (sound : pc.Sound st.table)
    (workers : ∀ w n, st.table.workerCount w = BitVec.ofNat 64 (n + (st.pc t).countedWorker w) →
      table.workerCount w = BitVec.ofNat 64 (n + pc.countedWorker w))
    (slots : ∀ s n, st.table.txCount s = BitVec.ofNat 64 (n + (st.pc t).countedTx s) →
      table.txCount s = BitVec.ofNat 64 (n + pc.countedTx s)) :
    Inv { st.goto t pc with table := table } := by
  have locked : st.lock = some t := (inv.owner t).mp was
  have before (counted : Pc → ℕ) : st.ahead counted = counted (st.pc t) := by
    rw [Threads.ahead, locked]
    rfl
  have after (counted : Pc → ℕ) :
      Threads.ahead { st.goto t pc with table := table } counted = counted pc := by
    simp [Threads.ahead, goto, locked]
  have assigned (p : Entry → Bool) : table.assigned p = st.table.assigned p := by
    rw [Table.assigned, routes]
    rfl
  refine ⟨?_, ?_, fun u => ?_, fun u => ?_, fun r returned => ?_, fun w => ?_, fun s => ?_⟩
  · rw [routes]
    exact inv.inSet
  · rw [routes]
    exact inv.distinct
  · by_cases same : u = t
    · subst same
      simp only [goto, Function.update_self, is, locked]
    · simp only [goto, Function.update_of_ne same]
      exact inv.owner u
  · rw [Pc.sound_congr routes active]
    by_cases same : u = t
    · subst same
      simp only [goto, Function.update_self]
      exact sound
    · simp only [goto, Function.update_of_ne same]
      exact inv.sound u
  · rw [Table.settled_congr routes active]
    exact inv.settled r returned
  · rw [after, assigned]
    exact workers w _ (by rw [inv.workers w, before])
  · rw [after, assigned]
    exact slots s _ (by rw [inv.slots s, before])

/-- The thread takes the lock. -/
theorem Inv.takeLock (inv : Inv st) {c : Call} {key : Key} (keyed : c.Keyed key)
    (free : st.lock = none) :
    Inv { st.goto t (.rescan c key (List.finRange 8) none) with lock := some t } := by
  have none_inside (u : T) : (st.pc u).inside = false := by
    rw [Bool.eq_false_iff, ne_eq, inv.owner u, free]
    exact nofun
  have ahead (counted : Pc → ℕ) : st.ahead counted = 0 := by
    rw [Threads.ahead, free]
    rfl
  refine ⟨inv.inSet, inv.distinct, fun u => ?_, fun u => ?_, inv.settled, fun w => ?_, fun s => ?_⟩
  · by_cases same : u = t
    · subst same
      simp [goto, Pc.inside]
    · simp [goto, Function.update_of_ne same, none_inside u, Ne.symm same]
  · by_cases same : u = t
    · subst same
      simp only [goto, Function.update_self]
      exact ⟨keyed, fun way left => absurd (List.mem_finRange way) left,
        fun _ way left => absurd (List.mem_finRange way) left, nofun⟩
    · simp only [goto, Function.update_of_ne same]
      exact inv.sound u
  · have counts := inv.workers w
    rw [ahead] at counts
    simpa [Threads.ahead, goto, Pc.countedWorker] using counts
  · have counts := inv.slots s
    rw [ahead] at counts
    simpa [Threads.ahead, goto, Pc.countedTx] using counts

/-- The thread gives the lock back and returns. -/
theorem Inv.unlock (inv : Inv st) {c : Call} {route : FlowRoute}
    (here : st.pc t = .unlock c route) : Inv { st.ret t c route with lock := none } := by
  have locked : st.lock = some t := (inv.owner t).mp (by rw [here]; rfl)
  refine ⟨inv.inSet, inv.distinct, fun u => ?_, fun u => ?_, fun r returned => ?_, fun w => ?_,
    fun s => ?_⟩
  · by_cases same : u = t
    · subst same
      simp [ret, goto, Pc.inside]
    · have outside := inv.owner u
      rw [locked] at outside
      simp only [ret, goto, Function.update_of_ne same, outside]
      simp [Ne.symm same]
  · by_cases same : u = t
    · subst same
      simp only [ret, goto, Function.update_self]
      trivial
    · simp only [ret, goto, Function.update_of_ne same]
      exact inv.sound u
  · have sound := inv.sound t
    rw [here] at sound
    rcases List.mem_append.mp returned with before | last
    · exact inv.settled r before
    · obtain rfl := List.mem_singleton.mp last
      exact sound
  · have counts := inv.workers w
    simpa [Threads.ahead, ret, goto, locked, here, Pc.countedWorker] using counts
  · have counts := inv.slots s
    simpa [Threads.ahead, ret, goto, locked, here, Pc.countedTx] using counts

/-- The thread publishes its entry. -/
theorem Inv.publish (inv : Inv st) {c : Call} {key : Key} {way : Fin 8} {route : FlowRoute}
    (here : st.pc t = .publish c key way route) :
    Inv { st.goto t (.unlock c route) with
      table := st.table.write key way
        ⟨key, fun _ => 0, route.workerIdx % 256, route.txSlot % 256⟩ } := by
  have locked : st.lock = some t := (inv.owner t).mp (by rw [here]; rfl)
  have sound := inv.sound t
  rw [here] at sound
  obtain ⟨keyed, ⟨absent, free⟩, worker, slot⟩ := sound
  have fits : route.workerIdx % 256 = route.workerIdx ∧ route.txSlot % 256 = route.txSlot := by
    unfold cryptoWorkers at worker
    unfold txSlots at slot
    omega
  rw [fits.1, fits.2]
  generalize isEntry : Entry.mk key (fun _ => 0) route.workerIdx route.txSlot = e
  have carried : e.key = key := by rw [← isEntry]
  refine ⟨fun set w e' valid => ?_, fun set => ?_, fun u => ?_, fun u => ?_, fun r returned => ?_,
    fun w => ?_, fun s => ?_⟩
  · dsimp only at valid
    rw [write_routes] at valid
    split at valid
    · rename_i at_way
      obtain rfl := Option.some.inj valid
      rw [carried, at_way.1]
    · exact inv.inSet set w e' valid
  · by_cases there : set = routeSetOf key
    · subst there
      dsimp only [Table.write]
      rw [Function.update_self]
      refine (inv.distinct _).update_absent ?_
      rw [carried]
      exact absent
    · dsimp only [Table.write]
      rw [Function.update_of_ne there]
      exact inv.distinct set
  · by_cases same : u = t
    · subst same
      simp [goto, Pc.inside, locked]
    · simp only [goto, Function.update_of_ne same]
      exact inv.owner u
  · by_cases same : u = t
    · subst same
      simp only [goto, Function.update_self]
      intro k direction parsed
      obtain rfl := keyed.unique ⟨direction, parsed⟩
      refine .inl ⟨way, e, ?_, carried, ?_⟩
      · rw [Table.setOf, write_routes, if_pos ⟨rfl, rfl⟩]
      · rw [← isEntry]
        rfl
    · simp only [goto, Function.update_of_ne same]
      refine Pc.sound_of_outside ?_ (inv.sound u)
      rw [Bool.eq_false_iff, ne_eq, inv.owner u, locked]
      rintro ⟨⟩
      exact same rfl
  · exact (inv.settled r returned).write free
  · have counts := inv.workers w
    rw [Threads.ahead, locked, Option.map_some, Option.getD_some, here] at counts
    dsimp only
    rw [assigned_write free, ← isEntry]
    simpa [Table.write, Threads.ahead, goto, locked, Pc.countedWorker] using counts
  · have counts := inv.slots s
    rw [Threads.ahead, locked, Option.map_some, Option.getD_some, here] at counts
    dsimp only
    rw [assigned_write free, ← isEntry]
    simpa [Table.write, Threads.ahead, goto, locked, Pc.countedTx] using counts

/-- The choice among the counts is one of them. -/
theorem dpRouteLeastLoaded_lt (counts : ℕ → BitVec 64) {count : ℕ} (some_count : 0 < count)
    (cursor : BitVec 32) : dpRouteLeastLoaded counts count cursor < count := by
  unfold dpRouteLeastLoaded
  dsimp only
  refine List.foldlRecOn (motive := fun best : BitVec 64 × ℕ => best.2 < count) _ _ some_count ?_
  intro best small off _
  split
  · exact Nat.mod_lt _ some_count
  · exact small

theorem dpActiveTxSlots_pos_le (table : Table) :
    0 < table.dpActiveTxSlots ∧ table.dpActiveTxSlots ≤ txSlots := by
  unfold Table.dpActiveTxSlots
  dsimp only
  split
  · assumption
  · decide

theorem inv_advance (inv : Inv st) (stepped : st.advance t = some st') : Inv st' := by
  unfold advance at stepped
  have sound := inv.sound t
  cases here : st.pc t with
  | idle =>
    rw [here] at stepped
    cases stepped
  | lookup c key ways =>
    rw [here] at stepped sound
    have was : (st.pc t).inside = false := by rw [here]; rfl
    cases ways with
    | nil =>
      cases stepped
      exact inv.outside was rfl sound inv.settled
    | cons way ways =>
      dsimp only at stepped
      cases valid : st.table.setOf key way with
      | none =>
        rw [valid] at stepped
        cases stepped
        exact inv.outside was rfl sound inv.settled
      | some e =>
        rw [valid] at stepped
        dsimp only at stepped
        split at stepped
        · rename_i carried
          cases stepped
          refine inv.outside was rfl trivial fun r returned => ?_
          rcases List.mem_append.mp returned with before | last
          · exact inv.settled r before
          · obtain rfl := List.mem_singleton.mp last
            intro k direction parsed
            obtain rfl := Call.Keyed.unique sound ⟨direction, parsed⟩
            exact .inl ⟨way, e, valid, carried, rfl⟩
        · cases stepped
          exact inv.outside was rfl sound inv.settled
  | lock c key =>
    rw [here] at stepped sound
    dsimp only at stepped
    split at stepped
    · rename_i free
      cases stepped
      exact inv.takeLock sound (Option.isNone_iff_eq_none.mp free)
    · cases stepped
  | rescan c key ways empty =>
    have was : (st.pc t).inside = true := by rw [here]; rfl
    have goes {pc : Pc} (is : pc.inside = true) (sound : pc.Sound st.table)
        (workers : ∀ w, pc.countedWorker w = 0) (slots : ∀ s, pc.countedTx s = 0) :
        Inv (st.goto t pc) := by
      have same : st.table.routes = st.table.routes := rfl
      refine inv.inside was is same rfl sound (fun w n count => ?_) fun s n count => ?_
      · rw [here] at count
        rwa [workers]
      · rw [here] at count
        rwa [slots]
    rw [here] at stepped sound
    obtain ⟨keyed, scanned, full, free⟩ := sound
    cases ways with
    | nil =>
      have absent : st.table.findWay key = none :=
        Ways.find_eq_none_iff.mpr fun way e => scanned way List.not_mem_nil e
      cases empty with
      | none =>
        cases stepped
        refine goes rfl ?_ (fun _ => rfl) fun _ => rfl
        intro k direction parsed
        obtain rfl := keyed.unique ⟨direction, parsed⟩
        exact .inr ⟨absent, fun way => full rfl way List.not_mem_nil, rfl⟩
      | some way =>
        cases stepped
        exact goes rfl ⟨keyed, absent, free way rfl⟩ (fun _ => rfl) fun _ => rfl
    | cons way ways =>
      dsimp only at stepped
      have one {w : Fin 8} (left : w ∉ ways) : w = way ∨ w ∉ way :: ways := by
        by_cases same : w = way
        · exact .inl same
        · exact .inr (List.not_mem_cons_of_ne_of_not_mem same left)
      cases valid : st.table.setOf key way with
      | none =>
        rw [valid] at stepped
        cases stepped
        refine goes rfl ⟨keyed, fun w left e isEntry => ?_, fun none_empty => ?_, fun w first => ?_⟩
          (fun _ => rfl) fun _ => rfl
        · rcases one left with rfl | left
          · rw [valid] at isEntry
            cases isEntry
          · exact scanned w left e isEntry
        · cases empty with
          | none => cases none_empty
          | some _ => cases none_empty
        · cases empty with
          | none =>
            obtain rfl := Option.some.inj first
            exact valid
          | some _ => exact free w first
      | some e =>
        rw [valid] at stepped
        dsimp only at stepped
        split at stepped
        · rename_i carried
          cases stepped
          refine goes rfl ?_ (fun _ => rfl) fun _ => rfl
          intro k direction parsed
          obtain rfl := keyed.unique ⟨direction, parsed⟩
          exact .inl ⟨way, e, valid, carried, rfl⟩
        · rename_i other
          cases stepped
          refine goes rfl ⟨keyed, fun w left e' isEntry => ?_, fun none_empty w left => ?_, free⟩
            (fun _ => rfl) fun _ => rfl
          · rcases one left with rfl | left
            · rw [valid] at isEntry
              obtain rfl := Option.some.inj isEntry
              exact other
            · exact scanned w left e' isEntry
          · rcases one left with rfl | left
            · rw [valid]
              exact Option.some_ne_none e
            · exact full none_empty w left
  | pickWorker c key way =>
    have was : (st.pc t).inside = true := by rw [here]; rfl
    rw [here] at stepped sound
    obtain ⟨keyed, free⟩ := sound
    dsimp only at stepped
    split at stepped
    · rename_i hinted
      cases stepped
      have same : st.table.routes = st.table.routes := rfl
      refine inv.inside was rfl same rfl ⟨keyed, free, by omega⟩ ?_ ?_
      all_goals
        rw [here]
        exact fun _ _ count => count
    · cases stepped
      refine inv.inside was rfl ?_ ?_ ⟨keyed, free, dpRouteLeastLoaded_lt _ (by decide) _⟩ ?_ ?_
      · rfl
      · rfl
      all_goals
        rw [here]
        exact fun _ _ count => count
  | pickTx c key way workerIdx =>
    have was : (st.pc t).inside = true := by rw [here]; rfl
    rw [here] at stepped sound
    obtain ⟨keyed, free, worker⟩ := sound
    obtain ⟨pos, le⟩ := dpActiveTxSlots_pos_le st.table
    cases stepped
    refine inv.inside was rfl ?_ ?_
      ⟨keyed, free, worker, (dpRouteLeastLoaded_lt _ pos _).trans_le le⟩ ?_ ?_
    · rfl
    · rfl
    all_goals
      rw [here]
      exact fun _ _ count => count
  | countWorker c key way route =>
    have was : (st.pc t).inside = true := by rw [here]; rfl
    rw [here] at stepped sound
    cases stepped
    refine inv.inside was rfl ?_ ?_ sound ?_ ?_
    · rfl
    · rfl
    · rw [here]
      intro w n count
      dsimp only [Pc.countedWorker] at count ⊢
      by_cases own : route.workerIdx = w
      · subst own
        rw [Function.update_self, count, if_pos rfl, Nat.add_zero, BitVec.ofNat_add]
        rfl
      · rw [Function.update_of_ne (Ne.symm own), if_neg own]
        exact count
    · rw [here]
      exact fun _ _ count => count
  | countTx c key way route =>
    have was : (st.pc t).inside = true := by rw [here]; rfl
    rw [here] at stepped sound
    cases stepped
    refine inv.inside was rfl ?_ ?_ sound ?_ ?_
    · rfl
    · rfl
    · rw [here]
      exact fun _ _ count => count
    · rw [here]
      intro s n count
      dsimp only [Pc.countedTx] at count ⊢
      by_cases own : route.txSlot = s
      · subst own
        rw [Function.update_self, count, if_pos rfl, Nat.add_zero, BitVec.ofNat_add]
        rfl
      · rw [Function.update_of_ne (Ne.symm own), if_neg own]
        exact count
  | publish c key way route =>
    rw [here] at stepped
    cases stepped
    exact inv.publish here
  | unlock c route =>
    rw [here] at stepped
    cases stepped
    exact inv.unlock here

theorem inv_step (inv : Inv st) {act : Act T} (stepped : st.step act = some st') : Inv st' := by
  cases act with
  | advance t => exact inv_advance inv stepped
  | call t c =>
    unfold step at stepped
    dsimp only at stepped
    split at stepped
    · rename_i here unparsed
      cases stepped
      refine inv.outside (by rw [here]; rfl) rfl trivial fun r returned => ?_
      rcases List.mem_append.mp returned with before | last
      · exact inv.settled r before
      · obtain rfl := List.mem_singleton.mp last
        intro k direction parsed
        rw [unparsed] at parsed
        cases parsed
    · rename_i key direction here parsed
      cases stepped
      exact inv.outside (by rw [here]; rfl) rfl ⟨direction, parsed⟩ inv.settled
    · cases stepped

omit [DecidableEq T] in
theorem inv_initial (slots : BitVec 32) : Inv (initial slots : Threads T) := by
  have empty (p : Entry → Bool) : (Table.init.dpRouteSetActiveTxSlots slots).assigned p = 0 :=
    Finset.card_eq_zero.mpr (Finset.filter_eq_empty_iff.mpr fun _ _ => Bool.false_ne_true)
  refine ⟨nofun, nofun, fun t => ?_, fun _ => trivial, nofun, fun w => ?_, fun s => ?_⟩
  · exact ⟨nofun, nofun⟩
  · dsimp only [initial]
    rw [empty]
    rfl
  · dsimp only [initial]
    rw [empty]
    rfl

/-- A step keeps every entry. -/
theorem routes_step (inv : Inv st) {act : Act T} (stepped : st.step act = some st') {set : Fin 8192}
    {way : Fin 8} {e : Entry} (valid : st.table.routes set way = some e) :
    st'.table.routes set way = some e := by
  cases act with
  | call t c =>
    unfold step at stepped
    dsimp only at stepped
    split at stepped
    · cases stepped
      exact valid
    · cases stepped
      exact valid
    · cases stepped
  | advance t =>
    have sound := inv.sound t
    unfold step advance at stepped
    dsimp only at stepped
    repeat' split at stepped
    all_goals cases stepped
    all_goals first
      | exact valid
      | rename_i c key free route here
        rw [here] at sound
        exact routes_write_of_some sound.2.1.2 valid

/-- Every flow has one route in all runs of the threads. -/
theorem sticky_of_reachable {slots : BitVec 32} (reached : Reachable step (initial slots) st) :
    st.Sticky := by
  have inv : Inv st :=
    reached.invariant (inv_initial slots) fun _ _ _ inv _ stepped => inv_step inv stepped
  refine ⟨?_, ?_, ?_, ?_⟩
  · intro set set' way way' e e' valid valid' same
    have sets : set = set' := by
      rw [← inv.inSet set way e valid, ← inv.inSet set' way' e' valid', same]
    subst sets
    exact ⟨rfl, inv.distinct set way way' e e' valid valid' same⟩
  · intro st' later set way e valid
    have both : Inv st' ∧ st'.table.routes set way = some e := by
      refine later.invariant (I := fun s => Inv s ∧ s.table.routes set way = some e)
        ⟨inv, valid⟩ ?_
      rintro _ _ _ ⟨inv, valid⟩ - stepped
      exact ⟨inv_step inv stepped, routes_step inv stepped valid⟩
    exact both.2
  · intro r returned r' returned' f flow flow' carried
    obtain ⟨key, ⟨direction, parsed⟩, direction', parsed'⟩ := keyed_of_flow carried flow flow'
    rcases inv.settled r returned key direction parsed with
      ⟨way, e, valid, same, route⟩ | ⟨absent, -, route⟩
    · rcases inv.settled r' returned' key direction' parsed' with
        ⟨way', e', valid', same', route'⟩ | ⟨absent', -, -⟩
      · obtain rfl := inv.distinct _ way way' e e' valid valid' (same.trans same'.symm)
        have entries : some e = some e' := valid.symm.trans valid'
        obtain rfl := Option.some.inj entries
        exact route.trans route'.symm
      · exact absurd same (Ways.find_eq_none_iff.mp absent' way e valid)
    · rcases inv.settled r' returned' key direction' parsed' with
        ⟨way', e', valid', same', -⟩ | ⟨-, -, route'⟩
      · exact absurd same' (Ways.find_eq_none_iff.mp absent way' e' valid')
      · exact route.trans route'.symm
  · intro free
    have ahead (counted : Pc → ℕ) : st.ahead counted = 0 := by
      rw [Threads.ahead, free]
      rfl
    refine ⟨fun w => ?_, fun s => ?_⟩
    · rw [inv.workers w, ahead, Nat.add_zero, BitVec.toNat_ofNat, Nat.mod_eq_of_lt (assigned_lt _)]
    · rw [inv.slots s, ahead, Nat.add_zero, BitVec.toNat_ofNat, Nat.mod_eq_of_lt (assigned_lt _)]

/-- The two directions of a flow, each in a thread of its own, both of which miss its entry. -/
def sampleRace : List (Act Bool) :=
  let flow : FiveTuple := ⟨0x0A000005, 0x08080808, 50000, 443, 6⟩
  [.call false ⟨⟨[], some flow⟩, -1⟩, .call true ⟨⟨[], some flow.reversed⟩, 2⟩] ++
    List.replicate 9 (.advance true) ++ List.replicate 25 (.advance false) ++
    List.replicate 3 (.advance true)

theorem sticky_sampleRace : ∃ st : Threads Bool, st.returned.length = 2 ∧ st.Sticky := by
  obtain ⟨st, reached, returned⟩ : ∃ st : Threads Bool,
      Reachable step (initial 4) st ∧ (st.returned.length == 2) = true :=
    exists_reachable_of_run sampleRace (by decide +kernel)
  exact ⟨st, by simpa using returned, sticky_of_reachable reached⟩

end Threads

end NeEncryptor.Route
