import Mathlib.Data.List.FinRange
import NeEncryptor.Db.Config
import NeEncryptor.Forwarder.WanConfig
import NeEncryptor.Lib.Ways

/-!
# Smooth weighted round robin

The scheduler of `flow_table.c`: one state for each flow in a table of 512 sets of 4 ways, and one
for the packets without a flow.
-/

namespace NeEncryptor.Wan

/-- `struct flow_key`. -/
structure FlowKey where
  srcIp : BitVec 32
  dstIp : BitVec 32
  srcPort : BitVec 16
  dstPort : BitVec 16
  protocol : BitVec 8
  deriving DecidableEq, Repr

/-- A valid `struct flow_swrr_state`, without its key and stamp. -/
structure Swrr where
  wans : List ℤ
  current : List ℤ
  tieStart : ℕ
  deriving DecidableEq, Repr

/-- A valid way of the flow table. -/
structure FlowState where
  key : FlowKey
  stamp : BitVec 64
  swrr : Swrr
  deriving DecidableEq, Repr

/-- The thread-local variables of `flow_table.c`; `allocated` is what `flow_table_thread_init`
returns. -/
structure FlowTable where
  allocated : Bool
  flows : Fin 512 → Fin 4 → Option FlowState
  default : Option Swrr
  clock : BitVec 64

/-- Network order of an address, as a little-endian host reads it. -/
def ntohl (x : BitVec 32) : BitVec 32 :=
  (x <<< 24) ||| ((x <<< 8) &&& 0x00ff0000) ||| ((x >>> 8) &&& 0x0000ff00) ||| (x >>> 24)

/-- `normalize_flow_5tuple`; the addresses are in network order. -/
def normalizeFlow5tuple (t : FiveTuple) : FlowKey :=
  if ntohl t.dstIp < ntohl t.srcIp ∨ t.srcIp = t.dstIp ∧ t.dstPort < t.srcPort then
    ⟨t.dstIp, t.srcIp, t.dstPort, t.srcPort, t.protocol⟩
  else ⟨t.srcIp, t.dstIp, t.srcPort, t.dstPort, t.protocol⟩

/-- `flow_hash`. -/
def flowHash (key : FlowKey) : BitVec 32 :=
  let hash := key.srcIp ^^^ key.dstIp
  let hash := hash ^^^ ((key.srcPort.setWidth 32 <<< 16) ||| key.dstPort.setWidth 32)
  let hash := hash ^^^ key.protocol.setWidth 32
  let hash := hash ^^^ (hash >>> 16)
  let hash := hash * 0x85ebca6b
  let hash := hash ^^^ (hash >>> 13)
  let hash := hash * 0xc2b2ae35
  hash ^^^ (hash >>> 16)

/-- `flow_swrr_reset`. -/
def flowSwrrReset (hash : BitVec 32) (allowedWans : List ℤ) : Swrr :=
  ⟨allowedWans, allowedWans.map fun _ => 0, hash.toNat % allowedWans.length⟩

/-- `flow_swrr_pool_same`. -/
def flowSwrrPoolSame (state : Swrr) (allowedWans : List ℤ) : Bool := state.wans = allowedWans

namespace Swrr

/-- One round of the search of `flow_swrr_pick`: the first way with the largest credit. -/
def searchStep (weights current : List ℤ) (best : Option ℕ) (i : ℕ) : Option ℕ :=
  if weights.getD i 0 ≤ 0 then best
  else
    match best with
    | none => some i
    | some b => if current.getD b 0 < current.getD i 0 then some i else some b

/-- `flow_swrr_pick` on a pool of WANs with weights. -/
def pick (state : Swrr) (pool : List (ℤ × ℤ)) : Swrr × ℤ :=
  let wan := fun i => (pool.map Prod.fst).getD i 0
  let weights := pool.map Prod.snd
  if pool.length ≤ 1 then (state, wan 0)
  else
    let credited := (List.zip state.current weights).map fun c => if 0 < c.2 then c.1 + c.2 else c.1
    let total := (weights.filter (0 < ·)).sum
    if total ≤ 0 then
      ({ state with tieStart := (state.tieStart + 1) % 256 }, wan (state.tieStart % pool.length))
    else
      let visits := (List.range pool.length).map fun off => (state.tieStart + off) % pool.length
      let best := (visits.foldl (searchStep weights credited) none).getD 0
      ({ state with
          current := credited.modify best (· - total)
          tieStart := (best + 1) % pool.length },
        wan best)

end Swrr

namespace FlowTable

/-- `flow_table_pick_wan_per_packet`. -/
def pickWanPerPacket (table : FlowTable) (pool : List (ℤ × ℤ)) : FlowTable × ℤ :=
  if pool = [] then (table, 0)
  else
    let pool := pool.take maxInterfaces
    let allowedWans := pool.map Prod.fst
    let state := (table.default.filter fun s => flowSwrrPoolSame s allowedWans).getD
      (flowSwrrReset 0 allowedWans)
    let picked := state.pick pool
    ({ table with default := some picked.1 }, picked.2)

/-- The scan of a set: the way of the flow, or else the way to overwrite. -/
def scan (set : Fin 4 → Option FlowState) (key : FlowKey) : Fin 4 → List (Fin 4) → Fin 4
  | victim, [] => victim
  | victim, way :: ways =>
    match set way with
    | none => scan set key way ways
    | some f =>
      if f.key = key then way
      else if f.stamp < ((set victim).map FlowState.stamp).getD 0 then scan set key way ways
      else scan set key victim ways

/-- `flow_table_pick_wan_per_flow_packet`. -/
def pickWanPerFlowPacket (table : FlowTable) (t : FiveTuple) (pool : List (ℤ × ℤ)) :
    FlowTable × ℤ :=
  if pool = [] then (table, 0)
  else if table.allocated = false then table.pickWanPerPacket pool
  else
    let pool := pool.take maxInterfaces
    let allowedWans := pool.map Prod.fst
    let key := normalizeFlow5tuple t
    let hash := flowHash key
    let idx := Fin.ofNat 512 hash.toNat
    let set := table.flows idx
    let way := scan set key 0 (List.finRange 4)
    let kept := ((set way).filter fun f => f.key = key ∧ flowSwrrPoolSame f.swrr allowedWans).map
      FlowState.swrr
    let picked := (kept.getD (flowSwrrReset hash allowedWans)).pick pool
    let stamp := table.clock + 1
    ({ table with
        flows := Function.update table.flows idx
          (Function.update set way (some ⟨key, stamp, picked.1⟩))
        clock := stamp },
      picked.2)

end FlowTable

variable {pool : List (ℤ × ℤ)}

theorem Swrr.search_lt {n : ℕ} {weights current : List ℤ} {visits : List ℕ} {best : Option ℕ}
    (inside : ∀ i ∈ visits, i < n) (start : ∀ b ∈ best, b < n) :
    ∀ b ∈ visits.foldl (searchStep weights current) best, b < n := by
  induction visits generalizing best with
  | nil => exact start
  | cons i visits ih =>
    refine ih (fun j later => inside j (List.mem_cons_of_mem i later)) fun b found => ?_
    have here : i < n := inside i List.mem_cons_self
    unfold searchStep at found
    split at found
    · exact start b found
    · split at found
      · cases found
        exact here
      · split at found
        · cases found
          exact here
        · exact start b found

/-- A pick from a pool that is not empty is one of its WANs. -/
theorem Swrr.pick_mem (state : Swrr) (nonempty : pool ≠ []) :
    ∃ w, ((state.pick pool).2, w) ∈ pool := by
  have positive : 0 < pool.length := List.length_pos_iff.mpr nonempty
  have mem_of_lt (i : ℕ) (inside : i < pool.length) :
      ∃ w, ((pool.map Prod.fst).getD i 0, w) ∈ pool := by
    refine ⟨pool[i].2, ?_⟩
    rw [List.getD_eq_getElem?_getD, List.getElem?_map, List.getElem?_eq_getElem inside]
    exact List.getElem_mem inside
  unfold pick
  simp only []
  split
  · exact mem_of_lt 0 positive
  · split
    · exact mem_of_lt _ (Nat.mod_lt _ positive)
    · refine mem_of_lt _ ?_
      have inside : ∀ i ∈ (List.range pool.length).map
          fun off => (state.tieStart + off) % pool.length, i < pool.length := by
        intro i visited
        obtain ⟨off, -, rfl⟩ := List.mem_map.mp visited
        exact Nat.mod_lt _ positive
      rcases found : List.foldl _ _ _ with _ | b
      · exact positive
      · exact search_lt inside (fun _ h => by cases h) b found

theorem FlowTable.pickWanPerPacket_mem (table : FlowTable) (nonempty : pool ≠ []) :
    ∃ w, ((table.pickWanPerPacket pool).2, w) ∈ pool := by
  have some_taken : pool.take maxInterfaces ≠ [] := by simp [nonempty, maxInterfaces]
  rw [pickWanPerPacket, if_neg nonempty]
  obtain ⟨w, mem⟩ := Swrr.pick_mem _ some_taken
  exact ⟨w, List.mem_of_mem_take mem⟩

theorem FlowTable.pickWanPerFlowPacket_mem (table : FlowTable) (t : FiveTuple)
    (nonempty : pool ≠ []) : ∃ w, ((table.pickWanPerFlowPacket t pool).2, w) ∈ pool := by
  have some_taken : pool.take maxInterfaces ≠ [] := by simp [nonempty, maxInterfaces]
  unfold pickWanPerFlowPacket
  rw [if_neg nonempty]
  split
  · exact table.pickWanPerPacket_mem nonempty
  · obtain ⟨w, mem⟩ := Swrr.pick_mem _ some_taken
    exact ⟨w, List.mem_of_mem_take mem⟩

end NeEncryptor.Wan
