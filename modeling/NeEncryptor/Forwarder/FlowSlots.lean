import NeEncryptor.Forwarder.FlowSpread
import NeEncryptor.Forwarder.WanPick

/-!
# The slots of a flow

`fwd_wan_pick_for_local` leaves the choice among the WANs of a pool to the scheduler of the packet's
flow.  So while the WANs of the pools are live and have room, the slots that the packets of a flow
get follow the weights, whatever packets of other flows come between them.
-/

namespace NeEncryptor.Wan

open FlowTable

namespace PickInput

variable {x : PickInput} {t : FiveTuple} {slot : ℤ → ℕ}

/-- The pool of the packet's profile. -/
def pool (x : PickInput) : List (ℤ × ℤ) :=
  x.profile.elim [] fun p => x.fwd.buildProfilePool x.s x.now p maxInterfaces

/-- Every WAN of the pool is live in its slot, and the slot has room. -/
def Serves (x : PickInput) (slot : ℤ → ℕ) : Prop :=
  ∀ c ∈ x.pool, x.fwd.liveDpForCfg x.s c.1 = some (slot c.1) ∧ slot c.1 < x.fwd.wanCount ∧
    x.room (slot c.1) = true

theorem picked_of_pool (flow : x.flow = some t) (nonempty : x.pool ≠ []) :
    x.picked = some (x.table.pickWanPerFlowPacket t x.pool).2 := by
  unfold picked pool at *
  cases profile : x.profile with
  | none =>
    rw [profile] at nonempty
    exact absurd rfl nonempty
  | some p =>
    rw [profile] at nonempty
    dsimp only [Option.elim_some, Option.bind_some] at nonempty ⊢
    rw [if_neg nonempty, flowPick, flow]

/-- The slot of a packet is that of the WAN which its flow's scheduler picks. -/
theorem slot_of_pool (flow : x.flow = some t) (nonempty : x.pool ≠ []) (serves : x.Serves slot) :
    x.pickForLocal.2 = some (slot (x.table.pickWanPerFlowPacket t x.pool).2) := by
  obtain ⟨w, mem⟩ := FlowTable.pickWanPerFlowPacket_mem x.table t nonempty
  obtain ⟨live, inside, room⟩ := serves _ mem
  have usable : x.usable = some (slot (x.table.pickWanPerFlowPacket t x.pool).2) := by
    rw [PickInput.usable, picked_of_pool flow nonempty, Option.bind_some, live, Option.filter_some,
      if_pos (decide_eq_true inside)]
  rw [pickForLocal_eq, if_neg (Nat.ne_of_gt (Nat.zero_lt_of_lt inside)), usable, Option.getD_some,
    pickLeastLoadedWan_eq, if_pos room]

/-- The table after a packet. -/
theorem table_of_pool (flow : x.flow = some t) (nonempty : x.pool ≠ []) (serves : x.Serves slot) :
    x.pickForLocal.1 = (x.table.pickWanPerFlowPacket t x.pool).1 := by
  obtain ⟨w, mem⟩ := FlowTable.pickWanPerFlowPacket_mem x.table t nonempty
  obtain ⟨-, inside, -⟩ := serves _ mem
  unfold pickForLocal pool at *
  rw [if_neg (Nat.ne_of_gt (Nat.zero_lt_of_lt inside))]
  cases profile : x.profile with
  | none =>
    rw [profile] at nonempty
    exact absurd rfl nonempty
  | some p =>
    rw [profile] at nonempty
    dsimp only [Option.elim_some] at nonempty ⊢
    rw [if_neg nonempty, flowPick, flow]
    dsimp only
    split
    · rfl
    · split
      · rfl
      · split
        · rfl
        · rfl

end PickInput

/-- A packet from the LAN whose flow was parsed. -/
structure Parsed where
  input : PickInput
  tuple : FiveTuple
  parsed : input.flow = some tuple

namespace Parsed

/-- The packet for the scheduler. -/
def packet (q : Parsed) : FiveTuple × List (ℤ × ℤ) := (q.tuple, q.input.pool)

/-- Packets one after the other at one thread: each finds the flow table as the last one left it. -/
def picksForLocal (table : FlowTable) : List Parsed → List (Option ℕ)
  | [] => []
  | q :: qs =>
    let picked := { q.input with table := table }.pickForLocal
    picked.2 :: picksForLocal picked.1 qs

/-- The slots of a run are those of the WANs that the schedulers pick. -/
theorem picksForLocal_eq {slot : ℤ → ℕ} {qs : List Parsed} (table : FlowTable)
    (nonempty : ∀ q ∈ qs, q.input.pool ≠ []) (serves : ∀ q ∈ qs, q.input.Serves slot) :
    picksForLocal table qs =
      (table.picksPerFlow (qs.map packet)).2.map fun wan => some (slot wan) := by
  induction qs generalizing table with
  | nil => rfl
  | cons q qs ih =>
    have here := nonempty q List.mem_cons_self
    have served := serves q List.mem_cons_self
    have found := PickInput.slot_of_pool (x := { q.input with table := table }) q.parsed here served
    have left := PickInput.table_of_pool (x := { q.input with table := table }) q.parsed here served
    rw [picksForLocal]
    dsimp only
    rw [found, left, ih _ (fun p mem => nonempty p (List.mem_cons_of_mem q mem))
      fun p mem => serves p (List.mem_cons_of_mem q mem)]
    rfl

end Parsed

namespace FlowTable

theorem shareOf_map {α β : Type*} (key : FlowKey) (packets : List (FiveTuple × List (ℤ × ℤ)))
    (f : α → β) (handed : List α) :
    shareOf key packets (handed.map f) = (shareOf key packets handed).map f := by
  induction packets generalizing handed with
  | nil => rfl
  | cons packet packets ih =>
    cases handed with
    | nil => rfl
    | cons got handed =>
      rw [List.map_cons, shareOf_cons, shareOf_cons, ih]
      split
      · rfl
      · rfl

end FlowTable

theorem Swrr.mem_picks {pool : List (ℤ × ℤ)} (nonempty : pool ≠ []) (state : Swrr) (n : ℕ) :
    ∀ wan ∈ (state.picks (List.replicate n pool)).2, ∃ w, (wan, w) ∈ pool := by
  induction n generalizing state with
  | zero => exact fun wan mem => absurd mem List.not_mem_nil
  | succ n ih =>
    intro wan mem
    rcases List.mem_cons.mp mem with rfl | later
    · exact state.pick_mem nonempty
    · exact ih _ wan later

/-- Where a map keeps the members of a list apart, it keeps their counts. -/
theorem count_map_of_apart {f : ℤ → Option ℕ} {wans : List ℤ} {wan : ℤ}
    (apart : ∀ other ∈ wans, f other = f wan → other = wan) :
    (wans.map f).count (f wan) = wans.count wan := by
  rw [List.count, List.count, List.countP_map]
  refine List.countP_congr fun other mem => ?_
  simp only [Function.comp_apply, beq_iff_eq]
  exact ⟨apart other mem, congrArg f⟩

theorem exists_of_poolsOf {qs : List Parsed} {key : FlowKey} {pool : List (ℤ × ℤ)}
    (stays : ∀ p ∈ poolsOf key (qs.map Parsed.packet), p = pool)
    (came : 0 < (poolsOf key (qs.map Parsed.packet)).length) : ∃ q ∈ qs, q.input.pool = pool := by
  obtain ⟨p, mem⟩ := List.exists_mem_of_length_pos came
  obtain ⟨packet, listed, rfl⟩ := List.mem_map.mp mem
  obtain ⟨q, mine, rfl⟩ := List.mem_map.mp (List.mem_filter.mp listed).1
  exact ⟨q, mine, stays _ mem⟩

/-- From an empty table, while no set is asked for more than four flows and the WANs of the pools
are live and have room: every period of a flow's packets gets the slot of each WAN as often as the
WAN's weight says, whatever packets of other flows come between them. -/
theorem slots_by_weight {table : FlowTable} {qs : List Parsed} {slot : ℤ → ℕ}
    (allocated : table.allocated = true) (empty : ∀ set way, table.flows set way = none)
    (few : ∀ set,
      ((flowsOf (qs.map Parsed.packet)).filter (FlowKey.home · = set)).card ≤ 4)
    (nonempty : ∀ q ∈ qs, q.input.pool ≠ []) (serves : ∀ q ∈ qs, q.input.Serves slot)
    (key : FlowKey) {pool : List (ℤ × ℤ)}
    (stays : ∀ p ∈ poolsOf key (qs.map Parsed.packet), p = pool) (two : 2 ≤ pool.length)
    (small : pool.length ≤ maxInterfaces) (positive : ∀ entry ∈ pool, 0 < entry.2) :
    let slots := shareOf key (qs.map Parsed.packet) (Parsed.picksForLocal table qs)
    let total := (pool.map Prod.snd).sum.toNat
    ∀ k, (k + 1) * total ≤ slots.length → ∀ c ∈ pool,
      (((slots.drop (k * total)).take total).count (some (slot c.1)) : ℤ) =
        weightOf pool c.1 := by
  intro slots total k enough c mem
  have some_wan : pool ≠ [] := List.ne_nil_of_mem mem
  have isSlots : slots = ((key.picksAlone none
      (List.replicate (poolsOf key (qs.map Parsed.packet)).length pool)).2).map
        fun wan => some (slot wan) := by
    rw [← List.eq_replicate_of_mem stays, ← shareOf_of_empty allocated empty few key, ← shareOf_map,
      ← Parsed.picksForLocal_eq table nonempty serves]
  rw [isSlots] at enough
  have came : 0 < (poolsOf key (qs.map Parsed.packet)).length := by
    rw [List.length_map, FlowKey.length_picksAlone, List.length_replicate] at enough
    have period : 0 < total := by
      have sum := Swrr.total_pos two positive
      omega
    exact (Nat.mul_pos (Nat.succ_pos k) period).trans_le enough
  obtain ⟨q, mine, isPool⟩ := exists_of_poolsOf stays came
  -- the WANs of the pool are in different slots, for a slot stands for one WAN
  have apart {wan wan' : ℤ} (listed : ∃ w, (wan, w) ∈ pool) (listed' : ∃ w, (wan', w) ∈ pool)
      (same : some (slot wan) = some (slot wan')) : wan = wan' := by
    obtain ⟨w, listed⟩ := listed
    obtain ⟨w', listed'⟩ := listed'
    have here := Forwarder.liveDpForCfg_some (serves q mine (wan, w) (isPool ▸ listed)).1
    have there := Forwarder.liveDpForCfg_some (serves q mine (wan', w') (isPool ▸ listed')).1
    calc wan = q.input.fwd.wanCfgIdx (slot wan) := here.2.1.symm
      _ = q.input.fwd.wanCfgIdx (slot wan') :=
        congrArg q.input.fwd.wanCfgIdx (Option.some.inj same)
      _ = wan' := there.2.1
  have members : ∀ wan ∈ (key.picksAlone none
      (List.replicate (poolsOf key (qs.map Parsed.packet)).length pool)).2,
        ∃ w, (wan, w) ∈ pool := by
    rw [FlowKey.picksAlone_replicate some_wan small]
    exact Swrr.mem_picks some_wan _ _
  have spread : ByWeight pool (key.picksAlone none
      (List.replicate (poolsOf key (qs.map Parsed.packet)).length pool)).2 :=
    FlowKey.byWeight_picksAlone two small positive _
  generalize (key.picksAlone none
    (List.replicate (poolsOf key (qs.map Parsed.packet)).length pool)).2 = wans at *
  rw [List.length_map] at enough
  rw [isSlots, ← List.map_drop, ← List.map_take, ← spread k enough c.1]
  have counts : (((wans.drop (k * total)).take total).map fun wan => some (slot wan)).count
      (some (slot c.1)) = ((wans.drop (k * total)).take total).count c.1 :=
    count_map_of_apart (f := fun wan => some (slot wan)) fun other inside =>
      apart (members other (List.mem_of_mem_drop (List.mem_of_mem_take inside))) ⟨c.2, mem⟩
  exact congrArg Nat.cast counts

theorem Parsed.sample_few :
    ([⟨"wan0", true⟩, ⟨"wan1", true⟩] : List WanConfig).length ≤ maxInterfaces := by
  decide

/-- A packet of a flow where two WANs of weights 2 and 1 are live. -/
def Parsed.sample (t : FiveTuple) : Parsed where
  input :=
    { fwd :=
        { cfg := ⟨["lan0"], [⟨"wan0", true⟩, ⟨"wan1", true⟩], [⟨1, [⟨0, 2⟩, ⟨1, 1⟩]⟩],
            Parsed.sample_few⟩
          wanCount := 2
          wanCfgIdx := fun dp => dp
          pair := ⟨2, fun _ => "", fun _ => true, fun _ => true⟩ }
      s :=
        { drains := fun _ => ⟨false, 0, 0, 0, 0⟩
          activeDpCount := 2
          stopped := fun _ => false
          adminHold := fun _ => false
          excluded := fun _ => false
          blend := ⟨false, 1, [], 0, 0⟩
          joins := fun _ => ⟨false, 0, 0, 0⟩ }
      egress := PickInput.sample.egress
      table := ⟨true, fun _ _ => none, none, 0⟩
      now := 0
      profileIdx := 0
      flow := some t }
  tuple := t
  parsed := rfl

theorem Parsed.pool_sample (t : FiveTuple) : (sample t).input.pool = [(0, 2), (1, 1)] := by
  change (sample ⟨0, 0, 0, 0, 0⟩).input.pool = _
  decide +kernel

theorem Parsed.serves_sample (t : FiveTuple) : (sample t).input.Serves Int.toNat := by
  intro c mem
  rw [pool_sample] at mem
  change (sample ⟨0, 0, 0, 0, 0⟩).input.fwd.liveDpForCfg (sample ⟨0, 0, 0, 0, 0⟩).input.s c.1 =
    some c.1.toNat ∧ c.1.toNat < (sample ⟨0, 0, 0, 0, 0⟩).input.fwd.wanCount ∧
      (sample ⟨0, 0, 0, 0, 0⟩).input.room c.1.toNat = true
  rcases List.mem_pair.mp mem with rfl | rfl
  · decide +kernel
  · decide +kernel

/-- A packet of another flow comes between. -/
theorem slots_by_weight_turns :
    let a : FiveTuple := ⟨1, 2, 3, 4, 6⟩
    let qs := [a, ⟨1, 2, 3, 5, 6⟩, a, a].map Parsed.sample
    let table : FlowTable := ⟨true, fun _ _ => none, none, 0⟩
    ∀ c ∈ ([(0, 2), (1, 1)] : List (ℤ × ℤ)),
      ((((shareOf (normalizeFlow5tuple a) (qs.map Parsed.packet)
        (Parsed.picksForLocal table qs)).drop (0 * 3)).take 3).count (some c.1.toNat) : ℤ) =
          weightOf [(0, 2), (1, 1)] c.1 := by
  intro a qs table
  have few (set : Fin 512) :
      ((flowsOf (qs.map Parsed.packet)).filter (FlowKey.home · = set)).card ≤ 4 :=
    (Finset.card_filter_le ..).trans ((List.toFinset_card_le _).trans (by decide))
  have isSample : ∀ q ∈ qs, ∃ t, Parsed.sample t = q := fun q mem => by
    obtain ⟨t, -, same⟩ := List.mem_map.mp mem
    exact ⟨t, same⟩
  have nonempty : ∀ q ∈ qs, q.input.pool ≠ [] := by
    intro q mem
    obtain ⟨t, rfl⟩ := isSample q mem
    rw [Parsed.pool_sample]
    exact List.cons_ne_nil _ _
  have serves : ∀ q ∈ qs, q.input.Serves Int.toNat := by
    intro q mem
    obtain ⟨t, rfl⟩ := isSample q mem
    exact Parsed.serves_sample t
  have stays : ∀ p ∈ poolsOf (normalizeFlow5tuple a) (qs.map Parsed.packet),
      p = [(0, 2), (1, 1)] := by
    intro p mem
    obtain ⟨packet, listed, rfl⟩ := List.mem_map.mp mem
    obtain ⟨q, mine, rfl⟩ := List.mem_map.mp (List.mem_filter.mp listed).1
    obtain ⟨t, rfl⟩ := isSample q mine
    exact Parsed.pool_sample t
  exact @slots_by_weight table qs Int.toNat rfl (fun _ _ => rfl) few nonempty serves
    (normalizeFlow5tuple a) [(0, 2), (1, 1)] stays (by decide) (by decide) (by decide) 0
    (by decide +kernel)

end NeEncryptor.Wan
