import NeEncryptor.Forwarder.SwrrRounds
import NeEncryptor.Lib.Ways

/-!
# One scheduler for each flow

While no set of the flow table is asked for more than four flows, every flow keeps a scheduler of
its own: its packets take the WANs that this scheduler picks, whatever the other flows send in
between, so each flow by itself is spread by the weights.
-/

namespace NeEncryptor.Wan

variable {table : FlowTable} {keys : Finset FlowKey} {key : FlowKey} {pool : List (ℤ × ℤ)}

namespace FlowKey

/-- The set of a flow. -/
def home (key : FlowKey) : Fin 512 := Fin.ofNat 512 (flowHash key).toNat

/-- The scheduler that a packet goes on with: the flow's own one, if it is for these WANs. -/
def goesOn (key : FlowKey) (own : Option Swrr) (wans : List ℤ) : Swrr :=
  (own.filter fun s => flowSwrrPoolSame s wans).getD (flowSwrrReset (flowHash key) wans)

/-- One packet of a flow that has a scheduler to itself. -/
def pickAlone (key : FlowKey) (own : Option Swrr) (pool : List (ℤ × ℤ)) : Option Swrr × ℤ :=
  if pool = [] then (own, 0)
  else
    let pool := pool.take maxInterfaces
    let picked := (key.goesOn own (pool.map Prod.fst)).pick pool
    (some picked.1, picked.2)

/-- The packets of such a flow. -/
def picksAlone (key : FlowKey) (own : Option Swrr) : List (List (ℤ × ℤ)) → Option Swrr × List ℤ
  | [] => (own, [])
  | pool :: pools =>
    let picked := key.pickAlone own pool
    let rest := picksAlone key picked.1 pools
    (rest.1, picked.2 :: rest.2)

end FlowKey

namespace FlowTable

/-- Packets of any flows, one after the other, each with the WANs it may take. -/
def picksPerFlow (table : FlowTable) : List (FiveTuple × List (ℤ × ℤ)) → FlowTable × List ℤ
  | [] => (table, [])
  | packet :: packets =>
    let picked := table.pickWanPerFlowPacket packet.1 packet.2
    let rest := picksPerFlow picked.1 packets
    (rest.1, picked.2 :: rest.2)

/-- The scheduler of a flow. -/
def scheduler (table : FlowTable) (key : FlowKey) : Option Swrr :=
  (Ways.entry FlowState.key (table.flows key.home) key).map FlowState.swrr

/-- The table keeps each of its flows once, in the flow's set, and knows no others. -/
structure Keeps (table : FlowTable) (keys : Finset FlowKey) : Prop where
  allocated : table.allocated = true
  distinct : ∀ set, Ways.Distinct FlowState.key (table.flows set)
  known : ∀ set way f, table.flows set way = some f → f.key ∈ keys ∧ f.key.home = set

/-! ## The scan -/

theorem scan_of_find {set : Fin 4 → Option FlowState} {way : Fin 4} {ways : List (Fin 4)}
    (victim : Fin 4) (found : ways.find? (Ways.carries FlowState.key set key) = some way) :
    scan set key victim ways = way := by
  induction ways generalizing victim with
  | nil => cases found
  | cons i ways ih =>
    rw [List.find?_cons] at found
    rw [scan]
    cases here : set i with
    | none =>
      have other : Ways.carries FlowState.key set key i = false := by
        rw [Ways.carries, here]
        rfl
      rw [other] at found
      exact ih i found
    | some f =>
      have carries : Ways.carries FlowState.key set key i = decide (f.key = key) := by
        rw [Ways.carries, here]
        rfl
      rw [carries] at found
      dsimp only
      by_cases same : f.key = key
      · rw [decide_eq_true same] at found
        rw [if_pos same]
        exact Option.some.inj found
      · rw [decide_eq_false same] at found
        rw [if_neg same]
        split
        · exact ih i found
        · exact ih victim found

/-- For a new flow the scan ends on a free way, if there is one: the stamp of a free way is zero. -/
theorem scan_free {set : Fin 4 → Option FlowState} {ways : List (Fin 4)} {victim : Fin 4}
    (absent : ∀ way f, set way = some f → f.key ≠ key)
    (free : set victim = none ∨ ∃ way ∈ ways, set way = none) :
    set (scan set key victim ways) = none := by
  induction ways generalizing victim with
  | nil =>
    rcases free with free | ⟨way, mem, -⟩
    · exact free
    · cases mem
  | cons i ways ih =>
    rw [scan]
    cases here : set i with
    | none => exact ih (.inl here)
    | some f =>
      dsimp only
      rw [if_neg (absent i f here)]
      have later (other : ∃ way ∈ i :: ways, set way = none) : ∃ way ∈ ways, set way = none := by
        obtain ⟨way, mem, unused⟩ := other
        refine ⟨way, (List.mem_cons.mp mem).resolve_left ?_, unused⟩
        rintro rfl
        rw [unused] at here
        cases here
      rcases free with free | other
      · have newest : ¬ f.stamp < ((set victim).map FlowState.stamp).getD 0 := by
          rw [free]
          exact BitVec.not_lt_zero
        rw [if_neg newest]
        exact ih (.inl free)
      · split
        · exact ih (.inr (later other))
        · exact ih (.inr (later other))

theorem Keeps.fits (keeps : table.Keeps keys)
    (few : ∀ set, (keys.filter (FlowKey.home · = set)).card ≤ 4) (mem : key ∈ keys) :
    Ways.Fits FlowState.key (table.flows key.home) key
      (scan (table.flows key.home) key 0 (List.finRange 4)) := by
  cases found : Ways.find FlowState.key (table.flows key.home) key with
  | some way => exact .inl (found.trans (congrArg some (scan_of_find 0 found).symm))
  | none =>
    have inSet : ∀ way f, table.flows key.home way = some f →
        f.key ∈ keys.filter (FlowKey.home · = key.home) := fun way f valid =>
      Finset.mem_filter.mpr (keeps.known _ way f valid)
    obtain ⟨way, free⟩ := Ways.exists_free (keeps.distinct key.home) inSet (few key.home)
      (Finset.mem_filter.mpr ⟨mem, rfl⟩) found
    exact .inr ⟨found, scan_free (Ways.find_eq_none_iff.mp found)
      (.inr ⟨way, List.mem_finRange way, free⟩)⟩

/-! ## One packet -/

/-- A way of the key's set takes a new value. -/
def write (table : FlowTable) (key : FlowKey) (way : Fin 4) (f : FlowState) : FlowTable :=
  { table with
    flows := Function.update table.flows key.home
      (Function.update (table.flows key.home) way (some f))
    clock := f.stamp }

theorem flows_write (key : FlowKey) (way : Fin 4) (f : FlowState) :
    (table.write key way f).flows = Function.update table.flows key.home
      (Function.update (table.flows key.home) way (some f)) := rfl

theorem Keeps.write (keeps : table.Keeps keys) (mem : key ∈ keys) {way : Fin 4}
    (fits : Ways.Fits FlowState.key (table.flows key.home) key way) {f : FlowState}
    (same : f.key = key) : (table.write key way f).Keeps keys := by
  refine ⟨keeps.allocated, fun set => ?_, fun set i g valid => ?_⟩
  · rw [flows_write]
    by_cases here : set = key.home
    · subst here
      rw [Function.update_self]
      exact fits.distinct same (keeps.distinct key.home)
    · rw [Function.update_of_ne here]
      exact keeps.distinct set
  · rw [flows_write] at valid
    by_cases here : set = key.home
    · subst here
      rw [Function.update_self] at valid
      by_cases atWay : i = way
      · subst atWay
        rw [Function.update_self] at valid
        cases valid
        exact ⟨same ▸ mem, congrArg FlowKey.home same⟩
      · rw [Function.update_of_ne atWay] at valid
        exact keeps.known _ i g valid
    · rw [Function.update_of_ne here] at valid
      exact keeps.known set i g valid

theorem scheduler_write {way : Fin 4}
    (fits : Ways.Fits FlowState.key (table.flows key.home) key way) {f : FlowState}
    (same : f.key = key) :
    (table.write key way f).scheduler = Function.update table.scheduler key (some f.swrr) := by
  funext other
  rw [scheduler, flows_write]
  by_cases isKey : other = key
  · subst isKey
    rw [Function.update_self, Function.update_self, fits.entry_self same]
    rfl
  · rw [Function.update_of_ne isKey, scheduler]
    by_cases sameSet : other.home = key.home
    · rw [sameSet, Function.update_self, fits.entry_other same isKey]
    · rw [Function.update_of_ne sameSet]

/-- A packet moves the scheduler of its flow, and no other. -/
theorem Keeps.pick (keeps : table.Keeps keys)
    (few : ∀ set, (keys.filter (FlowKey.home · = set)).card ≤ 4) {t : FiveTuple}
    (mem : normalizeFlow5tuple t ∈ keys) (pool : List (ℤ × ℤ)) :
    let key := normalizeFlow5tuple t
    let own := key.pickAlone (table.scheduler key) pool
    (table.pickWanPerFlowPacket t pool).1.Keeps keys ∧
      (table.pickWanPerFlowPacket t pool).2 = own.2 ∧
      (table.pickWanPerFlowPacket t pool).1.scheduler =
        Function.update table.scheduler key own.1 := by
  intro key own
  by_cases empty : pool = []
  · have alone : own = (table.scheduler key, 0) := if_pos empty
    rw [pickWanPerFlowPacket, if_pos empty, alone]
    exact ⟨keeps, rfl, (Function.update_eq_self key table.scheduler).symm⟩
  · have fits := keeps.fits few mem
    have alone : own = (some ((key.goesOn (table.scheduler key)
        ((pool.take maxInterfaces).map Prod.fst)).pick (pool.take maxInterfaces)).1,
        ((key.goesOn (table.scheduler key)
          ((pool.take maxInterfaces).map Prod.fst)).pick (pool.take maxInterfaces)).2) :=
      if_neg empty
    have kept (wans : List ℤ) : ((table.flows key.home
        (scan (table.flows key.home) key 0 (List.finRange 4))).filter fun f =>
          f.key = key ∧ flowSwrrPoolSame f.swrr wans).map FlowState.swrr =
        (table.scheduler key).filter fun s => flowSwrrPoolSame s wans := by
      rw [fits.value, scheduler]
      cases found : Ways.entry FlowState.key (table.flows key.home) key with
      | none => rfl
      | some f =>
        have carried := Ways.keyOf_of_entry found
        rw [Option.map_some, Option.filter_some, Option.filter_some]
        simp only [carried, true_and, decide_eq_true_eq]
        split
        · rfl
        · rfl
    have picked : table.pickWanPerFlowPacket t pool =
        (table.write key (scan (table.flows key.home) key 0 (List.finRange 4))
          ⟨key, table.clock + 1, ((key.goesOn (table.scheduler key)
            ((pool.take maxInterfaces).map Prod.fst)).pick (pool.take maxInterfaces)).1⟩, own.2) := by
      have used : ¬ table.allocated = false := by
        rw [keeps.allocated]
        exact Bool.noConfusion
      rw [alone, pickWanPerFlowPacket, if_neg empty, if_neg used, FlowKey.goesOn, ← kept]
      rfl
    rw [picked, alone]
    exact ⟨keeps.write mem fits rfl, rfl, scheduler_write fits rfl⟩

/-! ## Runs -/

/-- What the packets of one flow get of what a run hands out. -/
def shareOf {α : Type*} (key : FlowKey) (packets : List (FiveTuple × List (ℤ × ℤ)))
    (handed : List α) : List α :=
  ((packets.zip handed).filter fun got => normalizeFlow5tuple got.1.1 = key).map Prod.snd

/-- What the packets of one flow are given to take. -/
def poolsOf (key : FlowKey) (packets : List (FiveTuple × List (ℤ × ℤ))) : List (List (ℤ × ℤ)) :=
  (packets.filter fun packet => normalizeFlow5tuple packet.1 = key).map Prod.snd

/-- The flows of a run. -/
def flowsOf (packets : List (FiveTuple × List (ℤ × ℤ))) : Finset FlowKey :=
  (packets.map fun packet => normalizeFlow5tuple packet.1).toFinset

theorem shareOf_cons {α : Type*} (key : FlowKey) (packet : FiveTuple × List (ℤ × ℤ))
    (packets : List (FiveTuple × List (ℤ × ℤ))) (got : α) (handed : List α) :
    shareOf key (packet :: packets) (got :: handed) =
      if normalizeFlow5tuple packet.1 = key then got :: shareOf key packets handed
      else shareOf key packets handed := by
  rw [shareOf, List.zip_cons_cons, List.filter_cons]
  simp only [decide_eq_true_eq]
  split
  · rfl
  · rfl

theorem poolsOf_cons (key : FlowKey) (packet : FiveTuple × List (ℤ × ℤ))
    (packets : List (FiveTuple × List (ℤ × ℤ))) :
    poolsOf key (packet :: packets) =
      if normalizeFlow5tuple packet.1 = key then packet.2 :: poolsOf key packets
      else poolsOf key packets := by
  rw [poolsOf, List.filter_cons]
  simp only [decide_eq_true_eq]
  split
  · rfl
  · rfl

/-- In a run each flow takes what it would take alone. -/
theorem Keeps.picks (keeps : table.Keeps keys)
    (few : ∀ set, (keys.filter (FlowKey.home · = set)).card ≤ 4)
    {packets : List (FiveTuple × List (ℤ × ℤ))}
    (known : ∀ packet ∈ packets, normalizeFlow5tuple packet.1 ∈ keys) (key : FlowKey) :
    shareOf key packets (table.picksPerFlow packets).2 =
      (key.picksAlone (table.scheduler key) (poolsOf key packets)).2 := by
  induction packets generalizing table with
  | nil => rfl
  | cons packet packets ih =>
    obtain ⟨next, wan, moved⟩ := keeps.pick few (known packet List.mem_cons_self) packet.2
    have later := ih next fun p mem => known p (List.mem_cons_of_mem packet mem)
    rw [picksPerFlow, shareOf_cons, poolsOf_cons, later, moved]
    by_cases mine : normalizeFlow5tuple packet.1 = key
    · subst mine
      rw [Function.update_self, if_pos rfl, if_pos rfl, FlowKey.picksAlone, wan]
    · rw [Function.update_of_ne (Ne.symm mine), if_neg mine, if_neg mine]

/-- From an empty table each flow takes what it would take alone. -/
theorem shareOf_of_empty {packets : List (FiveTuple × List (ℤ × ℤ))}
    (allocated : table.allocated = true) (empty : ∀ set way, table.flows set way = none)
    (few : ∀ set, ((flowsOf packets).filter (FlowKey.home · = set)).card ≤ 4) (key : FlowKey) :
    shareOf key packets (table.picksPerFlow packets).2 =
      (key.picksAlone none (poolsOf key packets)).2 := by
  have keeps : table.Keeps (flowsOf packets) := by
    refine ⟨allocated, fun set i j f g used => ?_, fun set way f used => ?_⟩
    · rw [empty] at used
      cases used
    · rw [empty] at used
      cases used
  have unknown : table.scheduler key = none := by
    rw [scheduler, Ways.entry_eq_none_iff.mpr, Option.map_none]
    refine Ways.find_eq_none_iff.mpr fun way f used => ?_
    rw [empty] at used
    cases used
  rw [← unknown]
  exact keeps.picks few
    (fun packet mem => List.mem_toFinset.mpr (List.mem_map.mpr ⟨packet, mem, rfl⟩)) key

end FlowTable

/-! ## One flow alone -/

/-- Every period takes each WAN as often as its weight says. -/
def ByWeight (pool : List (ℤ × ℤ)) (wans : List ℤ) : Prop :=
  let total := (pool.map Prod.snd).sum.toNat
  ∀ k, (k + 1) * total ≤ wans.length → ∀ wan,
    (((wans.drop (k * total)).take total).count wan : ℤ) = weightOf pool wan

theorem Swrr.length_picked (state : Swrr) (pools : List (List (ℤ × ℤ))) :
    (state.picks pools).2.length = pools.length := by
  induction pools generalizing state with
  | nil => rfl
  | cons pool pools ih => exact congrArg (· + 1) (ih _)

namespace FlowKey

theorem goesOn_self {s : Swrr} {wans : List ℤ} (same : s.wans = wans) :
    key.goesOn (some s) wans = s := by
  rw [goesOn, Option.filter_some, if_pos (by simpa [flowSwrrPoolSame] using same)]
  rfl

theorem wans_goesOn (key : FlowKey) (own : Option Swrr) (wans : List ℤ) :
    (key.goesOn own wans).wans = wans := by
  rw [goesOn]
  cases kept : own.filter fun s => flowSwrrPoolSame s wans with
  | none => rfl
  | some s => simpa [flowSwrrPoolSame] using (Option.filter_eq_some_iff.mp kept).2

/-- While the WANs stay, a flow picks with one scheduler. -/
theorem picksAlone_replicate (nonempty : pool ≠ []) (few : pool.length ≤ maxInterfaces)
    (own : Option Swrr) (n : ℕ) :
    (key.picksAlone own (List.replicate n pool)).2 =
      ((key.goesOn own (pool.map Prod.fst)).picks (List.replicate n pool)).2 := by
  induction n generalizing own with
  | zero => rfl
  | succ n ih =>
    have alone : key.pickAlone own pool =
        (some ((key.goesOn own (pool.map Prod.fst)).pick pool).1,
          ((key.goesOn own (pool.map Prod.fst)).pick pool).2) := by
      rw [pickAlone, if_neg nonempty]
      dsimp only
      rw [List.take_of_length_le few]
    rw [List.replicate_succ, picksAlone, Swrr.picks, alone]
    dsimp only
    rw [ih, goesOn_self]
    rw [Swrr.wans_pick, wans_goesOn]

theorem length_picksAlone (key : FlowKey) (own : Option Swrr) (pools : List (List (ℤ × ℤ))) :
    (key.picksAlone own pools).2.length = pools.length := by
  induction pools generalizing own with
  | nil => rfl
  | cons pool pools ih => exact congrArg (· + 1) (ih _)

theorem byWeight_picksAlone (two : 2 ≤ pool.length) (few : pool.length ≤ maxInterfaces)
    (positive : ∀ entry ∈ pool, 0 < entry.2) (n : ℕ) :
    ByWeight pool (key.picksAlone none (List.replicate n pool)).2 := by
  unfold ByWeight
  intro total k enough wan
  have some_wan : pool ≠ [] := by
    rintro rfl
    cases two
  rw [length_picksAlone, List.length_replicate] at enough
  rw [picksAlone_replicate some_wan few]
  have zero : (key.goesOn none (pool.map Prod.fst)).current = pool.map fun _ => 0 := List.map_map
  generalize key.goesOn none (pool.map Prod.fst) = start at zero ⊢
  have cleared := Swrr.picks_blocks two positive zero k
  have regroup : k * total + (total + (n - (k + 1) * total)) = n := by
    rw [← Nat.add_assoc, ← Nat.succ_mul]
    exact Nat.add_sub_of_le enough
  have split : List.replicate n pool = List.replicate (k * total) pool ++
      (List.replicate total pool ++ List.replicate (n - (k + 1) * total) pool) := by
    rw [← List.replicate_add, ← List.replicate_add, regroup]
  have length (s : Swrr) (m : ℕ) : (s.picks (List.replicate m pool)).2.length = m := by
    rw [Swrr.length_picked, List.length_replicate]
  rw [split, Swrr.picks_append, Swrr.picks_append]
  dsimp only
  rw [List.drop_left' (length start (k * total)), List.take_left' (length _ total)]
  exact (Swrr.picks_period two positive cleared).1 wan

end FlowKey

/-- From an empty table, while no set is asked for more than four flows: the packets of every flow
take the WANs that a scheduler of its own picks, whatever comes between them.  So where the WANs and
their weights stay, every period of a flow's packets takes each WAN as often as its weight says. -/
theorem each_flow_by_weight {packets : List (FiveTuple × List (ℤ × ℤ))}
    (allocated : table.allocated = true) (empty : ∀ set way, table.flows set way = none)
    (few : ∀ set, ((FlowTable.flowsOf packets).filter (FlowKey.home · = set)).card ≤ 4)
    (key : FlowKey) :
    let wans := FlowTable.shareOf key packets (table.picksPerFlow packets).2
    let pools := FlowTable.poolsOf key packets
    wans = (key.picksAlone none pools).2 ∧
      ∀ pool : List (ℤ × ℤ), (∀ p ∈ pools, p = pool) → 2 ≤ pool.length →
        pool.length ≤ maxInterfaces → (∀ entry ∈ pool, 0 < entry.2) → ByWeight pool wans := by
  intro wans pools
  have alone : wans = (key.picksAlone none pools).2 :=
    FlowTable.shareOf_of_empty allocated empty few key
  refine ⟨alone, fun pool stays two small positive => ?_⟩
  rw [alone, List.eq_replicate_of_mem stays]
  exact FlowKey.byWeight_picksAlone two small positive _

/-- Two flows that take turns over two WANs of weights 2 and 1. -/
theorem each_flow_by_weight_turns :
    let a : FiveTuple := ⟨1, 2, 3, 4, 6⟩
    let b : FiveTuple := ⟨1, 2, 3, 5, 6⟩
    let pool : List (ℤ × ℤ) := [(7, 2), (8, 1)]
    let packets := [(a, pool), (b, pool), (a, pool), (a, pool)]
    let table : FlowTable := ⟨true, fun _ _ => none, none, 0⟩
    FlowTable.shareOf (normalizeFlow5tuple a) packets (table.picksPerFlow packets).2 = [7, 8, 7] ∧
      ByWeight pool
        (FlowTable.shareOf (normalizeFlow5tuple a) packets (table.picksPerFlow packets).2) := by
  intro a b pool packets table
  have few (set : Fin 512) :
      ((FlowTable.flowsOf packets).filter (FlowKey.home · = set)).card ≤ 4 :=
    (Finset.card_filter_le ..).trans ((List.toFinset_card_le _).trans (by decide))
  have spread := @each_flow_by_weight table packets rfl (fun _ _ => rfl) few (normalizeFlow5tuple a)
  exact ⟨by decide, spread.2 pool (by decide) (by decide) (by decide) (by decide)⟩

end NeEncryptor.Wan
