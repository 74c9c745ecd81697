import Mathlib.Data.List.DropRight
import Mathlib.Tactic.IntervalCases
import NeEncryptor.Dataplane.CryptoRoute
import NeEncryptor.Iface.NeRing
import NeEncryptor.Iface.UmemFrames

/-!
# Transmit slots

The rings towards the WANs and the TX threads that drain them.  `forwarder_run` fixes the number of
TX slots by the interfaces it finds; each TX slot drains the queues of an interface that
`xsk_queue_for_tx_slot` gives it, also of a WAN that a reload attaches later.
-/

namespace NeEncryptor.Tx

open Route Transition Umem

/-- An entry of `locals` or of `wans`. -/
structure Iface where
  live : Bool
  queueCount : ℕ

/-- A frame on its way to a WAN. -/
abbrev Frame := NePacket

/-- The forwarder between `forwarder_init` and `forwarder_stop`. -/
structure TxState where
  /-- The interfaces up to `local_count`. -/
  locals : List Iface
  /-- The interfaces up to `wan_count`. -/
  wans : List Iface
  table : Route.Table
  /-- The TX threads, those of the slots below. -/
  txThreads : ℕ
  /-- `tls_out_ring_idx`. -/
  outRing : ℕ → ℕ
  /-- `fwd_wan_is_stopped`. -/
  stopped : ℕ → Bool
  midToWan : ℕ → ℕ → List Frame
  /-- The frames that a slot put on a queue of a WAN. -/
  sent : ℕ → ℕ → List Frame

inductive TxAct
  | run
  | outRingBind (t : ℕ) (ringIdx : ℤ)
  | workerBind (t : ℕ) (workerIdx : ℤ)
  /-- A thread pushes a frame on the ring it is bound to. -/
  | push (t d : ℕ) (frame : Frame)
  /-- `dp_tx_wan_once`, with so many free descriptors. -/
  | txWanOnce (txSlot d free : ℕ)
  | attachWan (hw : ℤ)
  | unplumbWan (d : ℕ)
  | reconcileCounts
  /-- `fwd_wan_mark_stopped` and `fwd_wan_mark_live`. -/
  | setStopped (d : ℕ) (stopped : Bool)
  /-- `wan_drain_finish_slot`, which flushes the rings of the WAN. -/
  | finishDrain (d : ℕ)
  deriving DecidableEq

/-- An interface that is up. -/
def Iface.plumbed (hw : ℤ) : Iface := ⟨true, UmemState.resolveIfaceQueueCount hw⟩

/-- `dp_out_ring_bind`. -/
def dpOutRingBind (table : Route.Table) (ringIdx : ℤ) : ℕ :=
  if ringIdx < 0 ∨ table.dpActiveTxSlots ≤ ringIdx then 0 else ringIdx.toNat

/-- `dp_crypto_worker_bind`. -/
def dpCryptoWorkerBind (table : Route.Table) (workerIdx : ℤ) : ℕ :=
  (if workerIdx < 0 ∨ cryptoWorkers ≤ workerIdx then 0 else workerIdx.toNat) % table.dpActiveTxSlots

/-- The queue that `tx_drain_iface_ring` finds. -/
def primary (nq txSlot : ℕ) : Option ℕ :=
  (List.range nq).find? fun q => UmemState.xskQueueForSlot q txSlot nq neTxSlots

/-- `fwd_alloc_wan_slot` with `ne_pair_plumb_wan_dp`. -/
def plumbWan (wans : List Iface) (hw : ℤ) : Option (List Iface) :=
  match wans.findIdx? fun i => !i.live with
  | some d => some (wans.set d (.plumbed hw))
  | none => if wans.length < Wan.maxInterfaces then some (wans ++ [.plumbed hw]) else none

/-- `profile_iface_life_reconcile_counts`. -/
def reconcile (ifaces : List Iface) : List Iface := ifaces.rdropWhile fun i => !i.live

namespace TxState

/-- `forwarder_init`, with the queues that `resolve_iface_queue_count` finds. -/
def init (locals wans : List ℤ) : TxState where
  locals := (locals.take Wan.maxInterfaces).map .plumbed
  wans := (wans.take Wan.maxInterfaces).map .plumbed
  table := .init
  txThreads := 0
  outRing := fun _ => 0
  stopped := fun _ => false
  midToWan := fun _ _ => []
  sent := fun _ _ => []

/-- `forwarder_active_tx_slots`. -/
def forwarderActiveTxSlots (st : TxState) : ℕ :=
  let live := (st.locals ++ st.wans).filter Iface.live
  let slots := live.foldl
    (fun slots i => if i.queueCount < slots then i.queueCount else slots) neTxSlots
  if live ≠ [] ∧ 0 < slots then slots else 1

/-- A WAN slot that TX threads serve. -/
def Serves (st : TxState) (d : ℕ) : Prop :=
  st.stopped d = false ∧ (st.wans[d]?).any Iface.live = true

instance (st : TxState) (d : ℕ) : Decidable (st.Serves d) :=
  inferInstanceAs (Decidable (_ ∧ _))

/-- `tx_drain_iface_ring`. -/
def txDrainIfaceRing (st : TxState) (txSlot d free : ℕ) : TxState :=
  match (st.wans[d]?).bind fun i => primary i.queueCount txSlot with
  | none => st
  | some _ =>
    let ring := st.midToWan d txSlot
    let n := min (min ring.length neXskCopyTxBatch) free
    { st with
      midToWan := Function.update st.midToWan d
        (Function.update (st.midToWan d) txSlot (ring.drop n))
      sent := Function.update st.sent d
        (Function.update (st.sent d) txSlot (st.sent d txSlot ++ ring.take n)) }

/-- `none` where no thread takes the step. -/
def step (st : TxState) : TxAct → Option TxState
  | .run =>
    if st.txThreads = 0 then
      let slots := st.forwarderActiveTxSlots
      some { st with
        table := st.table.dpRouteSetActiveTxSlots (BitVec.ofNat 32 slots)
        txThreads := slots
        outRing := fun _ => 0 }
    else none
  | .outRingBind t ringIdx =>
    if st.txThreads = 0 then none
    else some { st with
      outRing := Function.update st.outRing t (dpOutRingBind st.table ringIdx) }
  | .workerBind t workerIdx =>
    if st.txThreads = 0 then none
    else some { st with
      outRing := Function.update st.outRing t (dpCryptoWorkerBind st.table workerIdx) }
  | .push t d frame =>
    let ring := st.midToWan d (st.outRing t)
    if st.txThreads ≠ 0 ∧ d < st.wans.length ∧ ring.length < neRing then
      some { st with
        midToWan := Function.update st.midToWan d
          (Function.update (st.midToWan d) (st.outRing t) (ring ++ [frame])) }
    else none
  | .txWanOnce txSlot d free =>
    if txSlot < st.txThreads ∧ st.Serves d then some (st.txDrainIfaceRing txSlot d free) else none
  | .attachWan hw =>
    (plumbWan st.wans hw).map fun wans => { st with wans := wans }
  | .unplumbWan d => some { st with wans := st.wans.modify d fun _ => ⟨false, 0⟩ }
  | .reconcileCounts =>
    some { st with locals := reconcile st.locals, wans := reconcile st.wans }
  | .setStopped d stopped => some { st with stopped := Function.update st.stopped d stopped }
  | .finishDrain d =>
    some { st with
      midToWan :=
        if d < st.wans.length then Function.update st.midToWan d fun _ => [] else st.midToWan
      stopped := Function.update st.stopped d true }

/-- The slot has a TX thread. -/
def TxRuns (st : TxState) (s : ℕ) : Prop := s < st.txThreads

/-- A ring that `dp_out_ring_bind` can leave bound. -/
def Bindable (st : TxState) (s : ℕ) : Prop := ∃ ringIdx : ℤ, dpOutRingBind st.table ringIdx = s

/-- The TX thread of the slot drains the queue of the WAN. -/
def Drains (st : TxState) (s d q : ℕ) : Prop :=
  st.TxRuns s ∧ ∃ i : Iface, st.wans[d]? = some i ∧ i.live = true ∧ q < i.queueCount ∧
    UmemState.xskQueueForSlot q s i.queueCount neTxSlots = true

/-- The slots that can be bound have a TX thread that finds a queue in each live WAN. -/
def Served (st : TxState) : Prop :=
  ∀ (d : ℕ) (i : Iface), st.wans[d]? = some i → i.live = true → ∀ s, st.Bindable s →
    st.TxRuns s ∧ (primary i.queueCount s).isSome = true

/-- A WAN that comes up when the TX threads run has a queue for each of them. -/
def Ok (st : TxState) : TxAct → Prop
  | .attachWan hw => st.txThreads ≤ UmemState.resolveIfaceQueueCount hw
  | _ => True

instance (st : TxState) : ∀ act, Decidable (Ok st act)
  | .attachWan hw =>
    inferInstanceAs (Decidable (st.txThreads ≤ UmemState.resolveIfaceQueueCount hw))
  | .run | .outRingBind _ _ | .workerBind _ _ | .push _ _ _ | .txWanOnce _ _ _ | .unplumbWan _
  | .reconcileCounts | .setStopped _ _ | .finishDrain _ => instDecidableTrue

/-- The rounds of a slot over a WAN that found a free descriptor. -/
def rounds (s d : ℕ) (acts : List TxAct) : ℕ :=
  acts.countP fun
    | .txWanOnce s' d' free => s' == s && d' == d && free != 0
    | _ => false

/-- Every ring that a thread pushes on has one transmitter. -/
structure Transmits (st : TxState) : Prop where
  bound : ∀ t, st.Bindable (st.outRing t)
  served : st.Served
  exclusive : ∀ s s' d q, st.Drains s d q → st.Drains s' d q → s = s'
  /-- As many rounds as there are frames in a ring send them all, while the drain of the WAN does
  not end. -/
  drained : ∀ s d acts st', runWith step Ok st acts = some st' → st.Bindable s →
    .finishDrain d ∉ acts → (st.midToWan d s).length ≤ rounds s d acts →
    st.sent d s ++ st.midToWan d s <+: st'.sent d s

end TxState

/-! ## Queues of a slot -/

section Queues

variable {q s nq : ℕ}

theorem xskQueueForSlot_iff (positive : 0 < nq) :
    UmemState.xskQueueForSlot q s nq neTxSlots = true ↔
      s < min nq neTxSlots ∧ q % min nq neTxSlots = s := by
  unfold UmemState.xskQueueForSlot
  have slots : (if nq < neTxSlots then (if 0 < nq then nq else 1) else neTxSlots) =
      min nq neTxSlots := by
    rw [if_pos positive]
    split <;> omega
  simp only [slots]
  split
  · simp; omega
  · simp; omega

/-- A slot finds a queue exactly if there are enough. -/
theorem primary_isSome_iff (positive : 0 < nq) :
    (primary nq s).isSome = true ↔ s < min nq neTxSlots := by
  unfold primary
  rw [List.find?_isSome]
  constructor
  · rintro ⟨q, -, here⟩
    exact ((xskQueueForSlot_iff positive).mp here).1
  · intro few
    refine ⟨s, List.mem_range.mpr (by omega), ?_⟩
    exact (xskQueueForSlot_iff positive).mpr ⟨few, Nat.mod_eq_of_lt few⟩

/-- A queue is that of one slot. -/
theorem xskQueueForSlot_unique {s' : ℕ} (positive : 0 < nq)
    (here : UmemState.xskQueueForSlot q s nq neTxSlots = true)
    (there : UmemState.xskQueueForSlot q s' nq neTxSlots = true) : s = s' :=
  ((xskQueueForSlot_iff positive).mp here).2.symm.trans ((xskQueueForSlot_iff positive).mp there).2

end Queues

/-! ## The number of slots -/

theorem dpActiveTxSlots_set {slots : ℕ} (positive : 0 < slots) (few : slots ≤ neTxSlots)
    (table : Route.Table) :
    (table.dpRouteSetActiveTxSlots (BitVec.ofNat 32 slots)).dpActiveTxSlots = slots := by
  unfold neTxSlots at few
  interval_cases slots <;> rfl

theorem bindable_iff {st : TxState} (positive : 0 < st.table.dpActiveTxSlots) {s : ℕ} :
    st.Bindable s ↔ s < st.table.dpActiveTxSlots := by
  unfold TxState.Bindable dpOutRingBind
  constructor
  · rintro ⟨ringIdx, rfl⟩
    split <;> omega
  · intro few
    exact ⟨s, by rw [if_neg (by omega)]; rfl⟩

/-- The least number of queues. -/
theorem foldl_queueCount_le (ifaces : List Iface) (slots : ℕ) :
    let least := ifaces.foldl
      (fun slots i => if i.queueCount < slots then i.queueCount else slots) slots
    least ≤ slots ∧ (∀ i ∈ ifaces, least ≤ i.queueCount) ∧
      (0 < slots → (∀ i ∈ ifaces, 0 < i.queueCount) → 0 < least) := by
  induction ifaces generalizing slots with
  | nil => exact ⟨le_rfl, nofun, fun positive _ => positive⟩
  | cons i ifaces ih =>
    obtain ⟨le_start, le_each, positive⟩ :=
      ih (if i.queueCount < slots then i.queueCount else slots)
    dsimp only [List.foldl_cons] at *
    have start_le : (if i.queueCount < slots then i.queueCount else slots) ≤ slots ∧
        (if i.queueCount < slots then i.queueCount else slots) ≤ i.queueCount := by
      split <;> omega
    refine ⟨le_start.trans start_le.1, ?_, fun some_slots each => positive ?_ ?_⟩
    · intro j listed
      rcases List.mem_cons.mp listed with rfl | later
      · exact le_start.trans start_le.2
      · exact le_each j later
    · have first := each i (List.mem_cons_self ..)
      split <;> omega
    · exact fun j later => each j (List.mem_cons_of_mem _ later)

namespace TxState

variable {st st' : TxState}

/-- The number of TX slots fits every live interface. -/
theorem forwarderActiveTxSlots_le (positive : ∀ i ∈ st.locals ++ st.wans, i.live = true →
      0 < i.queueCount) :
    0 < st.forwarderActiveTxSlots ∧ st.forwarderActiveTxSlots ≤ neTxSlots ∧
      ∀ i ∈ st.wans, i.live = true → st.forwarderActiveTxSlots ≤ i.queueCount := by
  unfold forwarderActiveTxSlots
  dsimp only
  obtain ⟨le_all, le_each, least_positive⟩ :=
    foldl_queueCount_le ((st.locals ++ st.wans).filter Iface.live) neTxSlots
  generalize List.foldl (fun slots (i : Iface) =>
    if i.queueCount < slots then i.queueCount else slots) neTxSlots
    ((st.locals ++ st.wans).filter Iface.live) = least at *
  have listed : ∀ i ∈ st.wans, i.live = true → i ∈ (st.locals ++ st.wans).filter Iface.live :=
    fun i isWan live => List.mem_filter.mpr ⟨List.mem_append_right _ isWan, live⟩
  split
  · rename_i found
    exact ⟨found.2, le_all, fun i isWan live => le_each i (listed i isWan live)⟩
  · refine ⟨Nat.one_pos, by decide, fun i isWan live => ?_⟩
    exact positive i (List.mem_append_right _ isWan) live

/-! ## The invariant -/

/-- What holds in every run. -/
structure Inv (st : TxState) : Prop where
  queues : ∀ i ∈ st.locals ++ st.wans, i.live = true → 0 < i.queueCount
  threads : 0 < st.txThreads → st.txThreads = st.table.dpActiveTxSlots
  few : st.txThreads ≤ neTxSlots
  bound : 0 < st.txThreads → ∀ t, st.outRing t < st.txThreads

/-- The live WANs have a queue for each TX thread. -/
def Enough (st : TxState) : Prop := ∀ i ∈ st.wans, i.live = true → st.txThreads ≤ i.queueCount

theorem resolveIfaceQueueCount_pos (hw : ℤ) : 0 < UmemState.resolveIfaceQueueCount hw := by
  unfold UmemState.resolveIfaceQueueCount
  omega

/-- The interfaces after an attach. -/
theorem mem_plumbWan {wans wans' : List Iface} {hw : ℤ} (plumbed : plumbWan wans hw = some wans')
    {i : Iface} (here : i ∈ wans') : i ∈ wans ∨ i = .plumbed hw := by
  unfold plumbWan at plumbed
  split at plumbed
  · cases plumbed
    exact List.mem_or_eq_of_mem_set here
  · split at plumbed
    · cases plumbed
      exact (List.mem_append.mp here).imp_right List.mem_singleton.mp
    · cases plumbed

theorem mem_reconcile {ifaces : List Iface} {i : Iface} (here : i ∈ reconcile ifaces) :
    i ∈ ifaces := (List.rdropWhile_prefix _ _).subset here

/-- The interfaces after one is brought down. -/
theorem mem_unplumb {wans : List Iface} {d : ℕ} {i : Iface}
    (here : i ∈ wans.modify d fun _ => ⟨false, 0⟩) : i ∈ wans ∨ i = ⟨false, 0⟩ := by
  obtain ⟨k, inside, rfl⟩ := List.mem_iff_getElem.mp here
  rw [List.getElem_modify]
  split
  · exact .inr rfl
  · exact .inl (List.getElem_mem _)

theorem inv_init (locals wans : List ℤ) : Inv (init locals wans) where
  queues := by
    intro i here live
    have plumbed : ∃ hw, Iface.plumbed hw = i := by
      rcases List.mem_append.mp here with isLocal | isWan
      · exact ⟨_, (List.mem_map.mp isLocal).choose_spec.2⟩
      · exact ⟨_, (List.mem_map.mp isWan).choose_spec.2⟩
    obtain ⟨hw, rfl⟩ := plumbed
    exact resolveIfaceQueueCount_pos hw
  threads := fun started => absurd started (lt_irrefl 0)
  few := Nat.zero_le _
  bound := fun started => absurd started (lt_irrefl 0)

theorem dpOutRingBind_lt {table : Route.Table} (positive : 0 < table.dpActiveTxSlots)
    (ringIdx : ℤ) : dpOutRingBind table ringIdx < table.dpActiveTxSlots := by
  unfold dpOutRingBind
  split <;> omega

theorem dpCryptoWorkerBind_lt {table : Route.Table} (positive : 0 < table.dpActiveTxSlots)
    (workerIdx : ℤ) : dpCryptoWorkerBind table workerIdx < table.dpActiveTxSlots :=
  Nat.mod_lt _ positive

/-- A thread is bound anew. -/
theorem Inv.bind (inv : Inv st) (t : ℕ) {ring : ℕ}
    (few : 0 < st.table.dpActiveTxSlots → ring < st.table.dpActiveTxSlots) :
    Inv { st with outRing := Function.update st.outRing t ring } := by
  refine ⟨inv.queues, inv.threads, inv.few, fun started t' => ?_⟩
  by_cases same : t' = t
  · subst same
    have slots := inv.threads started
    simp only [Function.update_self]
    rw [slots] at started ⊢
    exact few started
  · simp only [Function.update_of_ne same]
    exact inv.bound started t'

/-- Other WANs, each with queues. -/
theorem Inv.interfaces (inv : Inv st) {locals wans : List Iface}
    (queues : ∀ i ∈ locals ++ wans,
      i ∈ st.locals ++ st.wans ∨ (i.live = true → 0 < i.queueCount)) :
    Inv { st with locals := locals, wans := wans } :=
  ⟨fun i here => (queues i here).elim (inv.queues i) id, inv.threads, inv.few, inv.bound⟩

theorem inv_step {act : TxAct} (inv : Inv st) (enabled : step st act = some st') : Inv st' := by
  cases act with
  | run =>
    unfold step at enabled
    split_ifs at enabled
    cases enabled
    obtain ⟨positive, few, -⟩ := forwarderActiveTxSlots_le inv.queues
    exact ⟨inv.queues, fun _ => (dpActiveTxSlots_set positive few st.table).symm, few,
      fun _ _ => positive⟩
  | outRingBind t ringIdx =>
    unfold step at enabled
    split_ifs at enabled
    cases enabled
    exact inv.bind t fun positive => dpOutRingBind_lt positive ringIdx
  | workerBind t workerIdx =>
    unfold step at enabled
    split_ifs at enabled
    cases enabled
    exact inv.bind t fun positive => dpCryptoWorkerBind_lt positive workerIdx
  | push t d frame =>
    unfold step at enabled
    dsimp only at enabled
    split_ifs at enabled
    cases enabled
    exact ⟨inv.queues, inv.threads, inv.few, inv.bound⟩
  | txWanOnce s d free =>
    unfold step at enabled
    dsimp only at enabled
    split_ifs at enabled
    cases enabled
    unfold txDrainIfaceRing
    split <;> exact ⟨inv.queues, inv.threads, inv.few, inv.bound⟩
  | attachWan hw =>
    obtain ⟨wans, plumbed, rfl⟩ := Option.map_eq_some_iff.mp enabled
    refine inv.interfaces fun i here => ?_
    rcases List.mem_append.mp here with isLocal | isWan
    · exact .inl (List.mem_append_left _ isLocal)
    · rcases mem_plumbWan plumbed isWan with old | rfl
      · exact .inl (List.mem_append_right _ old)
      · exact .inr fun _ => resolveIfaceQueueCount_pos hw
  | unplumbWan d =>
    cases enabled
    refine inv.interfaces fun i here => ?_
    rcases List.mem_append.mp here with isLocal | isWan
    · exact .inl (List.mem_append_left _ isLocal)
    · rcases mem_unplumb isWan with old | rfl
      · exact .inl (List.mem_append_right _ old)
      · exact .inr nofun
  | reconcileCounts =>
    cases enabled
    refine inv.interfaces fun i here => .inl ?_
    rcases List.mem_append.mp here with isLocal | isWan
    · exact List.mem_append_left _ (mem_reconcile isLocal)
    · exact List.mem_append_right _ (mem_reconcile isWan)
  | setStopped _ _ | finishDrain _ =>
    cases enabled
    exact ⟨inv.queues, inv.threads, inv.few, inv.bound⟩

theorem enough_step {act : TxAct} (inv : Inv st) (enough : Enough st) (ok : Ok st act)
    (enabled : step st act = some st') : Enough st' := by
  cases act with
  | run =>
    unfold step at enabled
    split_ifs at enabled
    cases enabled
    exact (forwarderActiveTxSlots_le inv.queues).2.2
  | outRingBind t ringIdx =>
    unfold step at enabled
    split_ifs at enabled
    cases enabled
    exact enough
  | workerBind t workerIdx =>
    unfold step at enabled
    split_ifs at enabled
    cases enabled
    exact enough
  | push t d frame =>
    unfold step at enabled
    dsimp only at enabled
    split_ifs at enabled
    cases enabled
    exact enough
  | txWanOnce s d free =>
    unfold step at enabled
    dsimp only at enabled
    split_ifs at enabled
    cases enabled
    unfold txDrainIfaceRing
    split <;> exact enough
  | attachWan hw =>
    obtain ⟨wans, plumbed, rfl⟩ := Option.map_eq_some_iff.mp enabled
    intro i here live
    rcases mem_plumbWan plumbed here with old | rfl
    · exact enough i old live
    · exact ok
  | unplumbWan d =>
    cases enabled
    intro i here live
    rcases mem_unplumb here with old | rfl
    · exact enough i old live
    · cases live
  | reconcileCounts =>
    cases enabled
    exact fun i here => enough i (mem_reconcile here)
  | setStopped _ _ | finishDrain _ =>
    cases enabled
    exact enough

/-! ## Service -/

/-- The slots are served exactly as long as there are enough queues. -/
theorem served_iff (inv : Inv st) (started : 0 < st.txThreads) : st.Served ↔ st.Enough := by
  have slots := inv.threads started
  have bindable : ∀ {s}, st.Bindable s ↔ s < st.txThreads := by
    intro s
    rw [slots]
    exact bindable_iff (slots ▸ started)
  have found : ∀ i ∈ st.wans, i.live = true → ∀ s,
      (primary i.queueCount s).isSome = true ↔ s < min i.queueCount neTxSlots :=
    fun i isWan live _ => primary_isSome_iff (inv.queues i (List.mem_append_right _ isWan) live)
  have few := inv.few
  constructor
  · intro served i isWan live
    obtain ⟨d, here⟩ := List.mem_iff_getElem?.mp isWan
    have last := (served d i here live (st.txThreads - 1) (bindable.mpr (by omega))).2
    rw [found i isWan live] at last
    omega
  · intro enough d i here live s bound
    have isWan := List.mem_of_getElem? here
    have queues := enough i isWan live
    have few_s := bindable.mp bound
    exact ⟨few_s, (found i isWan live s).mpr (by omega)⟩

/-- What a step does to what a slot has sent to a WAN and to what waits: nothing is lost, and a
round with a free descriptor sends a frame if one waits. -/
structure Moved (s d done : ℕ) (st st' : TxState) : Prop where
  kept : st.sent d s ++ st.midToWan d s <+: st'.sent d s ++ st'.midToWan d s
  progress : min (st.sent d s ++ st.midToWan d s).length ((st.sent d s).length + done) ≤
    (st'.sent d s).length

theorem Moved.of_eq {s d : ℕ} (sent : st'.sent d s = st.sent d s)
    (waits : st'.midToWan d s = st.midToWan d s) : Moved s d 0 st st' := by
  constructor
  · rw [sent, waits]
  · rw [sent]
    omega

theorem Moved.trans {s d a b : ℕ} {st'' : TxState} (first : Moved s d a st st')
    (second : Moved s d b st' st'') : Moved s d (a + b) st st'' := by
  refine ⟨first.kept.trans second.kept, ?_⟩
  have longer := first.kept.length_le
  have := first.progress
  have := second.progress
  omega

/-- The round of a slot over a WAN that has a queue for it. -/
theorem moved_txDrain {s d : ℕ} {i : Iface} (here : st.wans[d]? = some i)
    (found : (primary i.queueCount s).isSome = true) (free s' d' : ℕ) :
    Moved s' d' (if s = s' ∧ d = d' ∧ free ≠ 0 then 1 else 0) st
      (st.txDrainIfaceRing s d free) := by
  obtain ⟨q, isPrimary⟩ := Option.isSome_iff_exists.mp found
  unfold txDrainIfaceRing
  simp only [here, Option.bind_some, isPrimary]
  by_cases sameWan : d' = d
  swap
  · rw [if_neg fun same => sameWan same.2.1.symm]
    refine .of_eq ?_ ?_
    · simp only [Function.update_of_ne sameWan]
    · simp only [Function.update_of_ne sameWan]
  subst sameWan
  by_cases sameSlot : s' = s
  swap
  · rw [if_neg fun same => sameSlot same.1.symm]
    refine .of_eq ?_ ?_
    · simp only [Function.update_self, Function.update_of_ne sameSlot]
    · simp only [Function.update_self, Function.update_of_ne sameSlot]
  subst sameSlot
  constructor
  · simp only [Function.update_self, List.append_assoc, List.take_append_drop, List.prefix_rfl]
  · simp only [Function.update_self, List.length_append, List.length_take, true_and]
    unfold neXskCopyTxBatch
    split <;> omega

theorem moved_step {act : TxAct} {s d : ℕ} (inv : Inv st) (enough : Enough st)
    (drains : act ≠ .finishDrain d) (enabled : step st act = some st') :
    Moved s d (rounds s d [act]) st st' := by
  cases act with
  | push t d' frame =>
    unfold step at enabled
    dsimp only at enabled
    split_ifs at enabled
    cases enabled
    by_cases same : d = d' ∧ s = st.outRing t
    · obtain ⟨rfl, rfl⟩ := same
      constructor
      · simp only [Function.update_self]
        exact ⟨[frame], by simp⟩
      · simp [rounds]
    · refine .of_eq rfl ?_
      by_cases sameWan : d = d'
      · subst sameWan
        have other : s ≠ st.outRing t := fun sameSlot => same ⟨rfl, sameSlot⟩
        simp only [Function.update_self, Function.update_of_ne other]
      · simp only [Function.update_of_ne sameWan]
  | txWanOnce s' d' free =>
    unfold step at enabled
    dsimp only at enabled
    split_ifs at enabled with serves
    cases enabled
    obtain ⟨runs, -, up⟩ := serves
    obtain ⟨i, here, live⟩ := (Option.any_eq_true _ _).mp up
    have isWan := List.mem_of_getElem? here
    have queues := enough i isWan live
    have few := inv.few
    have found : (primary i.queueCount s').isSome = true :=
      (primary_isSome_iff (inv.queues i (List.mem_append_right _ isWan) live)).mpr (by omega)
    have moved := moved_txDrain here found free s d
    have same : rounds s d [.txWanOnce s' d' free] =
        if s' = s ∧ d' = d ∧ free ≠ 0 then 1 else 0 := by
      unfold rounds
      rw [List.countP_singleton]
      simp [and_assoc]
    rwa [same]
  | run | outRingBind t ringIdx | workerBind t workerIdx =>
    unfold step at enabled
    split_ifs at enabled
    cases enabled
    exact .of_eq rfl rfl
  | attachWan hw =>
    obtain ⟨wans, plumbed, rfl⟩ := Option.map_eq_some_iff.mp enabled
    exact .of_eq rfl rfl
  | unplumbWan _ | reconcileCounts | setStopped _ _ =>
    cases enabled
    exact .of_eq rfl rfl
  | finishDrain d' =>
    cases enabled
    have other : d ≠ d' := fun same => drains (congrArg _ same.symm)
    refine .of_eq rfl ?_
    dsimp only
    split
    · rw [Function.update_of_ne other]
    · rfl

theorem moved_run {acts : List TxAct} {s d : ℕ} (inv : Inv st) (enough : Enough st)
    (drains : .finishDrain d ∉ acts) (ran : runWith step Ok st acts = some st') :
    Moved s d (rounds s d acts) st st' := by
  induction acts generalizing st with
  | nil =>
    cases ran
    exact .of_eq rfl rfl
  | cons act acts ih =>
    unfold runWith at ran
    split_ifs at ran with ok
    obtain ⟨next, enabled, rest⟩ := Option.bind_eq_some_iff.mp ran
    rw [List.mem_cons, not_or] at drains
    obtain ⟨here, after⟩ := drains
    have later := ih (inv_step inv enabled) (enough_step inv enough ok enabled) after rest
    have count : rounds s d (act :: acts) = rounds s d [act] + rounds s d acts := by
      unfold rounds
      rw [← List.countP_append, List.singleton_append]
    rw [count]
    exact (moved_step inv enough (Ne.symm here) enabled).trans later

/-- In a run where every WAN that comes up has a queue for each TX thread, the rings towards the
WANs are drained. -/
theorem transmits {locals wans : List ℤ} (reached : ReachableWith step Ok (init locals wans) st)
    (started : 0 < st.txThreads) : st.Transmits := by
  have kept : Inv st ∧ Enough st := reached.invariant
    (I := fun st => Inv st ∧ Enough st) ⟨inv_init locals wans, fun _ _ _ => Nat.zero_le _⟩
    fun _ _ _ holds ok enabled =>
      ⟨inv_step holds.1 enabled, enough_step holds.1 holds.2 ok enabled⟩
  obtain ⟨inv, enough⟩ := kept
  have slots := inv.threads started
  refine ⟨fun t => ?_, (served_iff inv started).mpr enough, ?_, ?_⟩
  · rw [bindable_iff (slots ▸ started), ← slots]
    exact inv.bound started t
  · rintro s s' d q ⟨-, i, here, live, -, isQueue⟩ ⟨-, i', here', -, -, isQueue'⟩
    obtain rfl := Option.some_inj.mp (here.symm.trans here')
    have positive := inv.queues i (List.mem_append_right _ (List.mem_of_getElem? here)) live
    exact xskQueueForSlot_unique positive isQueue isQueue'
  · intro s d acts st' ran _ drains enoughRounds
    obtain ⟨kept, progress⟩ := moved_run (s := s) inv enough drains ran
    refine List.prefix_of_prefix_length_le kept (List.prefix_append _ _) ?_
    rw [List.length_append] at progress ⊢
    omega

/-! ## Samples -/

/-- A LAN and a WAN of four queues, and one more WAN that a reload attaches. -/
def sampleAttach (hw : ℤ) : List TxAct := [.run, .outRingBind 0 3, .attachWan hw]

theorem transmits_sample : ∃ st : TxState,
    (st.txThreads = 4 ∧ st.wans.length = 2 ∧ st.outRing 0 = 3) ∧ st.Transmits := by
  have ran : (runWith step Ok (init [4] [4]) (sampleAttach 8)).any
      (fun st => st.txThreads = 4 ∧ st.wans.length = 2 ∧ st.outRing 0 = 3) = true := by
    decide +kernel
  obtain ⟨st, reached, ends⟩ := (Option.any_eq_true _ _).mp ran
  have shape := of_decide_eq_true ends
  exact ⟨st, shape, transmits (.of_runWith _ reached) (by omega)⟩

instance (st : TxState) : Decidable (Enough st) :=
  inferInstanceAs (Decidable (∀ i ∈ st.wans, i.live = true → st.txThreads ≤ i.queueCount))

/-- A WAN of two queues does not drain the rings 2 and 3. -/
theorem attached_not_served :
    ¬ ∀ (locals wans : List ℤ) (st : TxState), Reachable step (init locals wans) st →
      0 < st.txThreads → st.Served := by
  intro always
  obtain ⟨st, reached, few⟩ : ∃ st, Reachable step (init [4] [4]) st ∧
      (decide (0 < st.txThreads) && !decide st.Enough) = true :=
    exists_reachable_of_run (sampleAttach 2) (by decide +kernel)
  rw [Bool.and_eq_true, decide_eq_true_iff, Bool.not_eq_true', decide_eq_false_iff_not] at few
  have inv : Inv st := reached.invariant (inv_init _ _) fun _ _ _ inv _ enabled =>
    inv_step inv enabled
  exact few.2 ((served_iff inv few.1).mp (always _ _ st reached few.1))

end TxState

end NeEncryptor.Tx
