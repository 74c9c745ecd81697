import NeEncryptor.Iface.UmemMoves

/-!
# Hot attaches and rollbacks

What a reload does to sockets and frames.  A WAN that goes down must have no batch that a thread has
not released and no frame in its rings; then every step keeps each frame at one location.
-/

namespace NeEncryptor.Umem

namespace UmemState

variable {st st' : UmemState}

/-- Which sockets there are: those of the live interfaces, and those of the WAN that is on its way
up or down. -/
structure SocketInv (st : UmemState) : Prop where
  fits : ∀ dir, st.count dir ≤ Wan.maxInterfaces
  counted : ∀ i, st.live i = true → i.idx < st.count i.dir
  opened : ∀ i q, st.live i = true → q < st.queueCount i → st.xsk i q = true
  inside : ∀ i q, st.xsk i q = true → q < st.queueCount i
  owner : ∀ i q, st.xsk i q = true →
    st.live i = true ∨ ∃ slot, st.attachPc.slot = some slot ∧ i = ⟨.dirWan, slot⟩
  plumbed : ∀ slot q want, st.attachPc = .prefill slot q want → slot < st.count .dirWan ∧
    ∀ q', q' < st.queueCount ⟨.dirWan, slot⟩ → st.xsk ⟨.dirWan, slot⟩ q' = true
  bound : ∀ slot, st.attachPc = .bind slot → st.live ⟨.dirWan, slot⟩ = true

structure Inv (st : UmemState) : Prop where
  frames : FrameInv st
  sockets : SocketInv st

theorem Inv.handles (inv : Inv st) (handles : Handles st st') : Inv st' where
  frames := handles.keeps inv.frames
  sockets := by
    have sockets := inv.sockets
    constructor
    · rw [handles.count]
      exact sockets.fits
    · rw [handles.live, handles.count]
      exact sockets.counted
    · rw [handles.live, handles.queueCount, handles.xsk]
      exact sockets.opened
    · rw [handles.queueCount, handles.xsk]
      exact sockets.inside
    · rw [handles.live, handles.xsk, handles.attachPc]
      exact sockets.owner
    · rw [handles.attachPc, handles.queueCount, handles.xsk, handles.count]
      exact sockets.plumbed
    · rw [handles.attachPc, handles.live]
      exact sockets.bound

/-! ## The threads and the kernel -/

theorem mem_slotQueues {i : NeIface} {q slot maxSlots : ℕ}
    (here : q ∈ st.slotQueues i slot maxSlots) : q < st.queueCount i :=
  List.mem_range.mp (List.mem_of_mem_filter here)

theorem mem_liveQueues {dir : NePacketDir} {slot maxSlots : ℕ} {iq : NeIface × ℕ}
    (here : iq ∈ st.liveQueues dir slot maxSlots) :
    st.live iq.1 = true ∧ iq.2 < st.queueCount iq.1 := by
  obtain ⟨i, isLive, inside⟩ := List.mem_flatMap.mp here
  obtain ⟨q, isQueue, rfl⟩ := List.mem_map.mp inside
  exact ⟨(List.mem_filter.mp isLive).2, mem_slotQueues isQueue⟩

theorem handles_rxPc (pc : RxThread → RxPc) : Handles st { st with rxPc := pc } :=
  ⟨rfl, rfl, rfl, rfl, rfl, rfl, fun inv => inv.congr rfl rfl rfl rfl⟩

theorem Inv.refillFqSlot (inv : Inv st) (t : RxThread) : Handles st (st.refillFqSlot t) :=
  Handles.foldl _ fun st' done iq inside => by
    obtain ⟨isLive, isQueue⟩ := mem_liveQueues inside
    exact handles_refillFqQueue (by rw [done.xsk]; exact inv.sockets.opened _ _ isLive isQueue)

theorem handles_recvSlot (t : RxThread) : Handles st (st.recvSlot t) :=
  Handles.foldl _ fun _ _ _ _ => handles_recvQueue t

theorem handles_recvReleaseSlot (t : RxThread) : Handles st (st.recvReleaseSlot t) :=
  Handles.foldl _ fun _ _ _ _ => handles_clearPending

theorem handles_drainCqSlot (dir : NePacketDir) (txSlot : ℕ) :
    Handles st (st.drainCqSlot dir txSlot) :=
  Handles.foldl _ fun _ _ _ _ => handles_drainCqQueue

theorem Inv.stepRx (inv : Inv st) {t : RxThread} {a : RxAct}
    (enabled : st.stepRx t a = some st') : Handles st st' := by
  cases a with
  | refill =>
    rw [UmemState.stepRx] at enabled
    obtain ⟨-, ⟨⟩⟩ := (Option.ite_none_right_eq_some ..).mp enabled
    exact (inv.refillFqSlot t).trans (handles_rxPc _)
  | receive =>
    rw [UmemState.stepRx] at enabled
    obtain ⟨-, ⟨⟩⟩ := (Option.ite_none_right_eq_some ..).mp enabled
    exact (handles_recvSlot t).trans (handles_rxPc _)
  | free =>
    rw [UmemState.stepRx] at enabled
    obtain ⟨-, ⟨⟩⟩ := (Option.ite_none_right_eq_some ..).mp enabled
    have ne : FrameLoc.batch t ≠ .pool := nofun
    exact handles_giveBack ne 1
  | handOver =>
    rw [UmemState.stepRx] at enabled
    obtain ⟨-, ⟨⟩⟩ := (Option.ite_none_right_eq_some ..).mp enabled
    have ne : FrameLoc.batch t ≠ .dataplane := nofun
    exact handles_shift ne rfl 1
  | release =>
    rw [UmemState.stepRx] at enabled
    obtain ⟨-, ⟨⟩⟩ := (Option.ite_none_right_eq_some ..).mp enabled
    exact (handles_recvReleaseSlot t).trans (handles_rxPc _)

/-- What the dataplane, the TX threads and the kernel do. -/
theorem Inv.step_of_not_attach (inv : Inv st) {a : UmemAct} (other : ∀ b, a ≠ .attach b)
    (enabled : st.step a = some st') : Handles st st' := by
  cases a with
  | rx t a => exact inv.stepRx enabled
  | txDrain i txSlot fs =>
    rw [step] at enabled
    obtain ⟨⟨-, -, isLive⟩, enabled⟩ := (Option.ite_none_right_eq_some ..).mp enabled
    obtain ⟨q, isPrimary, enabled⟩ := Option.bind_eq_some_iff.mp enabled
    obtain ⟨⟨-, here⟩, ⟨⟩⟩ := (Option.ite_none_right_eq_some ..).mp enabled
    have ne : FrameLoc.dataplane ≠ .tx i q := nofun
    have inside : q < st.queueCount i := mem_slotQueues (List.mem_of_head? isPrimary)
    exact handles_pick ne (inv.sockets.opened i q isLive inside) here
  | drainCq dir txSlot =>
    rw [step] at enabled
    obtain ⟨-, ⟨⟩⟩ := (Option.ite_none_right_eq_some ..).mp enabled
    exact handles_drainCqSlot dir txSlot
  | frameAlloc n =>
    cases enabled
    have ne : FrameLoc.pool ≠ .dataplane := nofun
    exact handles_shift ne rfl n
  | frameFree f =>
    rw [step] at enabled
    obtain ⟨here, ⟨⟩⟩ := (Option.ite_none_right_eq_some ..).mp enabled
    have ne : FrameLoc.dataplane ≠ .pool := nofun
    refine ⟨rfl, rfl, rfl, rfl, rfl, rfl, fun inv => ?_⟩
    have few : [f].length ≤ (st.frames .dataplane).length := List.length_pos_of_mem here
    rw [poolPush_update ne (few.trans (inv.length_le_poolRoom ne))]
    have isPick : (st.frames .dataplane).erase f = (st.frames .dataplane).diff [f] := by
      rw [List.diff_cons, List.diff_nil]
    rw [isPick]
    exact (handles_pick ne rfl (List.singleton_subperm_iff.mpr here)).keeps inv
  | kernelRx i q f =>
    rw [step] at enabled
    obtain ⟨⟨socket, here, -⟩, ⟨⟩⟩ := (Option.ite_none_right_eq_some ..).mp enabled
    have ne : FrameLoc.fq i q ≠ .rx i q := nofun
    exact handles_pick ne socket (List.singleton_subperm_iff.mpr here)
  | kernelTx i q i' q' f =>
    rw [step] at enabled
    obtain ⟨⟨-, socket, here, -⟩, ⟨⟩⟩ := (Option.ite_none_right_eq_some ..).mp enabled
    have ne : FrameLoc.tx i q ≠ .cq i' q' := nofun
    exact handles_pick ne socket (List.singleton_subperm_iff.mpr here)
  | attach b => exact absurd rfl (other b)

/-! ## Hot attaches and rollbacks -/

/-- Between the interfaces nothing is on its way up or down. -/
theorem SocketInv.goto (inv : SocketInv st) (was : st.attachPc.slot = none) {pc : AttachPc}
    (calm : pc.slot = none) (added : List ℕ) :
    SocketInv { st with attachPc := pc, wanAdded := added } where
  fits := inv.fits
  counted := inv.counted
  opened := inv.opened
  inside := inv.inside
  owner i q socket := by
    obtain isLive | ⟨slot, isSlot, -⟩ := inv.owner i q socket
    · exact .inl isLive
    · rw [was] at isSlot
      cases isSlot
  plumbed slot q want is := by
    dsimp only at is
    rw [is] at calm
    cases calm
  bound slot is := by
    dsimp only at is
    rw [is] at calm
    cases calm

/-- A step of the interface that is on its way. -/
theorem SocketInv.move (inv : SocketInv st) {pc : AttachPc} (same : pc.slot = st.attachPc.slot)
    (plumbed : ∀ slot q want, pc = .prefill slot q want → ∃ q want,
      st.attachPc = .prefill slot q want)
    (bound : ∀ slot, pc ≠ .bind slot) : SocketInv { st with attachPc := pc } where
  fits := inv.fits
  counted := inv.counted
  opened := inv.opened
  inside := inv.inside
  owner i q socket := by
    dsimp only
    rw [same]
    exact inv.owner i q socket
  plumbed slot q want is := by
    obtain ⟨q', want', was⟩ := plumbed slot q want is
    exact inv.plumbed slot q' want' was
  bound slot is := absurd is (bound slot)

theorem SocketInv.fwdAllocWanSlot (inv : SocketInv st) {slot : ℕ}
    (isSlot : st.fwdAllocWanSlot = some slot) :
    slot < Wan.maxInterfaces ∧ st.live ⟨.dirWan, slot⟩ = false := by
  rw [UmemState.fwdAllocWanSlot] at isSlot
  split at isSlot
  next i found =>
    cases isSlot
    have inside := List.mem_range.mp (List.mem_of_find?_eq_some found)
    exact ⟨inside.trans_le (inv.fits .dirWan), by simpa using List.find?_some found⟩
  next =>
    obtain ⟨room, ⟨⟩⟩ := (Option.ite_none_right_eq_some ..).mp isSlot
    refine ⟨room, ?_⟩
    by_contra isLive
    exact absurd (inv.counted _ (Bool.not_eq_false _ ▸ isLive)) (lt_irrefl _)

/-- Before a WAN comes up its slot has no sockets. -/
theorem SocketInv.no_socket (inv : SocketInv st) (was : st.attachPc.slot = none) {i : NeIface}
    (notLive : st.live i = false) (q : ℕ) : st.xsk i q = false := by
  by_contra socket
  obtain isLive | ⟨slot, isSlot, -⟩ := inv.owner i q (Bool.not_eq_false _ ▸ socket)
  · rw [notLive] at isLive
    cases isLive
  · rw [was] at isSlot
    cases isSlot

theorem SocketInv.setQueueCount (inv : SocketInv st) (was : st.attachPc.slot = none)
    {i : NeIface} (notLive : st.live i = false) (nq : ℕ) :
    SocketInv { st with queueCount := Function.update st.queueCount i nq } where
  fits := inv.fits
  counted := inv.counted
  opened j q isLive := by
    have ne : j ≠ i := fun same => by
      rw [same, notLive] at isLive
      cases isLive
    dsimp only
    rw [Function.update_of_ne ne]
    exact inv.opened j q isLive
  inside j q socket := by
    have ne : j ≠ i := fun same => by
      have none := inv.no_socket was notLive q
      rw [← same, socket] at none
      cases none
    dsimp only
    rw [Function.update_of_ne ne]
    exact inv.inside j q socket
  owner := inv.owner
  plumbed slot q want is := by
    dsimp only at is
    rw [is] at was
    cases was
  bound := inv.bound

/-- The rings of new sockets were empty before. -/
theorem FrameInv.openIfaceQueues (inv : FrameInv st) {i : NeIface} (nq : ℕ)
    (noSocket : ∀ q, st.xsk i q = false) : FrameInv (st.openIfaceQueues i nq) := by
  have empty (l : FrameLoc) (unowned : st.owns l = false) : st.frames l = [] := by
    rw [List.eq_nil_iff_forall_not_mem]
    intro f here
    rw [inv.owned l f here] at unowned
    cases unowned
  have same : (st.openIfaceQueues i nq).frames = st.frames := by
    funext l
    cases l with
    | pool | batch _ | dataplane => rfl
    | fq j q | rx j q | tx j q | cq j q =>
      rw [UmemState.openIfaceQueues]
      dsimp only
      split
      next new => exact (empty _ (by rw [new.1]; exact noSocket q)).symm
      next => rfl
  refine ⟨same ▸ inv.parts, inv.pooled, fun l f here => ?_, fun j q f here => ?_⟩
  · rw [same] at here
    have owned := inv.owned l f here
    cases l with
    | pool | batch _ | dataplane => rfl
    | fq j q | rx j q | tx j q | cq j q =>
      have ne : j ≠ i := fun isI => by
        rw [isI] at owned
        exact absurd (owned.symm.trans (noSocket q)) nofun
      change Function.update st.xsk i _ j q = true
      rw [Function.update_of_ne ne]
      exact owned
  · rw [UmemState.openIfaceQueues] at here
    dsimp only at here
    by_cases isI : j = i
    · subst isI
      rw [Function.update_self] at here
      split at here
      · cases here
      · exact inv.named j q f here
    · rw [Function.update_of_ne isI] at here
      exact inv.named j q f here

theorem Inv.plumbWanDp (inv : Inv st) (was : st.attachPc.slot = none) (hw : ℤ)
    (res : PlumbResult) : Inv (st.plumbWanDp hw res) := by
  have given_up (st : UmemState) (inv : Inv st) (was : st.attachPc.slot = none) :
      Inv { st with attachPc := .rollback } :=
    ⟨inv.frames.congr rfl rfl rfl rfl, inv.sockets.goto was rfl st.wanAdded⟩
  unfold UmemState.plumbWanDp
  split
  next => exact given_up st inv was
  next => exact given_up st inv was
  next slot isSlot =>
    obtain ⟨-, notLive⟩ := inv.sockets.fwdAllocWanSlot isSlot
    exact ⟨inv.frames.congr rfl rfl rfl rfl, (inv.sockets.setQueueCount was notLive _).goto was rfl st.wanAdded⟩
  next slot isSlot =>
    obtain ⟨-, notLive⟩ := inv.sockets.fwdAllocWanSlot isSlot
    exact ⟨inv.frames.congr rfl rfl rfl rfl, (inv.sockets.setQueueCount was notLive _).goto was rfl st.wanAdded⟩
  next slot isSlot =>
    obtain ⟨fits, notLive⟩ := inv.sockets.fwdAllocWanSlot isSlot
    have noSocket := inv.sockets.no_socket was notLive
    have frames := inv.frames.openIfaceQueues (resolveIfaceQueueCount hw) noSocket
    have others (j : NeIface) (q : ℕ) (isLive : st.live j = true) : j ≠ ⟨.dirWan, slot⟩ :=
      fun same => by
        rw [same, notLive] at isLive
        cases isLive
    refine ⟨frames.congr rfl rfl rfl rfl, ?_⟩
    constructor
    · intro dir
      dsimp only
      by_cases isWan : dir = .dirWan
      · subst isWan
        rw [Function.update_self]
        exact max_le (inv.sockets.fits .dirWan) fits
      · rw [Function.update_of_ne isWan]
        exact inv.sockets.fits dir
    · intro j isLive
      have before := inv.sockets.counted j isLive
      dsimp only
      by_cases isWan : j.dir = .dirWan
      · rw [isWan, Function.update_self]
        rw [isWan] at before
        exact before.trans_le (le_max_left _ _)
      · rw [Function.update_of_ne isWan]
        exact before
    · intro j q isLive inside
      have ne := others j q isLive
      rw [UmemState.openIfaceQueues] at inside ⊢
      dsimp only at inside ⊢
      rw [Function.update_of_ne ne] at inside ⊢
      exact inv.sockets.opened j q isLive inside
    · intro j q socket
      rw [UmemState.openIfaceQueues] at socket ⊢
      dsimp only at socket ⊢
      by_cases isNew : j = ⟨.dirWan, slot⟩
      · subst isNew
        rw [Function.update_self, noSocket, Bool.or_false] at socket
        rw [Function.update_self]
        exact of_decide_eq_true socket
      · rw [Function.update_of_ne isNew] at socket ⊢
        exact inv.sockets.inside j q socket
    · intro j q socket
      by_cases isNew : j = ⟨.dirWan, slot⟩
      · exact .inr ⟨slot, rfl, isNew⟩
      · rw [UmemState.openIfaceQueues] at socket
        dsimp only at socket
        rw [Function.update_of_ne isNew] at socket
        obtain isLive | ⟨slot', isSlot', -⟩ := inv.sockets.owner j q socket
        · exact .inl isLive
        · rw [was] at isSlot'
          cases isSlot'
    · intro slot' q want is
      cases is
      refine ⟨?_, fun q inside => ?_⟩
      · dsimp only
        rw [Function.update_self]
        exact (Nat.lt_succ_self slot).trans_le (le_max_right _ _)
      · rw [UmemState.openIfaceQueues] at inside ⊢
        dsimp only at inside ⊢
        rw [Function.update_self] at inside ⊢
        rw [decide_eq_true inside, Bool.true_or]
    · intro slot' is
      cases is

/-- A socket of a live interface, or of the WAN on its way. -/
theorem SocketInv.unplumbWanDp (inv : SocketInv st) {slot : ℕ}
    (sole : ∀ slot', st.attachPc.slot = some slot' →
      slot' = slot ∧ st.live ⟨.dirWan, slot⟩ = true) : SocketInv (st.unplumbWanDp slot) := by
  have owner (j q) (socket : st.xsk j q = true) : st.live j = true := by
    obtain isLive | ⟨slot', isSlot', isI⟩ := inv.owner j q socket
    · exact isLive
    · obtain ⟨rfl, isLive⟩ := sole slot' isSlot'
      rw [isI]
      exact isLive
  rw [UmemState.unplumbWanDp]
  split
  all_goals
    refine ⟨inv.fits, inv.counted, inv.opened, inv.inside,
      fun j q socket => .inl (owner j q socket), ?_, ?_⟩
    · intro _ _ _ is
      cases is
    · intro _ is
      cases is

theorem FrameInv.unplumbWanDp (inv : FrameInv st) (slot : ℕ) : FrameInv (st.unplumbWanDp slot) := by
  rw [UmemState.unplumbWanDp]
  split
  all_goals exact inv.congr rfl rfl rfl rfl

/-- One more than the last number that is true of `p`. -/
theorem foldl_last {p : ℕ → Prop} [DecidablePred p] (n : ℕ) :
    (List.range n).foldl (fun n i => if p i then i + 1 else n) 0 ≤ n ∧
      ∀ i, i < n → p i → i < (List.range n).foldl (fun n i => if p i then i + 1 else n) 0 := by
  induction n with
  | zero => exact ⟨le_rfl, nofun⟩
  | succ n ih =>
    rw [List.range_succ, List.foldl_append, List.foldl_cons, List.foldl_nil]
    split
    next => exact ⟨le_rfl, fun i inside _ => inside⟩
    next isNot =>
      refine ⟨ih.1.trans (Nat.le_succ n), fun i inside is => ?_⟩
      rcases Nat.lt_succ_iff_lt_or_eq.mp inside with before | rfl
      · exact ih.2 i before is
      · exact absurd is isNot

theorem SocketInv.reconcileCounts (inv : SocketInv st) (was : st.attachPc.slot = none) :
    SocketInv st.reconcileCounts where
  fits dir :=
    (foldl_last (p := fun i => i < st.count dir ∧ st.live ⟨dir, i⟩ = true) Wan.maxInterfaces).1
  counted i isLive :=
    (foldl_last (p := fun j => j < st.count i.dir ∧ st.live ⟨i.dir, j⟩ = true)
      Wan.maxInterfaces).2 i.idx ((inv.counted i isLive).trans_le (inv.fits i.dir))
      ⟨inv.counted i isLive, isLive⟩
  opened := inv.opened
  inside := inv.inside
  owner := inv.owner
  plumbed slot q want is := by
    rw [show st.attachPc = _ from is] at was
    cases was
  bound := inv.bound

/-- The rings of a queue. -/
def rings (i : NeIface) (q : ℕ) : List FrameLoc := [.fq i q, .rx i q, .tx i q, .cq i q]

/-- The rings of an interface hold no frame. -/
def ringsEmpty (st : UmemState) (i : NeIface) : Prop :=
  ∀ q, q < st.queueCount i → ∀ l ∈ rings i q, st.frames l = []

section Delete

variable {i : NeIface}

/-- What `delete_iface_xsks` leaves of the sockets. -/
theorem deleteIfaceXsks_xsk (inside : ∀ q, st.xsk i q = true → q < st.queueCount i) {j : NeIface}
    {q : ℕ} : (st.deleteIfaceXsks i).xsk j q = true ↔ j ≠ i ∧ st.xsk j q = true := by
  rw [UmemState.deleteIfaceXsks]
  dsimp only
  by_cases same : j = i
  · subst same
    rw [Function.update_self, Bool.and_eq_true, decide_eq_true_iff]
    refine ⟨fun ⟨socket, beyond⟩ => absurd (inside q socket) (not_lt.mpr beyond), ?_⟩
    rintro ⟨ne, -⟩
    exact absurd rfl ne
  · rw [Function.update_of_ne same]
    exact ⟨fun socket => ⟨same, socket⟩, And.right⟩

/-- Empty rings are deleted without a loss. -/
theorem FrameInv.deleteIfaceXsks (inv : FrameInv st)
    (inside : ∀ q, st.xsk i q = true → q < st.queueCount i) (empty : st.ringsEmpty i) :
    FrameInv (st.deleteIfaceXsks i) := by
  have same : (st.deleteIfaceXsks i).frames = st.frames := by
    funext l
    cases l with
    | pool | batch _ | dataplane => rfl
    | fq j q | rx j q | tx j q | cq j q =>
      rw [UmemState.deleteIfaceXsks]
      dsimp only
      split
      next down =>
        obtain ⟨rfl, inside⟩ := down
        exact (empty q inside _ (by simp [rings])).symm
      next => rfl
  refine ⟨same ▸ inv.parts, inv.pooled, fun l f here => ?_, inv.named⟩
  rw [same] at here
  have owned := inv.owned l f here
  cases l with
  | pool | batch _ | dataplane => rfl
  | fq j q | rx j q | tx j q | cq j q =>
    refine (deleteIfaceXsks_xsk inside).mpr ⟨fun isI => ?_, owned⟩
    subst isI
    rw [empty q (inside q owned) _ (by simp [rings])] at here
    cases here

theorem FrameInv.clearIfaceQueuesAfterDelete (inv : FrameInv st) :
    FrameInv (st.clearIfaceQueuesAfterDelete i) := by
  refine ⟨inv.parts, inv.pooled, inv.owned, fun j q f here => ?_⟩
  rw [UmemState.clearIfaceQueuesAfterDelete] at here
  dsimp only at here
  by_cases isI : j = i
  · subst isI
    rw [Function.update_self] at here
    split at here
    · cases here
    · exact inv.named _ q f here
  · rw [Function.update_of_ne isI] at here
    exact inv.named j q f here

end Delete

theorem SocketInv.delete (inv : SocketInv st) {slot : ℕ} (was : st.attachPc = .delete slot) :
    SocketInv { (st.deleteIfaceXsks ⟨.dirWan, slot⟩).clearIfaceQueuesAfterDelete
      ⟨.dirWan, slot⟩ with attachPc := .rollback } := by
  have left {j : NeIface} {q : ℕ} :=
    deleteIfaceXsks_xsk (inv.inside ⟨.dirWan, slot⟩) (j := j) (q := q)
  constructor
  · exact inv.fits
  · exact inv.counted
  · intro j q isLive inside
    rw [UmemState.clearIfaceQueuesAfterDelete] at inside
    dsimp only at inside
    by_cases isI : j = ⟨.dirWan, slot⟩
    · rw [isI, Function.update_self] at inside
      cases inside
    · rw [Function.update_of_ne isI] at inside
      exact left.mpr ⟨isI, inv.opened j q isLive inside⟩
  · intro j q socket
    obtain ⟨ne, was⟩ := left.mp socket
    rw [UmemState.clearIfaceQueuesAfterDelete]
    dsimp only
    rw [Function.update_of_ne ne]
    exact inv.inside j q was
  · intro j q socket
    obtain ⟨ne, before⟩ := left.mp socket
    obtain isLive | ⟨slot', isSlot', isI⟩ := inv.owner j q before
    · exact .inl isLive
    · rw [was] at isSlot'
      cases isSlot'
      exact absurd isI ne
  · intro _ _ _ is
    cases is
  · intro _ is
    cases is

/-- A WAN is taken out of the live ones, and its sockets may go with it. -/
theorem SocketInv.detach (inv : SocketInv st) {slot : ℕ} (was : st.attachPc = .detach slot) :
    SocketInv (st.detachWanDp slot) := by
  have kept : (st.profileIfaceXdpDetachWan slot).queueCount = st.queueCount ∧
      (st.profileIfaceXdpDetachWan slot).count = st.count ∧ ∀ j q,
        ((st.profileIfaceXdpDetachWan slot).xsk j q = true → st.xsk j q = true) ∧
        (j ≠ ⟨.dirWan, slot⟩ → st.xsk j q = true →
          (st.profileIfaceXdpDetachWan slot).xsk j q = true) := by
    have left {j : NeIface} {q : ℕ} :=
      deleteIfaceXsks_xsk (inv.inside ⟨.dirWan, slot⟩) (j := j) (q := q)
    rw [UmemState.profileIfaceXdpDetachWan]
    split
    · exact ⟨rfl, rfl, fun j q => ⟨fun socket => (left.mp socket).2,
        fun ne socket => left.mpr ⟨ne, socket⟩⟩⟩
    · exact ⟨rfl, rfl, fun j q => ⟨id, fun _ => id⟩⟩
  obtain ⟨queueCount, count, sockets⟩ := kept
  have live_of {j : NeIface} (isLive : Function.update st.live ⟨.dirWan, slot⟩ false j = true) :
      j ≠ ⟨.dirWan, slot⟩ ∧ st.live j = true := by
    by_cases same : j = ⟨.dirWan, slot⟩
    · rw [same, Function.update_self] at isLive
      cases isLive
    · rw [Function.update_of_ne same] at isLive
      exact ⟨same, isLive⟩
  rw [UmemState.detachWanDp]
  constructor
  · dsimp only
    rw [count]
    exact inv.fits
  · intro j isLive
    dsimp only at isLive ⊢
    rw [count]
    exact inv.counted j (live_of isLive).2
  · intro j q isLive inside
    dsimp only at isLive inside ⊢
    rw [queueCount] at inside
    obtain ⟨ne, isLive⟩ := live_of isLive
    exact (sockets j q).2 ne (inv.opened j q isLive inside)
  · intro j q socket
    dsimp only at socket ⊢
    rw [queueCount]
    exact inv.inside j q ((sockets j q).1 socket)
  · intro j q socket
    dsimp only at socket ⊢
    by_cases isI : j = ⟨.dirWan, slot⟩
    · exact .inr ⟨slot, rfl, isI⟩
    · rw [Function.update_of_ne isI]
      obtain isLive | ⟨slot', isSlot', same⟩ := inv.owner j q ((sockets j q).1 socket)
      · exact .inl isLive
      · rw [was] at isSlot'
        cases isSlot'
        exact absurd same isI
  · intro _ _ _ is
    cases is
  · intro _ is
    cases is

/-- A WAN without a program keeps its sockets, one with a program must have empty rings. -/
theorem Inv.detach (inv : Inv st) {slot : ℕ} (was : st.attachPc = .detach slot)
    (empty : st.xdpWanOn slot = true → st.ringsEmpty ⟨.dirWan, slot⟩) :
    Inv (st.detachWanDp slot) := by
  refine ⟨?_, inv.sockets.detach was⟩
  have detached : FrameInv (st.profileIfaceXdpDetachWan slot) := by
    rw [UmemState.profileIfaceXdpDetachWan]
    split
    next on =>
      exact (inv.frames.deleteIfaceXsks (inv.sockets.inside _) (empty on)).congr rfl rfl rfl rfl
    next => exact inv.frames
  exact detached.congr rfl rfl rfl rfl

/-- The frames of an interface that is deleted with empty rings. -/
theorem Inv.delete (inv : Inv st) {slot : ℕ} (was : st.attachPc = .delete slot)
    (empty : st.ringsEmpty ⟨.dirWan, slot⟩) :
    Inv { (st.deleteIfaceXsks ⟨.dirWan, slot⟩).clearIfaceQueuesAfterDelete ⟨.dirWan, slot⟩ with
      attachPc := .rollback } :=
  ⟨((inv.frames.deleteIfaceXsks (inv.sockets.inside _) empty).clearIfaceQueuesAfterDelete
    (i := ⟨.dirWan, slot⟩)).congr rfl rfl rfl rfl, inv.sockets.delete was⟩

/-! ## Runs -/

/-- A WAN that goes down has no batch that is not released when its queues are reclaimed, and no
frame in its rings when its sockets are deleted: at the detach where it has an XDP program, and else
behind the reclaim. -/
def keepsFrames (st : UmemState) (a : UmemAct) : Prop :=
  match a, st.attachPc with
  | .attach .detach, .detach slot => st.xdpWanOn slot = true → st.ringsEmpty ⟨.dirWan, slot⟩
  | .attach .reclaim, .reclaim slot q =>
    q < st.queueCount ⟨.dirWan, slot⟩ → st.pending ⟨.dirWan, slot⟩ q = []
  | .attach .delete, .delete slot => st.ringsEmpty ⟨.dirWan, slot⟩
  | _, _ => True

theorem keepsFrames_of_ne {a : UmemAct} (other : a ≠ .attach .detach) (up : a ≠ .attach .reclaim)
    (up' : a ≠ .attach .delete) : st.keepsFrames a := by
  unfold keepsFrames
  split
  next => exact absurd rfl other
  next => exact absurd rfl up
  next => exact absurd rfl up'
  next => trivial

theorem stepAttach_prefill (enabled : st.stepAttach .prefill = some st') :
    ∃ slot q want, st.attachPc = .prefill slot q want ∧
      (st.queueCount ⟨.dirWan, slot⟩ ≤ q ∧
          st' = { st with
            live := Function.update st.live ⟨.dirWan, slot⟩ true, attachPc := .bind slot } ∨
        q < st.queueCount ⟨.dirWan, slot⟩ ∧ ∃ q' want',
          (want = 0 ∧ st' = { st with attachPc := .prefill slot q' want' } ∨
          want ≠ 0 ∧ st' = { (st.prefillRound ⟨.dirWan, slot⟩ q want).1 with
            attachPc := .prefill slot q' want' })) := by
  rw [stepAttach] at enabled
  split at enabled
  next slot q want was =>
    refine ⟨slot, q, want, was, ?_⟩
    dsimp only at enabled
    split at enabled
    next done =>
      cases enabled
      exact .inl ⟨done, rfl⟩
    next more =>
      refine .inr ⟨not_le.mp more, ?_⟩
      split at enabled
      next full =>
        cases enabled
        exact ⟨_, _, .inl ⟨full, rfl⟩⟩
      next wants =>
        cases enabled
        exact ⟨_, _, .inr ⟨wants, rfl⟩⟩
  next => cases enabled

theorem stepAttach_bind {res : BindResult} (enabled : st.stepAttach (.bind res) = some st') :
    ∃ slot on, st.attachPc = .bind slot ∧
      (st' = { st with attachPc := .rows, wanAdded := st.wanAdded ++ [slot], xdpWanOn := on } ∨
        st' = ({ st with xdpWanOn := on } : UmemState).unplumbWanDp slot) := by
  rw [stepAttach] at enabled
  split at enabled
  next slot was =>
    cases enabled
    refine ⟨slot, ?_⟩
    cases res with
    | bound => exact ⟨_, was, .inl rfl⟩
    | notAttached => exact ⟨st.xdpWanOn, was, .inr rfl⟩
    | notMapped => exact ⟨_, was, .inr rfl⟩
  next => cases enabled

theorem stepAttach_detach (enabled : st.stepAttach .detach = some st') :
    ∃ slot, st.attachPc = .detach slot ∧ st' = st.detachWanDp slot := by
  rw [stepAttach] at enabled
  split at enabled
  next slot was =>
    cases enabled
    exact ⟨slot, was, rfl⟩
  next => cases enabled

theorem stepAttach_reclaim (enabled : st.stepAttach .reclaim = some st') :
    ∃ slot q, st.attachPc = .reclaim slot q ∧
      (st.queueCount ⟨.dirWan, slot⟩ ≤ q ∧ st' = { st with attachPc := .delete slot } ∨
        q < st.queueCount ⟨.dirWan, slot⟩ ∧
          st' = { (st.drainCqQueue ⟨.dirWan, slot⟩ q).reclaimRxQueue ⟨.dirWan, slot⟩ q with
            attachPc := .reclaim slot (q + 1) }) := by
  rw [stepAttach] at enabled
  split at enabled
  next slot q was =>
    refine ⟨slot, q, was, ?_⟩
    dsimp only at enabled
    split at enabled
    next done =>
      cases enabled
      exact .inl ⟨done, rfl⟩
    next more =>
      cases enabled
      exact .inr ⟨not_le.mp more, rfl⟩
  next => cases enabled

theorem stepAttach_delete (enabled : st.stepAttach .delete = some st') :
    ∃ slot, st.attachPc = .delete slot ∧
      st' = { (st.deleteIfaceXsks ⟨.dirWan, slot⟩).clearIfaceQueuesAfterDelete ⟨.dirWan, slot⟩ with
        attachPc := .rollback } := by
  rw [stepAttach] at enabled
  split at enabled
  next slot was =>
    cases enabled
    exact ⟨slot, was, rfl⟩
  next => cases enabled

/-- The WAN that is filled comes up. -/
theorem SocketInv.comeUp (inv : SocketInv st) {slot q want : ℕ}
    (was : st.attachPc = .prefill slot q want) :
    SocketInv { st with
      live := Function.update st.live ⟨.dirWan, slot⟩ true, attachPc := .bind slot } := by
  obtain ⟨counted, opened⟩ := inv.plumbed slot q want was
  refine ⟨inv.fits, fun i isLive => ?_, fun i q isLive inside => ?_, inv.inside,
    fun i q socket => ?_, ?_, ?_⟩
  · dsimp only at isLive ⊢
    by_cases isI : i = ⟨.dirWan, slot⟩
    · subst isI
      exact counted
    · rw [Function.update_of_ne isI] at isLive
      exact inv.counted i isLive
  · by_cases isI : i = ⟨.dirWan, slot⟩
    · subst isI
      exact opened q inside
    · dsimp only at isLive
      rw [Function.update_of_ne isI] at isLive
      exact inv.opened i q isLive inside
  · by_cases isI : i = ⟨.dirWan, slot⟩
    · exact .inr ⟨slot, rfl, isI⟩
    · left
      dsimp only
      rw [Function.update_of_ne isI]
      obtain isLive | ⟨slot', isSlot', isI'⟩ := inv.owner i q socket
      · exact isLive
      · rw [was] at isSlot'
        cases isSlot'
        exact absurd isI' isI
  · intro _ _ _ is
    cases is
  · intro slot' is
    cases is
    exact Function.update_self ..

theorem SocketInv.setPrograms (inv : SocketInv st) (on : ℕ → Bool) :
    SocketInv { st with xdpWanOn := on } :=
  ⟨inv.fits, inv.counted, inv.opened, inv.inside, inv.owner, inv.plumbed, inv.bound⟩

/-- The WAN that is bound stays up. -/
theorem SocketInv.stayUp (inv : SocketInv st) {slot : ℕ} (was : st.attachPc = .bind slot)
    (added : List ℕ) (on : ℕ → Bool) :
    SocketInv { st with attachPc := .rows, wanAdded := added, xdpWanOn := on } := by
  refine ⟨inv.fits, inv.counted, inv.opened, inv.inside, fun i q socket => ?_, ?_, ?_⟩
  · obtain isLive | ⟨slot', isSlot', isI⟩ := inv.owner i q socket
    · exact .inl isLive
    · rw [was] at isSlot'
      cases isSlot'
      exact .inl (isI ▸ inv.bound slot was)
  · intro _ _ _ is
    cases is
  · intro _ is
    cases is

theorem Inv.reclaim (inv : Inv st) {slot q : ℕ} (was : st.attachPc = .reclaim slot q)
    (released : st.pending ⟨.dirWan, slot⟩ q = []) :
    Inv { (st.drainCqQueue ⟨.dirWan, slot⟩ q).reclaimRxQueue ⟨.dirWan, slot⟩ q with
      attachPc := .reclaim slot (q + 1) } := by
  have drained : Handles st (st.drainCqQueue ⟨.dirWan, slot⟩ q) := handles_drainCqQueue
  have handles := drained.trans (handles_reclaimRxQueue
    ((congrFun (congrFun drainCqQueue_pending _) q).trans released))
  have reclaimed := inv.handles handles
  have is : ((st.drainCqQueue ⟨.dirWan, slot⟩ q).reclaimRxQueue ⟨.dirWan, slot⟩ q).attachPc =
      .reclaim slot q := by
    rw [handles.attachPc, was]
  refine ⟨reclaimed.frames.congr rfl rfl rfl rfl,
    reclaimed.sockets.move (by rw [is]; rfl) ?_ nofun⟩
  intro _ _ _ goes
  cases goes

theorem Inv.stepAttach (inv : Inv st) {a : AttachAct} (admitted : st.keepsFrames (.attach a))
    (enabled : st.stepAttach a = some st') : Inv st' := by
  cases a with
  | rows =>
    rw [UmemState.stepAttach] at enabled
    obtain ⟨was, ⟨⟩⟩ := (Option.ite_none_right_eq_some ..).mp enabled
    exact ⟨inv.frames.congr rfl rfl rfl rfl, inv.sockets.goto (by rw [was]; rfl) rfl []⟩
  | plumb hw res =>
    rw [UmemState.stepAttach] at enabled
    obtain ⟨was, ⟨⟩⟩ := (Option.ite_none_right_eq_some ..).mp enabled
    exact inv.plumbWanDp (by rw [was]; rfl) hw res
  | prefill =>
    obtain ⟨slot, q, want, was, ⟨-, rfl⟩ | ⟨inside, q', want', ⟨-, rfl⟩ | ⟨-, rfl⟩⟩⟩ :=
      stepAttach_prefill enabled
    · exact ⟨inv.frames.congr rfl rfl rfl rfl, inv.sockets.comeUp was⟩
    · refine ⟨inv.frames.congr rfl rfl rfl rfl, inv.sockets.move (by rw [was]; rfl) ?_ nofun⟩
      intro _ _ _ is
      cases is
      exact ⟨q, want, was⟩
    · have handles := handles_prefillRound
        ((inv.sockets.plumbed slot q want was).2 q inside) want
      have round := inv.handles handles
      have is : (st.prefillRound ⟨.dirWan, slot⟩ q want).1.attachPc = .prefill slot q want := by
        rw [handles.attachPc, was]
      refine ⟨round.frames.congr rfl rfl rfl rfl, round.sockets.move (by rw [is]; rfl) ?_ nofun⟩
      intro _ _ _ goes
      cases goes
      exact ⟨q, want, is⟩
  | bind ok =>
    obtain ⟨slot, on, was, rfl | rfl⟩ := stepAttach_bind enabled
    · exact ⟨inv.frames.congr rfl rfl rfl rfl, inv.sockets.stayUp was _ on⟩
    · have frames : FrameInv { st with xdpWanOn := on } := inv.frames.congr rfl rfl rfl rfl
      refine ⟨frames.unplumbWanDp slot, (inv.sockets.setPrograms on).unplumbWanDp ?_⟩
      intro slot' isSlot'
      have isSlot' : st.attachPc.slot = some slot' := isSlot'
      rw [was] at isSlot'
      cases isSlot'
      exact ⟨rfl, inv.sockets.bound slot was⟩
  | attached =>
    rw [UmemState.stepAttach] at enabled
    obtain ⟨was, ⟨⟩⟩ := (Option.ite_none_right_eq_some ..).mp enabled
    exact ⟨inv.frames.congr rfl rfl rfl rfl,
      inv.sockets.goto (by rw [was]; rfl) rfl st.wanAdded⟩
  | rollback =>
    rw [UmemState.stepAttach] at enabled
    obtain ⟨was, enabled⟩ := (Option.ite_none_right_eq_some ..).mp enabled
    have calm : st.attachPc.slot = none := by rw [was]; rfl
    split at enabled
    next slot _ =>
      cases enabled
      have next : Inv { st with wanAdded := st.wanAdded.dropLast } :=
        ⟨inv.frames.congr rfl rfl rfl rfl, inv.sockets.goto calm calm _⟩
      refine ⟨next.frames.unplumbWanDp slot, next.sockets.unplumbWanDp fun slot' isSlot' => ?_⟩
      rw [show st.attachPc.slot = some slot' from isSlot'] at calm
      cases calm
    next =>
      cases enabled
      have counts := inv.sockets.reconcileCounts calm
      exact ⟨inv.frames.congr rfl rfl rfl rfl, counts.goto calm rfl _⟩
  | detach =>
    obtain ⟨slot, was, rfl⟩ := stepAttach_detach enabled
    simp only [keepsFrames, was] at admitted
    exact inv.detach was admitted
  | reclaim =>
    obtain ⟨slot, q, was, ⟨-, rfl⟩ | ⟨inside, rfl⟩⟩ := stepAttach_reclaim enabled
    · refine ⟨inv.frames.congr rfl rfl rfl rfl, inv.sockets.move (by rw [was]; rfl) ?_ nofun⟩
      intro _ _ _ is
      cases is
    · simp only [keepsFrames, was] at admitted
      exact inv.reclaim was (admitted inside)
  | delete =>
    obtain ⟨slot, was, rfl⟩ := stepAttach_delete enabled
    simp only [keepsFrames, was] at admitted
    exact inv.delete was admitted

theorem Inv.step (inv : Inv st) {a : UmemAct} (admitted : st.keepsFrames a)
    (enabled : st.step a = some st') : Inv st' := by
  by_cases attaches : ∃ b, a = .attach b
  · obtain ⟨b, rfl⟩ := attaches
    exact inv.stepAttach admitted enabled
  · exact inv.handles (inv.step_of_not_attach (fun b is => attaches ⟨b, is⟩) enabled)

end UmemState

end NeEncryptor.Umem
