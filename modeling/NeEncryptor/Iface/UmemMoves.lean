import NeEncryptor.Iface.UmemFrames

/-!
# Moving frames

What the threads do to frames hands them from one location to another, and leaves the sockets as
they are.  The pool has room for every frame that is elsewhere, so no push to it is cut short.
-/

namespace NeEncryptor.Umem.UmemState

variable {st st' st'' : UmemState}

/-- Each frame is at one location, which the process or a socket has, and none was refused. -/
structure FrameInv (st : UmemState) : Prop where
  parts : Places.Partition (Finset.range neNFrames) st.frames
  pooled : st.refused = 0
  owned : ∀ l f, f ∈ st.frames l → st.owns l = true
  named : ∀ i q f, f ∈ st.pending i q → f < neNFrames

/-- The frames are handed around between the same sockets. -/
structure Handles (st st' : UmemState) : Prop where
  xsk : st'.xsk = st.xsk
  queueCount : st'.queueCount = st.queueCount
  live : st'.live = st.live
  xdpWanOn : st'.xdpWanOn = st.xdpWanOn
  count : st'.count = st.count
  attachPc : st'.attachPc = st.attachPc
  keeps : FrameInv st → FrameInv st'

namespace Handles

theorem refl (st : UmemState) : Handles st st := ⟨rfl, rfl, rfl, rfl, rfl, rfl, id⟩

theorem trans (first : Handles st st') (second : Handles st' st'') : Handles st st'' where
  xsk := second.xsk.trans first.xsk
  queueCount := second.queueCount.trans first.queueCount
  live := second.live.trans first.live
  xdpWanOn := second.xdpWanOn.trans first.xdpWanOn
  count := second.count.trans first.count
  attachPc := second.attachPc.trans first.attachPc
  keeps inv := second.keeps (first.keeps inv)

/-- A sweep whose rounds only hand frames around. -/
theorem foldl {β : Type*} {op : UmemState → β → UmemState} (bs : List β)
    (each : ∀ st', Handles st st' → ∀ b ∈ bs, Handles st' (op st' b)) :
    Handles st (bs.foldl op st) :=
  List.foldlRecOn bs op (refl st) fun st' done b inside => done.trans (each st' done b inside)

end Handles

namespace FrameInv

theorem lt_of_mem (inv : FrameInv st) {l : FrameLoc} {f : ℕ} (here : f ∈ st.frames l) :
    f < neNFrames :=
  Finset.mem_range.mp ((inv.parts.mem_iff f).mpr ⟨l, here⟩)

/-- The other fields do not matter. -/
theorem congr (inv : FrameInv st) (frames : st'.frames = st.frames)
    (pending : st'.pending = st.pending) (xsk : st'.xsk = st.xsk)
    (refused : st'.refused = st.refused) : FrameInv st' := by
  refine ⟨frames ▸ inv.parts, refused ▸ inv.pooled, fun l f here => ?_, ?_⟩
  · rw [frames] at here
    have owned := inv.owned l f here
    cases l with
    | pool | batch _ | dataplane => rfl
    | fq j q | rx j q | tx j q | cq j q => exact (congrFun (congrFun xsk j) q).trans owned
  · rw [pending]
    exact inv.named

/-- The pool has room for what is elsewhere. -/
theorem length_le_poolRoom (inv : FrameInv st) {l : FrameLoc} (ne : l ≠ .pool) :
    (st.frames l).length ≤ st.poolRoom := by
  have total := inv.parts.length_add_le ne
  rw [Finset.card_range] at total
  rw [poolRoom]
  omega

end FrameInv

/-! ## Moves between two locations -/

section Moves

variable {src dst : FrameLoc}

theorem handles_shift (ne : src ≠ dst) (owned : st.owns dst = true) (n : ℕ) :
    Handles st { st with frames := Places.shift st.frames src dst n } := by
  refine ⟨rfl, rfl, rfl, rfl, rfl, rfl, fun inv =>
    ⟨(Places.partition_shift_iff ne n).mpr inv.parts, inv.pooled, ?_, inv.named⟩⟩
  intro l f here
  change st.owns l = true
  by_cases isDst : l = dst
  · rw [isDst, owned]
  · change f ∈ Places.shift st.frames src dst n l at here
    rw [Places.shift, Function.update_of_ne isDst] at here
    by_cases isSrc : l = src
    · subst isSrc
      rw [Function.update_self] at here
      exact inv.owned l f (List.mem_of_mem_drop here)
    · rw [Function.update_of_ne isSrc] at here
      exact inv.owned l f here

theorem handles_pick (ne : src ≠ dst) (owned : st.owns dst = true) {fs : List ℕ}
    (here : fs.Subperm (st.frames src)) :
    Handles st { st with frames := Places.pick st.frames src dst fs } := by
  refine ⟨rfl, rfl, rfl, rfl, rfl, rfl,
    fun inv => ⟨inv.parts.pick ne here, inv.pooled, ?_, inv.named⟩⟩
  intro l f there
  change st.owns l = true
  by_cases isDst : l = dst
  · rw [isDst, owned]
  · change f ∈ Places.pick st.frames src dst fs l at there
    rw [Places.pick, Function.update_of_ne isDst] at there
    by_cases isSrc : l = src
    · subst isSrc
      rw [Function.update_self] at there
      exact inv.owned l f (List.diff_subset _ _ there)
    · rw [Function.update_of_ne isSrc] at there
      exact inv.owned l f there

/-- A push that the pool has room for. -/
theorem poolPush_eq {fs : List ℕ} (room : fs.length ≤ st.poolRoom) :
    st.poolPush fs =
      { st with frames := Function.update st.frames .pool (st.frames .pool ++ fs) } := by
  rw [poolPush, Nat.min_eq_left room, List.take_length, Nat.sub_self, Nat.add_zero]

/-- Frames that leave a location for a pool with room arrive there. -/
theorem poolPush_update (ne : src ≠ .pool) {rest fs : List ℕ} (room : fs.length ≤ st.poolRoom) :
    { st with frames := Function.update st.frames src rest }.poolPush fs =
      { st with
        frames := Function.update (Function.update st.frames src rest) .pool
          (st.frames .pool ++ fs) } := by
  have same : Function.update st.frames src rest .pool = st.frames .pool :=
    Function.update_of_ne ne.symm _ _
  rw [poolPush_eq]
  · dsimp only
    rw [same]
  · rw [poolRoom] at room ⊢
    dsimp only
    rw [same]
    exact room

theorem giveBack_eq (ne : src ≠ .pool) {n : ℕ}
    (room : ((st.frames src).take n).length ≤ st.poolRoom) :
    st.giveBack src n = { st with frames := Places.shift st.frames src .pool n } :=
  poolPush_update ne room

theorem FrameInv.giveBack_eq (inv : FrameInv st) (ne : src ≠ .pool) (n : ℕ) :
    st.giveBack src n = { st with frames := Places.shift st.frames src .pool n } :=
  UmemState.giveBack_eq ne ((List.length_take_le' n _).trans (inv.length_le_poolRoom ne))

/-- Without a refusal the pool had room. -/
theorem giveBack_room (ne : src ≠ .pool) {n : ℕ} (pooled : (st.giveBack src n).refused = 0) :
    st.refused = 0 ∧ ((st.frames src).take n).length ≤ st.poolRoom := by
  rw [giveBack, poolPush, poolRoom] at pooled
  dsimp only at pooled
  rw [Function.update_of_ne ne.symm, ← poolRoom] at pooled
  omega

theorem handles_giveBack (ne : src ≠ .pool) (n : ℕ) : Handles st (st.giveBack src n) where
  xsk := rfl
  queueCount := rfl
  live := rfl
  xdpWanOn := rfl
  count := rfl
  attachPc := rfl
  keeps inv := by
    rw [inv.giveBack_eq ne]
    exact (handles_shift ne rfl n).keeps inv

end Moves

/-! ## The operations on a queue -/

section Queues

variable {i : NeIface} {q : ℕ}

/-- Frames that come out of the pool and go back in. -/
theorem handles_popPush (n : ℕ) :
    Handles st ({ st with
      frames := Function.update st.frames .pool ((st.frames .pool).drop n) }.poolPush
        ((st.frames .pool).take n)) := by
  refine ⟨rfl, rfl, rfl, rfl, rfl, rfl, fun inv => ?_⟩
  have full : (st.frames .pool).length ≤ neNFrames := by
    have total := inv.parts.length_add_le (p := .pool) (q := .dataplane) nofun
    rw [Finset.card_range] at total
    omega
  rw [poolPush_eq]
  · dsimp only
    rw [Function.update_idem, Function.update_self]
    refine ⟨?_, inv.pooled, ?_, inv.named⟩
    · refine inv.parts.exchange (p := .pool) (q := .dataplane) nofun ?_ fun l off _ => ?_
      · have ne : FrameLoc.dataplane ≠ .pool := nofun
        dsimp only
        rw [Function.update_self, Function.update_of_ne ne]
        refine List.Perm.append_right _ ?_
        exact List.perm_append_comm.trans (.of_eq (List.take_append_drop n _))
      · exact Function.update_of_ne off _ _
    · intro l f here
      change st.owns l = true
      by_cases isPool : l = .pool
      · rw [isPool]
        rfl
      · dsimp only at here
        rw [Function.update_of_ne isPool] at here
        exact inv.owned l f here
  · rw [poolRoom]
    dsimp only
    rw [Function.update_self, List.length_take, List.length_drop]
    omega

theorem handles_submitFq (socket : st.xsk i q = true) (got : ℕ) :
    Handles st (st.submitFq i q got) := by
  rw [submitFq]
  split
  · have ne : FrameLoc.pool ≠ .fq i q := nofun
    exact handles_shift ne socket got
  · exact handles_popPush got

theorem handles_refillFqQueue (socket : st.xsk i q = true) :
    Handles st (st.refillFqQueue i q) := by
  rw [refillFqQueue]
  split
  · exact .refl st
  · exact handles_submitFq socket _

theorem handles_prefillRound (socket : st.xsk i q = true) (want : ℕ) :
    Handles st (st.prefillRound i q want).1 := by
  rw [prefillRound]
  split
  · exact .refl st
  · exact handles_submitFq socket _

theorem handles_prefillQueue (rounds want : ℕ) (socket : st.xsk i q = true) :
    Handles st (prefillQueue i q rounds want st) := by
  induction rounds generalizing st want with
  | zero => exact .refl st
  | succ rounds ih =>
    rw [prefillQueue]
    split
    · exact .refl st
    · have round := handles_prefillRound socket want
      exact round.trans (ih _ (by rw [round.xsk, socket]))

theorem drainCqRound_eq (inv : FrameInv st) {n : ℕ} :
    st.drainCqRound i q n =
      { st with frames := Places.shift st.frames (.cq i q) .pool n } := by
  have room := inv.length_le_poolRoom (l := .cq i q) nofun
  have few := List.length_take_le' n (st.frames (.cq i q))
  rw [drainCqRound, poolPush_eq (few.trans room)]
  dsimp only
  have dropped : (st.frames (.cq i q)).drop (min n st.poolRoom) =
      (st.frames (.cq i q)).drop n := by
    rcases Nat.le_total n st.poolRoom with le | le
    · rw [Nat.min_eq_left le]
    · rw [Nat.min_eq_right le, List.drop_eq_nil_of_le room,
        List.drop_eq_nil_of_le (room.trans le)]
  have ne : FrameLoc.pool ≠ .cq i q := nofun
  rw [dropped, Function.update_comm ne]
  rfl

theorem handles_drainCqRound (n : ℕ) : Handles st (st.drainCqRound i q n) where
  xsk := rfl
  queueCount := rfl
  live := rfl
  xdpWanOn := rfl
  count := rfl
  attachPc := rfl
  keeps inv := by
    rw [drainCqRound_eq inv]
    have ne : FrameLoc.cq i q ≠ .pool := nofun
    exact (handles_shift ne rfl n).keeps inv

theorem handles_drainCqLoop (rounds : ℕ) : Handles st (drainCqLoop i q rounds st) := by
  induction rounds generalizing st with
  | zero => exact .refl st
  | succ rounds ih =>
    rw [drainCqLoop]
    split
    · exact .refl st
    split
    · exact handles_drainCqRound _
    · exact (handles_drainCqRound _).trans ih

theorem handles_drainCqQueue : Handles st (st.drainCqQueue i q) := handles_drainCqLoop _

theorem drainCqLoop_pending (rounds : ℕ) :
    (drainCqLoop i q rounds st).pending = st.pending := by
  induction rounds generalizing st with
  | zero => rfl
  | succ rounds ih =>
    rw [drainCqLoop]
    split
    · rfl
    split
    · rfl
    · exact ih

theorem drainCqQueue_pending : (st.drainCqQueue i q).pending = st.pending :=
  drainCqLoop_pending _

theorem handles_reclaimUnread (rounds : ℕ) : Handles st (reclaimUnread i q rounds st) := by
  have ne : FrameLoc.rx i q ≠ .pool := nofun
  induction rounds generalizing st with
  | zero => exact .refl st
  | succ rounds ih =>
    rw [reclaimUnread]
    split
    · exact .refl st
    split
    · exact handles_giveBack ne _
    · exact (handles_giveBack ne _).trans ih

theorem handles_clearPending : Handles st (st.clearPending i q) := by
  refine ⟨rfl, rfl, rfl, rfl, rfl, rfl, fun inv => ⟨inv.parts, inv.pooled, inv.owned, ?_⟩⟩
  intro j q' f here
  rw [clearPending] at here
  dsimp only at here
  by_cases isI : j = i
  · subst isI
    rw [Function.update_self] at here
    by_cases isQ : q' = q
    · subst isQ
      rw [Function.update_self] at here
      cases here
    · rw [Function.update_of_ne isQ] at here
      exact inv.named j q' f here
  · rw [Function.update_of_ne isI] at here
    exact inv.named j q' f here

/-- Nothing is read and not released. -/
theorem handles_reclaimRxQueue (released : st.pending i q = []) :
    Handles st (st.reclaimRxQueue i q) := by
  rw [reclaimRxQueue, released]
  exact handles_clearPending.trans (handles_reclaimUnread _)

theorem handles_recvQueue (t : RxThread) : Handles st (st.recvQueue t i q) := by
  rw [recvQueue]
  dsimp only
  split
  · refine ⟨rfl, rfl, rfl, rfl, rfl, rfl, fun inv => ?_⟩
    have ne : FrameLoc.rx i q ≠ .batch t := nofun
    have shifted := (handles_shift ne rfl
      (min (neBatchSize - (st.frames (.batch t)).length) (st.frames (.rx i q)).length)).keeps inv
    refine ⟨shifted.parts, shifted.pooled, shifted.owned, fun j q' f here => ?_⟩
    by_cases isI : j = i
    · subst isI
      dsimp only at here
      rw [Function.update_self] at here
      by_cases isQ : q' = q
      · subst isQ
        rw [Function.update_self] at here
        exact inv.lt_of_mem (List.mem_of_mem_take here)
      · rw [Function.update_of_ne isQ] at here
        exact inv.named j q' f here
    · dsimp only at here
      rw [Function.update_of_ne isI] at here
      exact inv.named j q' f here
  · exact .refl st

end Queues

end NeEncryptor.Umem.UmemState
