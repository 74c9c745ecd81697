import NeEncryptor.Iface.UmemAttach

/-!
# Frames over runs

A WAN that is brought down takes along the frames in its fill and TX rings, and gives back those a
receive thread still has.  Apart from that each frame stays at one location in every run.
-/

namespace NeEncryptor.Umem

open Transition

namespace UmemState

variable {st st' : UmemState}

theorem frameInv_opened (locals wans : List ℤ) : FrameInv (opened locals wans) := by
  refine ⟨⟨fun l => ?_, fun l l' f here there => ?_, fun f => ?_⟩, rfl, fun l f here => ?_,
    fun _ _ _ here => by cases here⟩
  · rw [opened]
    dsimp only
    split
    · exact List.nodup_range
    · exact List.nodup_nil
  · have isPool {l : FrameLoc} (here : f ∈ (opened locals wans).frames l) : l = .pool := by
      by_contra off
      rw [opened] at here
      dsimp only at here
      rw [if_neg off] at here
      cases here
    rw [isPool here, isPool there]
  · rw [Finset.mem_range]
    constructor
    · intro inside
      refine ⟨.pool, ?_⟩
      rw [opened]
      dsimp only
      rw [if_pos rfl, List.mem_range]
      exact inside
    · rintro ⟨l, here⟩
      rw [opened] at here
      dsimp only at here
      split at here
      · exact List.mem_range.mp here
      · cases here
  · rw [opened] at here
    dsimp only at here
    split at here
    next isPool => rw [isPool]; rfl
    next => cases here

theorem handles_nePairOpen_prefill (locals wans : List ℤ) (is : List NeIface) :
    Handles (opened locals wans)
      (is.foldl (fun st i => st.prefillIface i neFqPrefill) (opened locals wans)) :=
  Handles.foldl _ fun st' done i _ => Handles.foldl _ fun st'' done' q inside =>
    handles_prefillQueue _ _ (by
      rw [done'.xsk, done.xsk]
      rw [done.queueCount] at inside
      exact decide_eq_true (List.mem_range.mp inside))

theorem inv_nePairOpen (locals wans : List ℤ) : Inv (nePairOpen locals wans) := by
  have handles := handles_nePairOpen_prefill locals wans
    ((opened locals wans).ifaces .dirLocal ++ (opened locals wans).ifaces .dirWan)
  have inside (i : NeIface) (q : ℕ) (socket : (nePairOpen locals wans).xsk i q = true) :
      q < openQueueCount locals wans i := by
    rw [show (nePairOpen locals wans).xsk = _ from handles.xsk] at socket
    exact of_decide_eq_true socket
  refine ⟨(handles.keeps (frameInv_opened locals wans)).congr rfl rfl rfl rfl, ?_⟩
  constructor
  · intro dir
    rw [show (nePairOpen locals wans).count = _ from handles.count]
    cases dir
    all_goals exact List.length_take_le _ _
  · intro i isLive
    exact of_decide_eq_true isLive
  · intro i q _ here
    rw [show (nePairOpen locals wans).xsk = _ from handles.xsk]
    rw [show (nePairOpen locals wans).queueCount = _ from handles.queueCount] at here
    exact decide_eq_true here
  · intro i q socket
    rw [show (nePairOpen locals wans).queueCount = _ from handles.queueCount]
    exact inside i q socket
  · intro i q socket
    left
    have some_queue := inside i q socket
    change decide (i.idx < _) = true
    rw [handles.count, decide_eq_true_iff]
    by_contra beyond
    rw [openQueueCount, List.getElem?_eq_none (not_lt.mp beyond)] at some_queue
    cases some_queue
  · intro slot q want is
    rw [show (nePairOpen locals wans).attachPc = _ from handles.attachPc] at is
    cases is
  · intro slot is
    rw [show (nePairOpen locals wans).attachPc = _ from handles.attachPc] at is
    cases is

/-- Each frame is at one location, once, which the process or a socket has; the pool has refused
none, and all are usable. -/
structure FramesOwned (st : UmemState) : Prop where
  located : ∀ f, f < neNFrames → ∃! l, f ∈ st.frames l
  once : ∀ l, (st.frames l).Nodup
  owned : ∀ l f, f ∈ st.frames l → f < neNFrames ∧ st.owns l = true
  pooled : st.refused = 0
  usable : {f | ∃ l, st.owns l = true ∧ f ∈ st.frames l}.ncard = neNFrames

theorem FrameInv.framesOwned (inv : FrameInv st) : FramesOwned st where
  located f inside := inv.parts.existsUnique (Finset.mem_range.mpr inside)
  once := inv.parts.nodup
  owned l f here := ⟨inv.lt_of_mem here, inv.owned l f here⟩
  pooled := inv.pooled
  usable := by
    have all : {f | ∃ l, st.owns l = true ∧ f ∈ st.frames l} = ↑(Finset.range neNFrames) := by
      ext f
      rw [Set.mem_ofPred_eq, Finset.mem_coe, inv.parts.mem_iff f]
      exact ⟨fun ⟨l, _, here⟩ => ⟨l, here⟩, fun ⟨l, here⟩ => ⟨l, inv.owned l f here, here⟩⟩
    rw [all, Set.ncard_coe_finset, Finset.card_range]

theorem FramesOwned.parts (owned : FramesOwned st) :
    Places.Partition (Finset.range neNFrames) st.frames where
  nodup := owned.once
  apart l l' f here there := (owned.located f (owned.owned l f here).1).unique here there
  mem_iff f := by
    rw [Finset.mem_range]
    exact ⟨fun inside => (owned.located f inside).exists, fun ⟨l, here⟩ => (owned.owned l f here).1⟩

/-! ## Where frames are lost or doubled -/

/-- A push of frames that are elsewhere doubles them. -/
theorem FrameInv.not_partition_push (inv : FrameInv st) {f : ℕ} {fs : List ℕ} (isOne : f ∈ fs)
    (inside : f < neNFrames) :
    ¬ Places.Partition (Finset.range neNFrames)
      (Function.update st.frames .pool (st.frames .pool ++ fs)) := by
  intro parts
  obtain ⟨l, here⟩ := (inv.parts.mem_iff f).mp (Finset.mem_range.mpr inside)
  have pushed : f ∈ Function.update st.frames .pool (st.frames .pool ++ fs) .pool := by
    rw [Function.update_self]
    exact List.mem_append_right _ isOne
  by_cases isPool : l = .pool
  · subst isPool
    have nodup := parts.nodup .pool
    rw [Function.update_self] at nodup
    exact (List.nodup_append.mp nodup).2.2 f here f isOne rfl
  · refine isPool (parts.apart l .pool f ?_ pushed)
    rw [Function.update_of_ne isPool]
    exact here

/-- What the pool takes without a refusal, it takes whole. -/
theorem reclaimPending_frames {rounds : ℕ} {fs : List ℕ} (enough : fs.length ≤ rounds)
    (pooled : (reclaimPending rounds fs st).refused = 0) :
    st.refused = 0 ∧ (reclaimPending rounds fs st).frames =
      Function.update st.frames .pool (st.frames .pool ++ fs) := by
  induction rounds generalizing st fs with
  | zero =>
    rw [List.length_eq_zero_iff.mp (Nat.le_zero.mp enough)] at pooled ⊢
    refine ⟨pooled, ?_⟩
    rw [List.append_nil, Function.update_eq_self]
    rfl
  | succ rounds ih =>
    rw [reclaimPending] at pooled ⊢
    split at pooled
    next isNil =>
      refine ⟨pooled, ?_⟩
      rw [if_pos isNil, isNil, List.append_nil, Function.update_eq_self]
    next isSome =>
      have some_left : 0 < fs.length := List.length_pos_iff.mpr isSome
      have fewer : (fs.drop neBatchSize).length ≤ rounds := by
        rw [List.length_drop, neBatchSize]
        omega
      obtain ⟨kept, frames⟩ := ih fewer pooled
      rw [poolPush] at kept
      dsimp only at kept
      have room : (fs.take neBatchSize).length ≤ st.poolRoom := by omega
      refine ⟨by omega, ?_⟩
      rw [if_neg isSome, frames, poolPush_eq room]
      dsimp only
      rw [Function.update_idem, Function.update_self, List.append_assoc, List.take_append_drop]

/-- The frames that are not read come back as they were accounted for. -/
theorem partition_of_reclaimUnread {i : NeIface} {q : ℕ} (rounds : ℕ)
    (parts : Places.Partition (Finset.range neNFrames) (reclaimUnread i q rounds st).frames)
    (pooled : (reclaimUnread i q rounds st).refused = 0) :
    Places.Partition (Finset.range neNFrames) st.frames ∧ st.refused = 0 := by
  have ne : FrameLoc.rx i q ≠ .pool := nofun
  have back {st : UmemState} (n : ℕ)
      (parts : Places.Partition (Finset.range neNFrames) (st.giveBack (.rx i q) n).frames)
      (pooled : (st.giveBack (.rx i q) n).refused = 0) :
      Places.Partition (Finset.range neNFrames) st.frames ∧ st.refused = 0 := by
    obtain ⟨kept, room⟩ := giveBack_room ne pooled
    rw [giveBack_eq ne room] at parts
    exact ⟨(Places.partition_shift_iff ne n).mp parts, kept⟩
  induction rounds generalizing st with
  | zero => exact ⟨parts, pooled⟩
  | succ rounds ih =>
    rw [reclaimUnread] at parts pooled
    split at parts
    next isNil =>
      rw [if_pos isNil] at pooled
      exact ⟨parts, pooled⟩
    next isSome =>
      rw [if_neg isSome] at pooled
      split at parts
      next few =>
        rw [if_pos few] at pooled
        exact back _ parts pooled
      next many =>
        rw [if_neg many] at pooled
        obtain ⟨before, kept⟩ := ih parts pooled
        exact back _ before kept

/-- A batch that is not released would have its frames in the pool and where they are. -/
theorem Inv.not_framesOwned_reclaim (inv : Inv st) {slot q : ℕ}
    (unreleased : st.pending ⟨.dirWan, slot⟩ q ≠ []) :
    ¬ FramesOwned { (st.drainCqQueue ⟨.dirWan, slot⟩ q).reclaimRxQueue ⟨.dirWan, slot⟩ q with
      attachPc := .reclaim slot (q + 1) } := by
  intro owned
  generalize is : st.drainCqQueue ⟨.dirWan, slot⟩ q = drained at owned
  have frames : FrameInv drained :=
    is ▸ handles_drainCqQueue.keeps inv.frames
  have pending : drained.pending ⟨.dirWan, slot⟩ q = st.pending ⟨.dirWan, slot⟩ q := by
    rw [← is, drainCqQueue_pending]
  obtain ⟨f, isOne⟩ := List.exists_mem_of_ne_nil _ unreleased
  rw [reclaimRxQueue] at owned
  obtain ⟨parts, pooled⟩ := partition_of_reclaimUnread _ owned.parts owned.pooled
  have pushed := (reclaimPending_frames le_rfl pooled).2
  rw [clearPending] at parts
  dsimp only at parts
  rw [pushed, pending] at parts
  exact frames.not_partition_push isOne (inv.frames.named _ _ f isOne) parts

/-- The frames in the rings of an interface whose sockets are deleted are lost. -/
theorem FrameInv.not_framesOwned_deleteIfaceXsks (inv : FrameInv st) {i : NeIface}
    (some_left : ¬ st.ringsEmpty i) (frames : st'.frames = (st.deleteIfaceXsks i).frames) :
    ¬ FramesOwned st' := by
  intro owned
  rw [ringsEmpty] at some_left
  push Not at some_left
  obtain ⟨q, inside, l, isRing, notEmpty⟩ := some_left
  obtain ⟨f, here⟩ := List.exists_mem_of_ne_nil _ notEmpty
  have gone : (st.deleteIfaceXsks i).frames l = [] := by
    simp only [rings, List.mem_cons, List.not_mem_nil, or_false] at isRing
    obtain rfl | rfl | rfl | rfl := isRing
    all_goals exact if_pos ⟨rfl, inside⟩
  have fewer (l' : FrameLoc) (there : f ∈ (st.deleteIfaceXsks i).frames l') : f ∈ st.frames l' := by
    cases l' with
    | pool | batch _ | dataplane => exact there
    | fq j q | rx j q | tx j q | cq j q =>
      rw [UmemState.deleteIfaceXsks] at there
      dsimp only at there
      split at there
      · cases there
      · exact there
  obtain ⟨l', there, -⟩ := owned.located f (inv.lt_of_mem here)
  rw [frames] at there
  have same := inv.parts.apart l l' f here (fewer l' there)
  rw [← same, gone] at there
  cases there

theorem FrameInv.not_framesOwned_delete (inv : FrameInv st) {slot : ℕ}
    (some_left : ¬ st.ringsEmpty ⟨.dirWan, slot⟩) :
    ¬ FramesOwned { (st.deleteIfaceXsks ⟨.dirWan, slot⟩).clearIfaceQueuesAfterDelete
      ⟨.dirWan, slot⟩ with attachPc := .rollback } :=
  inv.not_framesOwned_deleteIfaceXsks some_left rfl

theorem FrameInv.not_framesOwned_detach (inv : FrameInv st) {slot : ℕ}
    (on : st.xdpWanOn slot = true) (some_left : ¬ st.ringsEmpty ⟨.dirWan, slot⟩) :
    ¬ FramesOwned (st.detachWanDp slot) := by
  refine inv.not_framesOwned_deleteIfaceXsks some_left ?_
  rw [detachWanDp, profileIfaceXdpDetachWan, if_pos on]

/-! ## An attach that fails -/

section FailedAttach

variable {l : FrameLoc} {fs : List ℕ} {i : NeIface} {q : ℕ}

theorem poolPush_frames_of_ne (off : l ≠ .pool) (fs : List ℕ) :
    (st.poolPush fs).frames l = st.frames l :=
  Function.update_of_ne off _ _

theorem prefillRound_kept (off : l ≠ .pool) (want : ℕ) :
    st.frames l <+: (st.prefillRound i q want).1.frames l := by
  rw [prefillRound]
  split
  · exact List.prefix_rfl
  rw [submitFq]
  split
  · dsimp only
    rw [Places.shift]
    by_cases isFq : l = .fq i q
    · rw [isFq, Function.update_self]
      exact List.prefix_append _ _
    · rw [Function.update_of_ne isFq, Function.update_of_ne off]
  · rw [poolPush_frames_of_ne off]
    dsimp only
    rw [Function.update_of_ne off]

theorem prefillRound_same (st : UmemState) (i : NeIface) (q want : ℕ) :
    (st.prefillRound i q want).1.pending = st.pending ∧
      (st.prefillRound i q want).1.queueCount = st.queueCount ∧
      (st.prefillRound i q want).1.count = st.count ∧
      (st.prefillRound i q want).1.xdpWanOn = st.xdpWanOn := by
  rw [prefillRound]
  split
  · exact ⟨rfl, rfl, rfl, rfl⟩
  rw [submitFq]
  split
  all_goals exact ⟨rfl, rfl, rfl, rfl⟩

theorem prefillRound_lt {want : ℕ} (wants : want ≠ 0) : (st.prefillRound i q want).2 < want := by
  rw [prefillRound]
  split
  next => exact Nat.pos_of_ne_zero wants
  next got =>
    split
    · omega
    · exact Nat.pos_of_ne_zero wants

theorem drainCqLoop_frames (rounds : ℕ) (off : l ≠ .pool) (off' : l ≠ .cq i q) :
    (drainCqLoop i q rounds st).frames l = st.frames l := by
  have round (st : UmemState) (n : ℕ) : (st.drainCqRound i q n).frames l = st.frames l := by
    rw [drainCqRound]
    dsimp only
    rw [Function.update_of_ne off', poolPush_frames_of_ne off]
  induction rounds generalizing st with
  | zero => rfl
  | succ rounds ih =>
    rw [drainCqLoop]
    split
    · rfl
    split
    · exact round _ _
    · rw [ih, round]

theorem reclaimUnread_frames (rounds : ℕ) (off : l ≠ .pool) (off' : l ≠ .rx i q) :
    (reclaimUnread i q rounds st).frames l = st.frames l := by
  have round (st : UmemState) (n : ℕ) : (st.giveBack (.rx i q) n).frames l = st.frames l := by
    rw [giveBack, poolPush_frames_of_ne off]
    exact Function.update_of_ne off' _ _
  induction rounds generalizing st with
  | zero => rfl
  | succ rounds ih =>
    rw [reclaimUnread]
    split
    · rfl
    split
    · exact round _ _
    · rw [ih, round]

theorem reclaimUnread_pending (rounds : ℕ) :
    (reclaimUnread i q rounds st).pending = st.pending := by
  induction rounds generalizing st with
  | zero => rfl
  | succ rounds ih =>
    rw [reclaimUnread]
    split
    · rfl
    split
    · rfl
    · exact ih

theorem reclaimRxQueue_frames (released : st.pending i q = []) (off : l ≠ .pool)
    (off' : l ≠ .rx i q) : (st.reclaimRxQueue i q).frames l = st.frames l := by
  rw [reclaimRxQueue, released, reclaimUnread_frames _ off off']
  rfl

theorem reclaimRxQueue_pending : (st.reclaimRxQueue i q).pending i q = [] := by
  rw [reclaimRxQueue, reclaimUnread_pending, clearPending]
  dsimp only
  rw [Function.update_self, Function.update_self]

/-- A WAN with one queue comes up in slot 0, or goes down again, while a location has some frames
for good. -/
structure Attaching (l : FrameLoc) (fs : List ℕ) (pc : AttachPc) (st : UmemState) : Prop where
  attachPc : st.attachPc = pc
  queueCount : st.queueCount ⟨.dirWan, 0⟩ = 1
  counted : 0 < st.count .dirWan
  pending : st.pending ⟨.dirWan, 0⟩ 0 = []
  noProgram : st.xdpWanOn 0 = false
  kept : fs <+: st.frames l

/-- A step on the way up. -/
theorem attach_run {a : AttachAct} (goes : st.step (.attach a) = some st')
    (other : a ≠ .detach ∧ a ≠ .reclaim ∧ a ≠ .delete) : ReachableWith step keepsFrames st st' :=
  .single (keepsFrames_of_ne (mt UmemAct.attach.inj other.1) (mt UmemAct.attach.inj other.2.1)
    (mt UmemAct.attach.inj other.2.2)) goes

namespace Attaching

variable {w : ℕ}

/-- A round of the prefill. -/
theorem round (here : Attaching l fs (.prefill 0 0 w) st) (off : l ≠ .pool) (wants : w ≠ 0) :
    ∃ st', st.step (.attach .prefill) = some st' ∧
      Attaching l fs (.prefill 0 0 (st.prefillRound ⟨.dirWan, 0⟩ 0 w).2) st' ∧
      st'.frames = (st.prefillRound ⟨.dirWan, 0⟩ 0 w).1.frames := by
  obtain ⟨pending, queueCount, count, programs⟩ := prefillRound_same st ⟨.dirWan, 0⟩ 0 w
  refine ⟨{ (st.prefillRound ⟨.dirWan, 0⟩ 0 w).1 with
    attachPc := .prefill 0 0 (st.prefillRound ⟨.dirWan, 0⟩ 0 w).2 }, ?_,
    ⟨rfl, ?_, ?_, ?_, ?_, here.kept.trans (prefillRound_kept off w)⟩, rfl⟩
  · rw [step, stepAttach, here.attachPc]
    dsimp only
    rw [here.queueCount, if_neg (by decide), if_neg wants]
  · rw [queueCount, here.queueCount]
  · rw [count]
    exact here.counted
  · rw [pending, here.pending]
  · rw [programs, here.noProgram]

theorem prefill_run (here : Attaching l fs (.prefill 0 0 w) st) (off : l ≠ .pool) :
    ∃ st', ReachableWith step keepsFrames st st' ∧ Attaching l fs (.prefill 0 0 0) st' := by
  induction w using Nat.strong_induction_on generalizing st with
  | _ want ih =>
    by_cases full : want = 0
    · subst full
      exact ⟨st, .refl, here⟩
    obtain ⟨st₁, goes, next, -⟩ := here.round off full
    obtain ⟨st', run, done⟩ := ih _ (prefillRound_lt full) next
    exact ⟨st', (attach_run goes (by simp)).trans run, done⟩

/-- A WAN that is filled comes up, and goes down as it cannot be bound. -/
theorem bind_fails (here : Attaching l fs (.prefill 0 0 0) st) :
    ∃ st', ReachableWith step keepsFrames st st' ∧ Attaching l fs (.reclaim 0 0) st' := by
  have one : st.step (.attach .prefill) = some
      { st with attachPc := .prefill 0 1 neFqPrefill } := by
    rw [step, stepAttach, here.attachPc]
    dsimp only
    rw [here.queueCount, if_neg (by decide), if_pos rfl]
  have two : ({ st with attachPc := .prefill 0 1 neFqPrefill } : UmemState).step
      (.attach .prefill) = some { st with
        live := Function.update st.live ⟨.dirWan, 0⟩ true
        attachPc := .bind 0 } := by
    rw [step, stepAttach]
    dsimp only
    rw [here.queueCount, if_pos le_rfl]
  generalize up : ({ st with
      live := Function.update st.live ⟨.dirWan, 0⟩ true
      attachPc := .bind 0 } : UmemState) = bound at two
  have isLive : bound.live ⟨.dirWan, 0⟩ = true := by
    rw [← up]
    dsimp only
    rw [Function.update_self]
  have counted : 0 < bound.count .dirWan := by
    rw [← up]
    exact here.counted
  have three : bound.step (.attach (.bind .notAttached)) =
      some { bound with attachPc := .detach 0 } := by
    rw [step, stepAttach, show bound.attachPc = .bind 0 by rw [← up]]
    dsimp only
    rw [bindWan, unplumbWanDp, if_pos ⟨counted, isLive⟩]
  have noProgram : bound.xdpWanOn 0 = false := by
    rw [← up]
    exact here.noProgram
  have four : ({ bound with attachPc := .detach 0 } : UmemState).step (.attach .detach) =
      some { bound with
        live := Function.update bound.live ⟨.dirWan, 0⟩ false
        attachPc := .reclaim 0 0 } := by
    rw [step, stepAttach]
    dsimp only
    rw [detachWanDp, profileIfaceXdpDetachWan]
    dsimp only
    rw [if_neg (by rw [noProgram]; exact Bool.false_ne_true)]
  have admitted : ({ bound with attachPc := .detach 0 } : UmemState).keepsFrames
      (.attach .detach) := by
    intro on
    rw [show bound.xdpWanOn 0 = true from on] at noProgram
    cases noProgram
  have run := ((attach_run one (by simp)).trans (attach_run two (by simp))).trans
    ((attach_run three (by simp)).tail admitted four)
  refine ⟨_, run, rfl, ?_, counted, ?_, noProgram, ?_⟩
  · rw [← up]
    exact here.queueCount
  · rw [← up]
    exact here.pending
  · rw [← up]
    exact here.kept

theorem reclaims (here : Attaching l fs (.reclaim 0 0) st) (off : l ≠ .pool)
    (off' : l ≠ .cq ⟨.dirWan, 0⟩ 0) (off'' : l ≠ .rx ⟨.dirWan, 0⟩ 0) :
    ∃ st', ReachableWith step keepsFrames st st' ∧ Attaching l fs (.delete 0) st' := by
  generalize isDrained : st.drainCqQueue ⟨.dirWan, 0⟩ 0 = drained
  have pending : drained.pending ⟨.dirWan, 0⟩ 0 = [] := by
    rw [← isDrained, drainCqQueue_pending, here.pending]
  have drains : Handles st drained := isDrained ▸ handles_drainCqQueue
  have reclaims := handles_reclaimRxQueue pending
  have one : st.step (.attach .reclaim) = some
      { drained.reclaimRxQueue ⟨.dirWan, 0⟩ 0 with attachPc := .reclaim 0 1 } := by
    rw [step, stepAttach, here.attachPc]
    dsimp only
    rw [here.queueCount, if_neg (by decide), isDrained]
  have two : ({ drained.reclaimRxQueue ⟨.dirWan, 0⟩ 0 with
      attachPc := .reclaim 0 1 } : UmemState).step (.attach .reclaim) = some
      { drained.reclaimRxQueue ⟨.dirWan, 0⟩ 0 with attachPc := .delete 0 } := by
    rw [step, stepAttach]
    dsimp only
    rw [reclaims.queueCount, drains.queueCount, here.queueCount, if_pos le_rfl]
  have released : st.keepsFrames (.attach .reclaim) := by
    simp only [keepsFrames, here.attachPc, here.pending, implies_true]
  have released' : ({ drained.reclaimRxQueue ⟨.dirWan, 0⟩ 0 with
      attachPc := .reclaim 0 1 } : UmemState).keepsFrames (.attach .reclaim) := by
    simp only [keepsFrames, reclaims.queueCount, drains.queueCount, here.queueCount, lt_irrefl,
      false_implies]
  refine ⟨_, (ReachableWith.single released one).tail released' two, rfl, ?_, ?_, ?_, ?_, ?_⟩
  · rw [reclaims.queueCount, drains.queueCount, here.queueCount]
  · rw [reclaims.count, drains.count]
    exact here.counted
  · exact reclaimRxQueue_pending
  · rw [reclaims.xdpWanOn, drains.xdpWanOn]
    exact here.noProgram
  · dsimp only
    rw [reclaimRxQueue_frames pending off off'', ← isDrained, drainCqQueue,
      drainCqLoop_frames _ off off']
    exact here.kept

end Attaching

/-- The pool gives a prefill at most what it wants. -/
theorem length_pool_prefillRound (st : UmemState) (i : NeIface) (q want : ℕ) :
    (st.frames .pool).length + (st.prefillRound i q want).2 ≤
      ((st.prefillRound i q want).1.frames .pool).length + want := by
  rw [prefillRound]
  split
  · exact Nat.add_le_add_left (Nat.zero_le _) _
  have ne : FrameLoc.pool ≠ .fq i q := by rintro ⟨⟩
  rw [submitFq]
  split
  · dsimp only
    rw [Places.shift, Function.update_of_ne ne, Function.update_self, List.length_drop]
    omega
  · rw [poolPush]
    dsimp only
    rw [Function.update_self, Function.update_self, List.length_append, List.length_drop]
    omega

theorem length_pool_prefillQueue (rounds : ℕ) (st : UmemState) (want : ℕ) :
    (st.frames .pool).length ≤ ((prefillQueue i q rounds want st).frames .pool).length + want := by
  induction rounds generalizing st want with
  | zero => exact Nat.le_add_right _ _
  | succ rounds ih =>
    rw [prefillQueue]
    split
    · exact Nat.le_add_right _ _
    · have round := length_pool_prefillRound st i q want
      have rest := ih (st.prefillRound i q want).1 (st.prefillRound i q want).2
      omega

/-- A WAN comes up where there was none. -/
theorem comes_up (idle : st.attachPc = .idle) (none : st.count .dirWan = 0)
    (noProgram : st.xdpWanOn 0 = false) :
    ∃ st', ReachableWith step keepsFrames st st' ∧
      Attaching .dataplane (st.frames .dataplane) (.prefill 0 0 neFqPrefill) st' ∧
      st'.frames .pool = st.frames .pool ∧ st'.frames (.fq ⟨.dirWan, 0⟩ 0) = [] := by
  have one : st.step (.attach .rows) = some { st with attachPc := .rows, wanAdded := [] } := by
    rw [step, stepAttach, if_pos idle]
  have two : ({ st with attachPc := .rows, wanAdded := [] } : UmemState).step
      (.attach (.plumb 1 .opened)) = some
      { ({ st with wanAdded := [] } : UmemState).openIfaceQueues ⟨.dirWan, 0⟩ 1 with
        count := Function.update st.count .dirWan (max (st.count .dirWan) (0 + 1))
        attachPc := .prefill 0 0 neFqPrefill } := by
    have slot : ({ st with attachPc := .rows, wanAdded := [] } : UmemState).fwdAllocWanSlot =
        some 0 := by
      rw [fwdAllocWanSlot]
      dsimp only
      rw [none]
      rfl
    rw [step, stepAttach, if_pos rfl]
    unfold plumbWanDp
    rw [slot]
    rfl
  have run := (attach_run one (by simp)).trans (attach_run two (by simp))
  refine ⟨_, run,
    ⟨rfl, ?_, ?_, ?_, noProgram, List.prefix_rfl⟩, rfl, ?_⟩
  · rw [openIfaceQueues]
    dsimp only
    rw [Function.update_self]
  · dsimp only
    rw [Function.update_self]
    exact lt_max_of_lt_right Nat.one_pos
  · rw [openIfaceQueues]
    dsimp only
    rw [Function.update_self, if_pos Nat.one_pos]
  · rw [openIfaceQueues]
    dsimp only
    rw [if_pos ⟨rfl, Nat.one_pos⟩]

theorem length_pool_foldl (i : NeIface) (want : ℕ) (qs : List ℕ) (st : UmemState) :
    (st.frames .pool).length ≤
      ((qs.foldl (fun st q => prefillQueue i q want want st) st).frames .pool).length +
        want * qs.length := by
  induction qs generalizing st with
  | nil => exact Nat.le_add_right _ _
  | cons q qs ih =>
    rw [List.foldl_cons, List.length_cons, Nat.mul_succ]
    have first := length_pool_prefillQueue (i := i) (q := q) want st want
    have rest := ih (prefillQueue i q want want st)
    omega

theorem length_pool_prefillIface (st : UmemState) (i : NeIface) (want : ℕ) :
    (st.frames .pool).length ≤
      ((st.prefillIface i want).frames .pool).length + want * st.queueCount i := by
  have left := length_pool_foldl i want (List.range (st.queueCount i)) st
  rwa [List.length_range] at left

theorem frames_nePairOpen (locals wans : List ℤ) : (nePairOpen locals wans).frames =
    (((opened locals wans).ifaces .dirLocal ++ (opened locals wans).ifaces .dirWan).foldl
      (fun st i => st.prefillIface i neFqPrefill) (opened locals wans)).frames := rfl

/-- The pool after `ne_pair_open` with one LAN that has one queue. -/
theorem pool_nePairOpen : (nePairOpen [1] []).frames .pool ≠ [] := by
  have one : (opened [1] []).ifaces .dirLocal ++ (opened [1] []).ifaces .dirWan =
      [⟨.dirLocal, 0⟩] := rfl
  have queues : (opened [1] []).queueCount ⟨.dirLocal, 0⟩ = 1 := rfl
  have all : ((opened [1] []).frames .pool).length = neNFrames := by
    rw [opened]
    dsimp only
    rw [if_pos rfl, List.length_range]
  have left := length_pool_prefillIface (opened [1] []) ⟨.dirLocal, 0⟩ neFqPrefill
  rw [all, queues] at left
  rw [frames_nePairOpen, one, List.foldl_cons, List.foldl_nil, ← List.length_pos_iff]
  generalize ((opened [1] []).prefillIface ⟨.dirLocal, 0⟩ neFqPrefill).frames .pool = pool at left ⊢
  rw [neNFrames, neFqPrefill] at left
  omega

theorem attachPc_nePairOpen (locals wans : List ℤ) :
    (nePairOpen locals wans).attachPc = .idle :=
  (handles_nePairOpen_prefill locals wans _).attachPc

theorem count_nePairOpen (locals wans : List ℤ) :
    (nePairOpen locals wans).count = (opened locals wans).count :=
  (handles_nePairOpen_prefill locals wans _).count

theorem xdpWanOn_nePairOpen (locals wans : List ℤ) (slot : ℕ) :
    (nePairOpen locals wans).xdpWanOn slot = false :=
  congrFun (handles_nePairOpen_prefill locals wans _).xdpWanOn slot

/-- A prefill takes frames while the pool has some. -/
theorem prefillRound_ne_nil {w : ℕ} (wants : w ≠ 0) (some_left : st.frames .pool ≠ [])
    (empty : st.frames (.fq i q) = []) :
    (st.prefillRound i q w).1.frames (.fq i q) ≠ [] := by
  have left := List.length_pos_iff.mpr some_left
  have got : min (min w neBatchSize) (st.frames .pool).length ≠ 0 := by
    rw [neBatchSize]
    omega
  have room : min (min w neBatchSize) (st.frames .pool).length ≤ st.fqRoom i q := by
    rw [fqRoom, empty, List.length_nil, neBatchSize, neRing]
    omega
  rw [prefillRound, if_neg got, submitFq, if_pos room]
  dsimp only
  rw [Places.shift, Function.update_self, empty, List.nil_append]
  intro none
  rw [List.take_eq_nil_iff] at none
  exact none.elim got some_left

/-- A WAN with frames in its fill ring fails to attach, and is about to be deleted. -/
theorem exists_delete_run : ∃ st fs, ReachableWith step keepsFrames (nePairOpen [1] []) st ∧
    Attaching (.fq ⟨.dirWan, 0⟩ 0) fs (.delete 0) st ∧ fs ≠ [] := by
  have none : (nePairOpen [1] []).count .dirWan = 0 := by
    rw [count_nePairOpen]
    rfl
  obtain ⟨st₀, up, coming, pool, fq⟩ :=
    comes_up (attachPc_nePairOpen [1] []) none (xdpWanOn_nePairOpen [1] [] 0)
  have wants : neFqPrefill ≠ 0 := by decide
  obtain ⟨st₁, goes, next, frames⟩ := coming.round nofun wants
  have some_left : st₀.frames .pool ≠ [] := by
    rw [pool]
    exact pool_nePairOpen
  have filled := prefillRound_ne_nil wants some_left fq
  rw [← frames] at filled
  have has : Attaching (.fq ⟨.dirWan, 0⟩ 0) (st₁.frames (.fq ⟨.dirWan, 0⟩ 0)) _ st₁ :=
    ⟨next.attachPc, next.queueCount, next.counted, next.pending, next.noProgram, List.prefix_rfl⟩
  obtain ⟨st₂, run₂, has₂⟩ := has.prefill_run nofun
  obtain ⟨st₃, run₃, has₃⟩ := has₂.bind_fails
  obtain ⟨st₄, run₄, has₄⟩ := has₃.reclaims nofun nofun nofun
  exact ⟨st₄, _, (((up.trans (attach_run goes (by simp))).trans run₂).trans run₃).trans run₄,
    has₄, filled⟩

end FailedAttach

/-! ## Runs -/

/-- A run whose steps keep frames keeps each at one location, and the first step that does not ends
that. -/
theorem framesOwned_iff_of_reachable {locals wans : List ℤ}
    (reached : ReachableWith step keepsFrames (nePairOpen locals wans) st) :
    FramesOwned st ∧ ∀ a st', st.step a = some st' → (FramesOwned st' ↔ st.keepsFrames a) := by
  have inv : Inv st := reached.invariant (inv_nePairOpen locals wans)
    fun _ _ _ inv admitted enabled => inv.step admitted enabled
  refine ⟨inv.frames.framesOwned, fun a st' enabled => ⟨fun owned => ?_, fun admitted =>
    (inv.step admitted enabled).frames.framesOwned⟩⟩
  by_contra breaks
  unfold keepsFrames at breaks
  split at breaks
  next slot was =>
    push Not at breaks
    obtain ⟨slot', was', rfl⟩ := stepAttach_detach enabled
    cases was.symm.trans was'
    exact inv.frames.not_framesOwned_detach breaks.1 breaks.2 owned
  next slot q was =>
    push Not at breaks
    obtain ⟨slot', q', was', ⟨done, -⟩ | ⟨-, rfl⟩⟩ := stepAttach_reclaim enabled
    · cases was.symm.trans was'
      exact absurd breaks.1 (not_lt.mpr done)
    · cases was.symm.trans was'
      exact inv.not_framesOwned_reclaim breaks.2 owned
  next slot was =>
    obtain ⟨slot', was', rfl⟩ := stepAttach_delete enabled
    cases was.symm.trans was'
    exact inv.frames.not_framesOwned_delete breaks owned
  next => exact breaks trivial

/-- The frames are owned until a WAN that is not bound is deleted. -/
theorem framesOwned_before_delete : ∃ st, st.attachPc = .delete 0 ∧ FramesOwned st := by
  obtain ⟨st, fs, reached, here, -⟩ := exists_delete_run
  exact ⟨st, here.attachPc, (framesOwned_iff_of_reachable reached).1⟩

/-- A WAN that is brought down after a failed attach has frames in its fill ring. -/
theorem not_framesOwned_failed_attach :
    ¬ ∀ st, Reachable step (nePairOpen [1] []) st → FramesOwned st := by
  intro always
  obtain ⟨st, fs, reached, here, filled⟩ := exists_delete_run
  have inv : Inv st := reached.invariant (inv_nePairOpen [1] [])
    fun _ _ _ inv admitted enabled => inv.step admitted enabled
  have deletes : st.step (.attach .delete) =
      some { (st.deleteIfaceXsks ⟨.dirWan, 0⟩).clearIfaceQueuesAfterDelete ⟨.dirWan, 0⟩ with
        attachPc := .rollback } := by
    rw [step, stepAttach, here.attachPc]
  refine inv.frames.not_framesOwned_delete (fun empty => filled ?_)
    (always _ ((reached.mono fun _ _ _ => trivial).tail trivial deletes))
  have inside : 0 < st.queueCount ⟨.dirWan, 0⟩ := by
    rw [here.queueCount]
    exact Nat.one_pos
  have gone := empty 0 inside (.fq ⟨.dirWan, 0⟩ 0) List.mem_cons_self
  exact List.prefix_nil.mp (gone ▸ here.kept)

end UmemState

end NeEncryptor.Umem
