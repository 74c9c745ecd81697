import NeEncryptor.Forwarder.WanRuns

/-!
# The usable WANs

The slots that take new traffic against the WANs that are live in the configuration.  They agree
once the drains are over, as long as no WAN comes back and none joins: a slot that was stopped stays
so, a drain stops its slot even where the WAN is live again, and a new slot lies outside the count
that is fixed when the forwarder starts.
-/

namespace NeEncryptor.Wan

open Transition

/-- A WAN of the name is dataplane-live in the configuration. -/
def AppConfig.nameLive (cfg : AppConfig) (ifname : String) : Bool :=
  cfg.wans.any fun wan => wan.ifname = ifname && wan.dataplane

namespace WanState

variable (w : WanState)

/-- The interface of the slot is live. -/
def slotLive (d : ℕ) : Bool := w.fwd.cfg.nameLive (w.fwd.pair.ifname d)

/-- No live WAN is stopped or detached; and once no drain is active, the slots that take new traffic
are those of the live WANs. -/
structure Converged : Prop where
  kept : ∀ d < w.fwd.pair.wanCount, w.s.stopped d = true ∨ w.fwd.pair.xdpWanOn d = false →
    w.slotLive d = false
  settled : (∀ d < w.fwd.pair.wanCount, (w.s.drains d).active = false) →
    ∀ d < w.fwd.pair.wanCount, w.s.adminHold d = false → w.s.excluded d = false →
      (w.s.dpOkForNewTraffic d = true ↔ w.slotLive d = true)

/-- A slot whose WAN is not live is stopped or on its way there, and only such a slot is stopped. -/
structure Converging : Prop where
  allLive : w.AllLive
  counted : w.fwd.pair.wanCount ≤ w.s.activeDpCount
  stopped_off : ∀ d < w.fwd.pair.wanCount, w.s.stopped d = true → w.slotLive d = false
  off_leaves : ∀ d < w.fwd.pair.wanCount, w.slotLive d = false →
    w.s.stopped d = true ∨ (w.s.drains d).active = true
  attached : ∀ d < w.fwd.pair.wanCount, w.fwd.pair.xdpWanOn d = false → w.s.stopped d = true

variable {w}

theorem Converging.converged (converging : w.Converging) : w.Converged where
  kept := fun d inside => by
    rintro (stopped | detached)
    · exact converging.stopped_off d inside stopped
    · exact converging.stopped_off d inside (converging.attached d inside detached)
  settled := fun idle d inside held excluded => by
    have small := lt_of_lt_of_le inside converging.allLive.fits
    have counted := lt_of_lt_of_le inside converging.counted
    have idle := idle d inside
    have ok : w.s.dpOkForNewTraffic d = !w.s.stopped d := by
      simp [Scheduler.dpOkForNewTraffic, small, held, idle, excluded, counted]
    rw [ok]
    cases stopped : w.s.stopped d with
    | true => simp [converging.stopped_off d inside stopped]
    | false =>
      cases live : w.slotLive d with
      | true => simp
      | false =>
        rcases converging.off_leaves d inside live with h | h
        · rw [stopped] at h
          cases h
        · rw [idle] at h
          cases h

theorem converging_init (cfg : AppConfig) (excluded : ℕ → Bool) (blend : WeightBlend) :
    (init cfg excluded blend).Converging where
  allLive := allLive_init cfg excluded blend
  counted := le_rfl
  stopped_off := fun _ _ stopped => by cases stopped
  off_leaves := fun d inside off => by
    have count : (init cfg excluded blend).fwd.pair.wanCount = cfg.liveRows.length := by
      rw [← plumbed_init cfg excluded blend, length_plumbed]
    obtain ⟨ci, name, listed, -, wan⟩ := AppConfig.liveRow (count ▸ inside)
    rw [← plumbed_init cfg excluded blend] at listed
    have ifname : (init cfg excluded blend).fwd.pair.ifname d = name :=
      (plumbed_getElem?_iff.mp listed).2.2
    have live : (init cfg excluded blend).slotLive d = true := by
      rw [slotLive, ifname]
      exact List.any_eq_true.mpr ⟨_, List.mem_of_getElem? wan, by simp⟩
    rw [off] at live
    cases live
  attached := fun d inside detached => by
    have on : (init cfg excluded blend).fwd.pair.xdpWanOn d = true := decide_eq_true inside
    rw [on] at detached
    cases detached

/-- What a reload has to leave alone: it attaches no WAN, it makes no WAN live whose slot is
stopped, and a slot whose WAN it leaves off is stopped or drains. -/
structure LeavesOff (w : WanState) (cfg : AppConfig) : Prop where
  no_new : w.reloadRows cfg = []
  no_return : ∀ d < w.fwd.pair.wanCount, cfg.nameLive (w.fwd.pair.ifname d) = true →
    w.s.stopped d = false
  leaves : ∀ d < w.fwd.pair.wanCount, cfg.nameLive (w.fwd.pair.ifname d) = false →
    w.s.stopped d = true ∨ (w.s.drains d).active = true ∨ w.startsDrain w.fwd.cfg cfg d = true

theorem Converging.reload {w' : WanState} {cfg : AppConfig} {now : ℕ} (converging : w.Converging)
    (leaves : w.LeavesOff cfg) (reloads : Reloads now cfg w w') : w'.Converging := by
  have plumbed : w'.plumbed = w.plumbed := by
    rw [reloads.plumbed, leaves.no_new, List.append_nil]
  have count : w'.fwd.pair.wanCount = w.fwd.pair.wanCount := by
    rw [← length_plumbed, plumbed, length_plumbed]
  have ifname (d : ℕ) (inside : d < w.fwd.pair.wanCount) :
      w'.fwd.pair.ifname d = w.fwd.pair.ifname d := by
    have row : w.plumbed[d]? = some (w.fwd.wanCfgIdx d, w.fwd.pair.ifname d) :=
      plumbed_getElem?_iff.mpr ⟨inside, rfl, rfl⟩
    rw [← plumbed] at row
    exact (plumbed_getElem?_iff.mp row).2.2
  have live (d : ℕ) (inside : d < w.fwd.pair.wanCount) :
      w'.slotLive d = cfg.nameLive (w.fwd.pair.ifname d) := by
    rw [slotLive, reloads.applied, ifname d inside]
  constructor
  · exact reloads.allLive
  · rw [count, reloads.flags.2.2]
    exact converging.counted
  · intro d inside stopped
    rw [count] at inside
    rw [(reloads.kept d inside).1] at stopped
    rw [live d inside, Bool.eq_false_iff]
    intro back
    rw [leaves.no_return d inside back] at stopped
    cases stopped
  · intro d inside off
    rw [count] at inside
    rw [live d inside] at off
    rw [(reloads.kept d inside).1, reloads.drains]
    unfold drainAt
    rcases leaves.leaves d inside off with stopped | active | starts
    · exact .inl stopped
    · right
      dsimp only
      split
      · rfl
      · exact active
    · right
      simp [starts]
  · intro d inside detached
    rw [count] at inside
    rw [(reloads.kept d inside).2] at detached
    rw [(reloads.kept d inside).1]
    exact converging.attached d inside detached

/-- A drain that is over leaves a slot whose WAN is not live. -/
def DrainsOff (w : WanState) (now : ℕ) : Prop :=
  ∀ d < w.fwd.pair.wanCount, w.drainOver now d = true → w.slotLive d = false

theorem Converging.finish {dp : ℕ} (converging : w.Converging) (off : w.slotLive dp = false) :
    (w.drainFinishSlot dp).Converging where
  allLive := ⟨converging.allLive.count, converging.allLive.fits, converging.allLive.live⟩
  counted := converging.counted
  stopped_off := fun d inside stopped => by
    by_cases here : d = dp
    · rw [here]
      exact off
    · simp only [drainFinishSlot, Function.update_of_ne here] at stopped
      exact converging.stopped_off d inside stopped
  off_leaves := fun d inside off => by
    by_cases here : d = dp
    · simp [drainFinishSlot, here]
    · simp only [drainFinishSlot, Function.update_of_ne here]
      exact converging.off_leaves d inside off
  attached := fun d inside detached => by
    by_cases here : d = dp
    · simp [drainFinishSlot, here]
    · simp only [drainFinishSlot, Pair.detach, Function.update_of_ne here] at detached ⊢
      exact converging.attached d inside detached

theorem DrainsOff.finish {now dp : ℕ} (off : w.DrainsOff now) :
    (w.drainFinishSlot dp).DrainsOff now := by
  intro d inside past
  by_cases here : d = dp
  · simp [drainOver, drainFinishSlot, here] at past
  · refine off d inside ?_
    simpa [drainOver, Scheduler.drainTaperPct, drainFinishSlot, Function.update_of_ne here]
      using past

theorem Converging.tick {now : ℕ} (converging : w.Converging) (off : w.DrainsOff now) :
    (w.drainTick now).Converging := by
  have ticks (dps : List ℕ) (w : WanState) (converging : w.Converging) (off : w.DrainsOff now)
      (inside : ∀ dp ∈ dps, dp < w.fwd.pair.wanCount) :
      (dps.foldl (fun w dp => if w.drainOver now dp then w.drainFinishSlot dp else w)
        w).Converging := by
    induction dps generalizing w with
    | nil => exact converging
    | cons dp dps ih =>
      have here := inside dp List.mem_cons_self
      have later : ∀ d ∈ dps, d < w.fwd.pair.wanCount :=
        fun d mem => inside d (List.mem_cons_of_mem dp mem)
      rw [List.foldl_cons]
      split
      · rename_i past
        exact ih _ (converging.finish (off dp here past)) off.finish later
      · exact ih w converging off later
  refine ticks _ w converging off fun dp mem => ?_
  have small := List.mem_range.mp mem
  rw [← converging.allLive.count]
  omega

end WanState

namespace WanRun

variable {r r' : WanRun}

/-- No WAN joins and none comes back. -/
def Leaving (r : WanRun) : WanAction → Prop
  | .reload cfg _ => r.w.LeavesOff cfg
  | .tick => r.w.DrainsOff r.now
  | .pass _ => True

theorem converging_step {a : WanAction} (converging : r.w.Converging) (leaving : r.Leaving a)
    (enabled : r.step a = some r') : r'.w.Converging := by
  cases a with
  | reload cfg env =>
    exact converging.reload leaving (step_reload converging.allLive enabled).2
  | tick =>
    cases enabled
    exact converging.tick leaving
  | pass ms =>
    cases enabled
    exact converging

/-- The usable WANs converge to the configuration in every run in which no WAN joins or comes
back. -/
theorem usable_converges {cfg : AppConfig} {excluded : ℕ → Bool} {blend : WeightBlend} {now : ℕ}
    (run : ReachableWith step Leaving (init cfg excluded blend now) r) : r.w.Converged :=
  (run.invariant (I := fun r : WanRun => r.w.Converging)
    (WanState.converging_init cfg excluded blend)
    fun _ _ _ converging leaving enabled => converging_step converging leaving enabled).converged

instance (r : WanRun) : (a : WanAction) → Decidable (r.Leaving a)
  | .reload cfg _ =>
    decidable_of_iff (r.w.reloadRows cfg = [] ∧
      (∀ d < r.w.fwd.pair.wanCount, cfg.nameLive (r.w.fwd.pair.ifname d) = true →
        r.w.s.stopped d = false) ∧
      ∀ d < r.w.fwd.pair.wanCount, cfg.nameLive (r.w.fwd.pair.ifname d) = false →
        r.w.s.stopped d = true ∨ (r.w.s.drains d).active = true ∨
          r.w.startsDrain r.w.fwd.cfg cfg d = true)
      ⟨fun h => ⟨h.1, h.2.1, h.2.2⟩, fun h => ⟨h.no_new, h.no_return, h.leaves⟩⟩
  | .tick => inferInstanceAs (Decidable (∀ d < r.w.fwd.pair.wanCount,
      r.w.drainOver r.now d = true → r.w.slotLive d = false))
  | .pass _ => isTrue trivial

/-- A WAN leaves: its slot is stopped when the drain is over. -/
theorem usable_converges_sample : ∃ r, ReachableWith step Leaving (sampleInit true true) r ∧
    r.w.s.stopped 1 = true ∧ r.w.Converged := by
  have run : ((runWith step Leaving (sampleInit true true)
      [.reload (sampleCfg true false) fun _ => .attached, .pass 5000, .tick]).any
        fun r : WanRun => r.w.s.stopped 1) = true := by decide +kernel
  obtain ⟨r, ends, stopped⟩ := (Option.any_eq_true _ _).mp run
  have reached := ReachableWith.of_runWith _ ends
  exact ⟨r, reached, stopped, usable_converges reached⟩

/-- A WAN comes back during its drain, and the drain stops it. -/
theorem not_always_converged :
    ¬ ∀ cfg excluded blend now r, Reachable step (init cfg excluded blend now) r →
      r.w.Converged := by
  intro always
  have ends : ((run step (sampleInit true true)
      [.reload (sampleCfg true false) fun _ => .attached,
        .reload (sampleCfg true true) fun _ => .attached, .pass 5000, .tick]).any
        fun r : WanRun => decide (1 < r.w.fwd.pair.wanCount) && r.w.s.stopped 1 &&
          r.w.slotLive 1) = true := by decide +kernel
  obtain ⟨r, reached, bad⟩ := exists_reachable_of_run _ ends
  simp only [Bool.and_eq_true, decide_eq_true_eq] at bad
  have off := (always (sampleCfg true true) (fun _ => false) .initial 0 r reached).kept 1 bad.1.1
    (.inl bad.1.2)
  rw [bad.2] at off
  cases off

end WanRun

end NeEncryptor.Wan
