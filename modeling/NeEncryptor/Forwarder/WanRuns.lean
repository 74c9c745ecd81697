import NeEncryptor.Forwarder.WanSlots
import NeEncryptor.Lib.Transition

/-!
# Runs of reloads

A forwarder under hot reloads that succeed, drain ticks and passing time, and what the slot table is
in every state reached: the WANs live in the configuration stand at the head of it, in order, for as
long as every reload keeps that order.
-/

namespace NeEncryptor.Wan

open Transition

namespace WanState

variable {w : WanState} {env : String → AttachResult} {cfg : AppConfig} {now : ℕ}

theorem AllLive.configureLiveDrains (all : w.AllLive) (now : ℕ) (old cfg : AppConfig) :
    (w.configureLiveDrains now old cfg).AllLive := ⟨all.count, all.fits, all.live⟩

/-- What a reload that succeeds does to slots and drains. -/
structure Reloads (now : ℕ) (cfg : AppConfig) (w w' : WanState) : Prop where
  allLive : w'.AllLive
  plumbed : w'.plumbed = w.plumbed ++ w.reloadRows cfg
  applied : w'.fwd.cfg = cfg
  drains : w'.s.drains = w.drainAt now w.fwd.cfg cfg
  flags : w'.s.adminHold = w.s.adminHold ∧ w'.s.excluded = w.s.excluded ∧
    w'.s.activeDpCount = w.s.activeDpCount
  kept : ∀ d < w.fwd.pair.wanCount, w'.s.stopped d = w.s.stopped d ∧
    w'.fwd.pair.xdpWanOn d = w.fwd.pair.xdpWanOn d

theorem reloadWans_reloads (all : w.AllLive) (succeeds : (w.reloadWans now env cfg).2 = true) :
    Reloads now cfg w (w.reloadWans now env cfg).1 := by
  unfold reloadWans at succeeds ⊢
  dsimp only at succeeds ⊢
  have attaches : ((w.configureLiveDrains now w.fwd.cfg cfg).syncWanLive env cfg).2 = true →
      Attaches (w.reloadRows cfg) (w.configureLiveDrains now w.fwd.cfg cfg)
        ((w.configureLiveDrains now w.fwd.cfg cfg).syncWanLive env cfg).1 :=
    syncWanLive_attaches (all.configureLiveDrains now w.fwd.cfg cfg)
  generalize (w.configureLiveDrains now w.fwd.cfg cfg).syncWanLive env cfg = synced at *
  cases attached : synced.2 with
  | false => simp [attached] at succeeds
  | true =>
    have attaches := attaches attached
    rw [if_neg (by decide)]
    exact
      { allLive := ⟨attaches.allLive.count, attaches.allLive.fits, attaches.allLive.live⟩
        plumbed := attaches.plumbed
        applied := rfl
        drains := attaches.drains
        flags := attaches.flags
        kept := attaches.kept }

/-- The ticks of drains detach and stop slots, and nothing else. -/
theorem foldl_finish (now : ℕ) (dps : List ℕ) (w : WanState) :
    let w' := dps.foldl (fun w dp => if w.drainOver now dp then w.drainFinishSlot dp else w) w
    w'.plumbed = w.plumbed ∧ w'.fwd.cfg = w.fwd.cfg ∧ (w.AllLive → w'.AllLive) := by
  induction dps generalizing w with
  | nil => exact ⟨rfl, rfl, id⟩
  | cons dp dps ih =>
    dsimp only at ih ⊢
    rw [List.foldl_cons]
    split
    · obtain ⟨plumbed, cfg, allLive⟩ := ih (w.drainFinishSlot dp)
      exact ⟨plumbed, cfg, fun all => allLive ⟨all.count, all.fits, all.live⟩⟩
    · exact ih w

theorem drainTick_plumbed (now : ℕ) (w : WanState) : (w.drainTick now).plumbed = w.plumbed :=
  (foldl_finish now _ w).1

theorem drainTick_cfg (now : ℕ) (w : WanState) : (w.drainTick now).fwd.cfg = w.fwd.cfg :=
  (foldl_finish now _ w).2.1

theorem AllLive.drainTick (all : w.AllLive) (now : ℕ) : (w.drainTick now).AllLive :=
  (foldl_finish now _ w).2.2 all

/-- The slots of a new forwarder are the live WANs of its configuration. -/
theorem plumbed_init (cfg : AppConfig) (excluded : ℕ → Bool) (blend : WeightBlend) :
    (init cfg excluded blend).plumbed = cfg.liveRows := by
  have small : cfg.countDataplaneWans ≤ maxInterfaces :=
    le_trans (List.length_filter_le _ _) cfg.fits
  have count : (init cfg excluded blend).fwd.pair.wanCount = cfg.liveRows.length := by
    rw [AppConfig.length_liveRows]
    exact min_eq_left small
  refine List.ext_getElem? fun d => ?_
  by_cases inside : d < cfg.liveRows.length
  · obtain ⟨ci, name, listed, -, wan⟩ := AppConfig.liveRow inside
    have index : cfg.wanDpToCfg d = some ci := by
      rw [AppConfig.wanDpToCfg_eq, listed]
      rfl
    rw [listed, plumbed_getElem?_iff]
    refine ⟨by omega, ?_, ?_⟩
    · show (((cfg.wanDpToCfg d).getD 0 : ℕ) : ℤ) = ci
      rw [index]
      rfl
    · show ((cfg.wanDpToCfg d).bind fun ci => cfg.wans[ci]?).elim "" (·.ifname) = name
      rw [index, Option.bind_some, wan]
      rfl
  · have outside : (init cfg excluded blend).plumbed.length ≤ d := by
      rw [length_plumbed]
      omega
    rw [List.getElem?_eq_none outside, List.getElem?_eq_none (by omega)]

theorem allLive_init (cfg : AppConfig) (excluded : ℕ → Bool) (blend : WeightBlend) :
    (init cfg excluded blend).AllLive where
  count := rfl
  fits := min_le_right _ _
  live := fun _ inside => decide_eq_true inside

/-- The first slot of a configuration index. -/
def slotOf (w : WanState) (ci : ℤ) : Option ℕ :=
  (List.range w.fwd.pair.wanCount).find? fun d => w.fwd.wanCfgIdx d = ci

/-- The dataplane index of every live WAN is the slot that holds it. -/
def OneMeaning (w : WanState) : Prop :=
  ∀ (ci : ℕ) (wan : WanConfig), w.fwd.cfg.wans[ci]? = some wan → wan.dataplane = true →
    ∃ d, w.fwd.cfg.wanCfgToDp ci = some d ∧ w.slotOf ci = some d ∧ w.fwd.pair.ifname d = wan.ifname

/-- One meaning says that the slot table starts with the live WANs, in order. -/
theorem oneMeaning_iff : w.OneMeaning ↔ w.fwd.cfg.liveRows <+: w.plumbed := by
  rw [prefix_iff_getElem?_some]
  constructor
  · intro meaning d row listed
    obtain ⟨inside, -⟩ := List.getElem?_eq_some_iff.mp listed
    obtain ⟨ci, name, listed', place, wan⟩ := AppConfig.liveRow inside
    obtain rfl := Option.some.inj (listed.symm.trans listed')
    obtain ⟨e, place', slot, ifname⟩ := meaning ci _ wan rfl
    obtain rfl := Option.some.inj (place.symm.trans place')
    refine plumbed_getElem?_iff.mpr ⟨?_, ?_, ifname⟩
    · exact List.mem_range.mp (List.mem_of_find?_eq_some slot)
    · exact of_decide_eq_true (List.find?_some slot :)
  · intro starts ci wan found live
    obtain ⟨ifname, dataplane⟩ := wan
    obtain rfl : dataplane = true := live
    have at_ci : w.fwd.cfg.wanLive ci = true := by simp [AppConfig.wanLive_of_wans found]
    have place : w.fwd.cfg.wanCfgToDp ci = some _ := if_pos at_ci
    have listed := AppConfig.liveRows_getElem?_iff.mpr ⟨place, by omega, by simpa using found⟩
    obtain ⟨inside, index, name⟩ := plumbed_getElem?_iff.mp (starts _ _ listed)
    refine ⟨_, place, ?_, name⟩
    refine List.find?_range_eq_some.mpr ⟨decide_eq_true index, List.mem_range.mpr inside, ?_⟩
    -- An earlier slot holds an earlier live WAN.
    intro e earlier
    by_contra same
    have same : w.fwd.wanCfgIdx e = ci := by simpa using same
    have e_inside : e < w.fwd.cfg.liveRows.length :=
      lt_trans earlier (List.getElem?_eq_some_iff.mp listed).1
    obtain ⟨ci', name', listed', place', -⟩ := AppConfig.liveRow e_inside
    have index' : w.fwd.wanCfgIdx e = ci' := (plumbed_getElem?_iff.mp (starts _ _ listed')).2.1
    rw [same] at index'
    rw [← index', place] at place'
    exact absurd (Option.some.inj place') (by omega)

/-- The WANs live in the new configuration are the slots, in order, and then the WANs that the
reload attaches. -/
def KeepsOrder (w : WanState) (cfg : AppConfig) : Prop :=
  cfg.liveRows <+: w.plumbed ++ w.reloadRows cfg

instance : Decidable w.OneMeaning := decidable_of_iff _ oneMeaning_iff.symm

instance (cfg : AppConfig) : Decidable (w.KeepsOrder cfg) :=
  inferInstanceAs (Decidable (_ <+: _))

end WanState

/-- The forwarder at a time. -/
structure WanRun where
  w : WanState
  now : ℕ

inductive WanAction
  /-- A hot reload, with what becomes of the interfaces it brings up. -/
  | reload (cfg : AppConfig) (env : String → AttachResult)
  /-- `fwd_wan_drain_tick`. -/
  | tick
  | pass (ms : ℕ)

namespace WanRun

/-- `none` for a reload that fails, or whose interface names differ. -/
def step (r : WanRun) : WanAction → Option WanRun
  | .reload cfg env =>
    if sameTopology r.w.fwd.cfg cfg && (r.w.reloadWans r.now env cfg).2 then
      some { r with w := (r.w.reloadWans r.now env cfg).1 }
    else none
  | .tick => some { r with w := r.w.drainTick r.now }
  | .pass ms => some { r with now := r.now + ms }

/-- A new forwarder. -/
def init (cfg : AppConfig) (excluded : ℕ → Bool) (blend : WeightBlend) (now : ℕ) : WanRun :=
  ⟨.init cfg excluded blend, now⟩

variable {r r' : WanRun} {cfg : AppConfig} {env : String → AttachResult}

theorem step_reload (all : r.w.AllLive) (enabled : r.step (.reload cfg env) = some r') :
    r'.now = r.now ∧ WanState.Reloads r.now cfg r.w r'.w := by
  unfold step at enabled
  dsimp only at enabled
  split at enabled
  · rename_i h
    rw [Bool.and_eq_true] at h
    cases enabled
    exact ⟨rfl, WanState.reloadWans_reloads all h.2⟩
  · cases enabled

/-- Every reload keeps the order of the live WANs. -/
def Ordered (r : WanRun) : WanAction → Prop
  | .reload cfg _ => r.w.KeepsOrder cfg
  | _ => True

/-- After a reload the index and the slot of every live WAN agree if and only if it keeps the
order. -/
theorem oneMeaning_reload_iff (all : r.w.AllLive) (enabled : r.step (.reload cfg env) = some r') :
    r'.w.OneMeaning ↔ r.w.KeepsOrder cfg := by
  have reloads := (step_reload all enabled).2
  rw [WanState.oneMeaning_iff, reloads.applied, reloads.plumbed]
  rfl

theorem aligned_step {a : WanAction} (aligned : r.w.AllLive ∧ r.w.OneMeaning)
    (ordered : r.Ordered a) (enabled : r.step a = some r') : r'.w.AllLive ∧ r'.w.OneMeaning := by
  obtain ⟨all, meaning⟩ := aligned
  cases a with
  | reload cfg env =>
    exact ⟨(step_reload all enabled).2.allLive, (oneMeaning_reload_iff all enabled).mpr ordered⟩
  | tick =>
    cases enabled
    refine ⟨all.drainTick r.now, ?_⟩
    rw [WanState.oneMeaning_iff] at meaning ⊢
    rwa [WanState.drainTick_cfg, WanState.drainTick_plumbed]
  | pass ms =>
    cases enabled
    exact ⟨all, meaning⟩

theorem aligned_init (cfg : AppConfig) (excluded : ℕ → Bool) (blend : WeightBlend) (now : ℕ) :
    (init cfg excluded blend now).w.AllLive ∧ (init cfg excluded blend now).w.OneMeaning := by
  refine ⟨WanState.allLive_init cfg excluded blend, WanState.oneMeaning_iff.mpr ?_⟩
  rw [show (init cfg excluded blend now).w.plumbed = cfg.liveRows from
    WanState.plumbed_init cfg excluded blend]
  exact List.prefix_rfl

/-- While every reload keeps the order of the live WANs, an index means one WAN; and it does so
after one more reload if and only if that one keeps the order too. -/
theorem one_meaning {cfg₀ : AppConfig} {excluded : ℕ → Bool} {blend : WeightBlend} {now : ℕ}
    (run : ReachableWith step Ordered (init cfg₀ excluded blend now) r) :
    r.w.OneMeaning ∧ ∀ cfg env r', r.step (.reload cfg env) = some r' →
      (r'.w.OneMeaning ↔ r.w.KeepsOrder cfg) := by
  have aligned := run.invariant (I := fun r => r.w.AllLive ∧ r.w.OneMeaning)
    (aligned_init cfg₀ excluded blend now)
    fun _ _ _ aligned ordered enabled => aligned_step aligned ordered enabled
  exact ⟨aligned.2, fun _ _ _ enabled => oneMeaning_reload_iff aligned.1 enabled⟩

instance (r : WanRun) : (a : WanAction) → Decidable (r.Ordered a)
  | .reload cfg _ => inferInstanceAs (Decidable (r.w.KeepsOrder cfg))
  | .tick | .pass _ => isTrue trivial

/-- Two WANs of one profile. -/
def sampleCfg (first second : Bool) : AppConfig :=
  ⟨["lan0"], [⟨"wan0", first⟩, ⟨"wan1", second⟩], [⟨1, [⟨0, 1⟩, ⟨1, 1⟩]⟩], Nat.le_of_ble_eq_true rfl⟩

def sampleInit (first second : Bool) : WanRun :=
  init (sampleCfg first second) (fun _ => false) .initial 0

/-- A WAN joins behind the live one. -/
theorem one_meaning_sample : ∃ r, ReachableWith step Ordered (sampleInit true false) r ∧
    r.w.plumbed = [(0, "wan0"), (1, "wan1")] ∧ r.w.OneMeaning := by
  have run : ((runWith step Ordered (sampleInit true false)
      [.reload (sampleCfg true true) fun _ => .attached]).any fun r =>
        r.w.plumbed = [(0, "wan0"), (1, "wan1")]) = true := by decide +kernel
  obtain ⟨r, ends, plumbed⟩ := (Option.any_eq_true _ _).mp run
  have reached := ReachableWith.of_runWith _ ends
  exact ⟨r, reached, of_decide_eq_true plumbed, (one_meaning reached).1⟩

/-- A WAN joins before the live one: its index is 0, and its slot is 1. -/
theorem not_always_one_meaning :
    ¬ ∀ cfg excluded blend now r, Reachable step (init cfg excluded blend now) r →
      r.w.OneMeaning := by
  intro always
  have fails : ((run step (sampleInit false true)
      [.reload (sampleCfg true true) fun _ => .attached]).any fun r =>
        !decide r.w.OneMeaning) = true := by decide +kernel
  exact not_always_of_run _ fails (always (sampleCfg false true) (fun _ => false) .initial 0)

end WanRun

end NeEncryptor.Wan
