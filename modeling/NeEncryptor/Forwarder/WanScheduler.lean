import Mathlib.Algebra.GroupWithZero.Nat
import NeEncryptor.Forwarder.WanConfig

/-!
# WAN scheduler

The state of `wan_scheduler.c`, the slots of the forwarder, and the pool of WANs a profile may send
on.
-/

namespace NeEncryptor.Wan

/-- `wan_drain_slot`. -/
structure WanDrain where
  active : Bool
  legacyCfgWan : ℤ
  seedWeight : ℤ
  startMs : ℕ
  untilMs : ℕ
  deriving DecidableEq, Repr

/-- An entry of the arrays of `wan_weight_blend`. -/
structure BlendedWan where
  wanCfg : ℤ
  oldW : ℤ
  newW : ℤ
  deriving DecidableEq, Repr

/-- `wan_weight_blend`. -/
structure WeightBlend where
  active : Bool
  profileId : ℤ
  wans : List BlendedWan
  startMs : ℕ
  untilMs : ℕ
  deriving DecidableEq, Repr

/-- No blend has begun in this process. -/
def WeightBlend.initial : WeightBlend := ⟨false, 0, [], 0, 0⟩

/-- `wan_join_ramp`. -/
structure WanJoin where
  active : Bool
  cfgWan : ℤ
  startMs : ℕ
  untilMs : ℕ
  deriving DecidableEq, Repr

/-- The static variables of the scheduler, and what `wan_failover_dp_excluded` reads. -/
structure Scheduler where
  drains : ℕ → WanDrain
  activeDpCount : ℕ
  stopped : ℕ → Bool
  adminHold : ℕ → Bool
  excluded : ℕ → Bool
  blend : WeightBlend
  joins : ℕ → WanJoin

/-- `struct ne_pair`, as far as its WAN slots go. -/
structure Pair where
  wanCount : ℕ
  ifname : ℕ → String
  wanLive : ℕ → Bool
  xdpWanOn : ℕ → Bool

/-- `struct forwarder`. -/
structure Forwarder where
  cfg : AppConfig
  wanCount : ℕ
  wanCfgIdx : ℕ → ℤ
  pair : Pair

/-- A `mid_to_wan` ring: `ne_ring_init` gives it `NE_RING` places. -/
structure Ring where
  cap : ℕ
  count : ℕ
  filled : count ≤ cap
  capped : cap ≤ 16384
  deriving DecidableEq, Repr

/-- `WAN_DRAIN_GRACE_MS`. -/
def wanDrainGraceMs : ℕ := 5000

namespace Scheduler

variable (s : Scheduler)

/-- `wan_drain_taper_pct`. -/
def drainTaperPct (now dp : ℕ) : ℕ :=
  if maxInterfaces ≤ dp ∨ (s.drains dp).active = false then 0
  else if (s.drains dp).untilMs ≤ now then 0
  else ((s.drains dp).untilMs - now) * 100 / wanDrainGraceMs

/-- `fwd_wan_dp_ok_for_new_traffic`. -/
def dpOkForNewTraffic (dp : ℕ) : Bool :=
  decide (dp < maxInterfaces) && !s.stopped dp && !s.adminHold dp && !(s.drains dp).active &&
    !s.excluded dp && decide (dp < s.activeDpCount)

/-- `wan_weight_blend_progress`. -/
def blendProgress (now : ℕ) : ℕ :=
  if s.blend.active = false ∨ s.blend.untilMs ≤ now then 100
  else if s.blend.untilMs - s.blend.startMs = 0 then 100
  else (now - s.blend.startMs) * 100 / (s.blend.untilMs - s.blend.startMs)

/-- `profile_wan_weight_blended`. -/
def profileWanWeightBlended (now : ℕ) (p : ProfileConfig) (cfgWan nominalWeight : ℤ) : ℤ :=
  if nominalWeight ≤ 0 then nominalWeight
  else if s.blend.active = false ∨ s.blend.profileId ≠ p.id then nominalWeight
  else
    match s.blend.wans.find? fun b => b.wanCfg = cfgWan with
    | none => nominalWeight
    | some b =>
      let blend : ℤ := s.blendProgress now
      let w := (b.oldW * (100 - blend) + b.newW * blend).tdiv 100
      if 0 < w then w else 1

/-- `wan_join_ramp_pct`, with `none` for −1. -/
def joinRampPct (now : ℕ) (cfgWan : ℤ) : Option ℕ :=
  if cfgWan < 0 then none
  else
    ((List.range maxInterfaces).find? fun i =>
      (s.joins i).active && decide ((s.joins i).cfgWan = cfgWan)).map fun i =>
        let join := s.joins i
        if join.untilMs ≤ now then 100
        else if join.untilMs - join.startMs = 0 then 100
        else (now - join.startMs) * 100 / (join.untilMs - join.startMs)

end Scheduler

namespace Forwarder

variable (fwd : Forwarder) (s : Scheduler)

/-- `fwd_wan_live_dp_for_cfg`, with `none` for −1. -/
def liveDpForCfg (cfgWan : ℤ) : Option ℕ :=
  if cfgWan < 0 then none
  else
    ((List.range (min (max fwd.wanCount fwd.pair.wanCount) maxInterfaces)).find? fun dp =>
      fwd.wanCfgIdx dp = cfgWan).filter s.dpOkForNewTraffic

/-- `fwd_wan_dp_for_legacy_cfg`, with `none` for −1. -/
def dpForLegacyCfg (now : ℕ) (legacyCfgWan : ℤ) : Option ℕ :=
  (List.range (min fwd.wanCount maxInterfaces)).find? fun dp =>
    (s.drains dp).active && !s.stopped dp && decide ((s.drains dp).legacyCfgWan = legacyCfgWan) &&
      decide (0 < s.drainTaperPct now dp)

/-- The WANs that `fwd_wan_build_profile_pool` collects, and the weight of those it leaves out. -/
def collectStep (now : ℕ) (p : ProfileConfig) (acc : List (ℤ × ℤ) × ℤ) (w : ProfileWan) :
    List (ℤ × ℤ) × ℤ :=
  let base := s.profileWanWeightBlended now p w.index w.weight
  if maxInterfaces ≤ acc.1.length then acc
  else if base ≤ 0 then acc
  else if fwd.liveDpForCfg s w.index = none then (acc.1, acc.2 + base)
  else
    match s.joinRampPct now w.index with
    | some 0 => (acc.1, acc.2 + base)
    | some ramp =>
      let ramped := if ramp < 100 then max ((base * ramp).tdiv 100) 1 else base
      (acc.1 ++ [(w.index, ramped)], acc.2)
    | none => (acc.1 ++ [(w.index, base)], acc.2)

/-- The weight of the WANs left out is shared among those in the pool. -/
def redistribute (live : List (ℤ × ℤ)) (deadWeight : ℤ) : List (ℤ × ℤ) :=
  if live ≠ [] ∧ 0 < deadWeight then
    live.mapIdx fun i w =>
      (w.1, w.2 + deadWeight.tdiv live.length + if i < deadWeight.tmod live.length then 1 else 0)
  else live

/-- The WANs inside their drain window, with what is left of their weight. -/
def draining (now : ℕ) : List (ℤ × ℤ) :=
  (List.range (min fwd.wanCount maxInterfaces)).filterMap fun dp =>
    let taper := s.drainTaperPct now dp
    if (s.drains dp).active = false ∨ s.stopped dp = true ∨ taper = 0 then none
    else some ((s.drains dp).legacyCfgWan, max (((s.drains dp).seedWeight * taper).tdiv 100) 1)

/-- `fwd_wan_build_profile_pool`: configuration indices with weights. -/
def buildProfilePool (now : ℕ) (p : ProfileConfig) (maxN : ℕ) : List (ℤ × ℤ) :=
  let collected := p.wans.foldl (fwd.collectStep s now p) ([], 0)
  (redistribute collected.1 collected.2 ++ fwd.draining s now).take maxN

end Forwarder

/-- The egress rings of the workers, and the ring the calling thread pushes to. -/
structure Egress where
  midToWan : ℕ → ℕ → Ring
  outRingIdx : ℕ

namespace Egress

variable (e : Egress)

/-- `fwd_mid_to_wan_depth`. -/
def depth (dp : ℕ) : ℕ := ((List.range 6).map fun w => (e.midToWan dp w).count).sum

/-- `fwd_wan_has_tx_room`. -/
def hasTxRoom (fwd : Forwarder) (dp : ℕ) : Bool :=
  decide (dp < fwd.wanCount) &&
    decide ((e.midToWan dp e.outRingIdx).count + 64 < (e.midToWan dp e.outRingIdx).cap)

end Egress

end NeEncryptor.Wan
