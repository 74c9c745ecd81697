import NeEncryptor.Forwarder.WanScheduler

/-!
# WAN slots under reloads

How `forwarder_init` fills the WAN slots, and how a hot reload and the drain tick change them.
-/

namespace NeEncryptor.Wan

/-- What becomes of the attempt to bring a WAN interface up. -/
inductive AttachResult
  | attached
  /-- `if_nametoindex` finds no interface. -/
  | noInterface
  /-- `fwd_ensure_mid_wan_rings` fails. -/
  | noRings
  /-- `ne_pair_plumb_wan_dp` fails. -/
  | noPlumb
  /-- `profile_iface_xdp_bind_wan` fails. -/
  | noBind
  deriving DecidableEq, Repr

/-- The forwarder with the static variables of the scheduler. -/
structure WanState where
  fwd : Forwarder
  s : Scheduler

/-- `struct profile_attach_sess`. -/
structure AttachSession where
  wanAdded : List ℕ
  validateFailed : Bool

/-- `wan_seed_weight_from_cfg`. -/
def wanSeedWeightFromCfg (cfg : AppConfig) (cfgWan : ℤ) : ℤ :=
  match cfg.profiles with
  | [] => 1
  | p :: _ => p.wans.foldl (fun best w => if w.index = cfgWan then max best w.weight else best) 1

namespace Pair

variable (pair : Pair)

/-- `ne_pair_wan_live`. -/
def pairWanLive (dp : ℕ) : Bool := decide (dp < pair.wanCount) && pair.wanLive dp

/-- `pair_wan_dp_slot_live`. -/
def dpSlotLive (ifname : String) : Option ℕ :=
  (List.range pair.wanCount).find? fun di => pair.pairWanLive di && pair.ifname di = ifname

/-- `fwd_alloc_wan_slot`. -/
def allocWanSlot : Option ℕ :=
  match (List.range pair.wanCount).find? fun i => !pair.pairWanLive i with
  | some i => some i
  | none => if pair.wanCount < maxInterfaces then some pair.wanCount else none

/-- `ne_pair_plumb_wan_dp`, where it succeeds. -/
def plumb (di : ℕ) (ifname : String) : Pair :=
  { pair with
    wanCount := max pair.wanCount (di + 1)
    ifname := Function.update pair.ifname di ifname
    wanLive := Function.update pair.wanLive di true }

/-- `profile_iface_xdp_detach_wan`. -/
def detach (di : ℕ) : Pair := { pair with xdpWanOn := Function.update pair.xdpWanOn di false }

/-- `ne_pair_unplumb_wan_dp`. -/
def unplumb (di : ℕ) : Pair :=
  if pair.pairWanLive di then
    { pair.detach di with wanLive := Function.update pair.wanLive di false }
  else pair

/-- The slots up to the last live one, as `profile_iface_life_reconcile_counts` counts them. -/
def liveCount : ℕ :=
  (List.range maxInterfaces).foldl (fun n i => if pair.pairWanLive i then i + 1 else n) 0

end Pair

namespace WanState

variable (w : WanState)

/-- `forwarder_init`, with the drains and flags that `fwd_wan_reset_on_init` clears; a blend that an
earlier forwarder began goes on. -/
def init (cfg : AppConfig) (excluded : ℕ → Bool) (blend : WeightBlend) : WanState where
  fwd :=
    { cfg := cfg
      wanCount := min cfg.countDataplaneWans maxInterfaces
      wanCfgIdx := fun di => (cfg.wanDpToCfg di).getD 0
      pair :=
        { wanCount := min cfg.countDataplaneWans maxInterfaces
          ifname := fun di => ((cfg.wanDpToCfg di).bind fun ci => cfg.wans[ci]?).elim "" (·.ifname)
          wanLive := fun di => decide (di < min cfg.countDataplaneWans maxInterfaces)
          xdpWanOn := fun di => decide (di < min cfg.countDataplaneWans maxInterfaces) } }
  s :=
    { drains := fun _ => ⟨false, 0, 0, 0, 0⟩
      activeDpCount := min cfg.countDataplaneWans maxInterfaces
      stopped := fun _ => false
      adminHold := fun _ => false
      excluded := excluded
      blend := blend
      joins := fun _ => ⟨false, 0, 0, 0⟩ }

/-- `profile_iface_life_reconcile_counts`. -/
def reconcileCounts : WanState :=
  { w with fwd := { w.fwd with
      wanCount := w.fwd.pair.liveCount
      pair := { w.fwd.pair with wanCount := w.fwd.pair.liveCount } } }

/-- The slot starts to drain in a reload from `old` to `cfg`. -/
def startsDrain (old cfg : AppConfig) (dp : ℕ) : Bool :=
  decide (dp < min w.fwd.wanCount maxInterfaces) && old.wanLive (w.fwd.wanCfgIdx dp) &&
    !cfg.wanLive (w.fwd.wanCfgIdx dp) && !(w.s.drains dp).active && !w.s.stopped dp

/-- The drain of a slot after a reload from `old` to `cfg`. -/
def drainAt (now : ℕ) (old cfg : AppConfig) (dp : ℕ) : WanDrain :=
  let ci := w.fwd.wanCfgIdx dp
  if w.startsDrain old cfg dp then
    ⟨true, ci, wanSeedWeightFromCfg old ci, now, now + wanDrainGraceMs⟩
  else w.s.drains dp

/-- `fwd_wan_configure_live_drains`. -/
def configureLiveDrains (now : ℕ) (old cfg : AppConfig) : WanState :=
  { w with s := { w.s with drains := w.drainAt now old cfg } }

/-- A WAN comes up in a slot. -/
def attachAt (di ci : ℕ) (ifname : String) : WanState where
  fwd :=
    { w.fwd with
      pair := { w.fwd.pair.plumb di ifname with
        xdpWanOn := Function.update w.fwd.pair.xdpWanOn di true }
      wanCfgIdx := Function.update w.fwd.wanCfgIdx di ci
      wanCount := (w.fwd.pair.plumb di ifname).wanCount }
  s := { w.s with stopped := Function.update w.s.stopped di false }

/-- One round of `profile_iface_life_attach_wan_rows`. -/
def attachRow (env : String → AttachResult) (cfg : AppConfig) (acc : WanState × AttachSession)
    (row : ProfileWan) : WanState × AttachSession :=
  let failed : AttachSession := { acc.2 with validateFailed := true }
  if acc.2.validateFailed then acc
  else if cfg.wanLive row.index = false then acc
  else
    match cfg.wans[row.index.toNat]? with
    | none => acc
    | some wan =>
      if env wan.ifname = .noInterface then (acc.1, failed)
      else if (acc.1.fwd.pair.dpSlotLive wan.ifname).isSome then acc
      else
        match acc.1.fwd.pair.allocWanSlot with
        | none => (acc.1, failed)
        | some di =>
          match env wan.ifname with
          | .noInterface | .noRings | .noPlumb => (acc.1, failed)
          | .noBind =>
            ({ acc.1 with fwd := { acc.1.fwd with
                pair := (acc.1.fwd.pair.plumb di wan.ifname).unplumb di } }, failed)
          | .attached =>
            (acc.1.attachAt di row.index.toNat wan.ifname,
              { acc.2 with wanAdded := acc.2.wanAdded ++ [di] })

/-- One slot of `profile_iface_life_attach_rollback`. -/
def rollbackSlot (di : ℕ) : WanState where
  fwd := { w.fwd with
    pair := w.fwd.pair.unplumb di
    wanCfgIdx := Function.update w.fwd.wanCfgIdx di (-1) }
  s := { w.s with stopped := Function.update w.s.stopped di true }

/-- `profile_iface_life_attach_rollback`. -/
def attachRollback (added : List ℕ) : WanState :=
  (added.reverse.foldl rollbackSlot w).reconcileCounts

/-- A WAN of the profile is live in the configuration and has no slot. -/
def needAttach (cfg : AppConfig) (p : ProfileConfig) : Bool :=
  p.wans.any fun row => cfg.wanLive row.index &&
    (cfg.wans[row.index.toNat]?).any fun wan => (w.fwd.pair.dpSlotLive wan.ifname).isNone

/-- `profile_iface_xdp_sync_wan_live`, and whether it succeeds. -/
def syncWanLive (env : String → AttachResult) (cfg : AppConfig) : WanState × Bool :=
  match cfg.profiles with
  | [] => (w, true)
  | p :: _ =>
    if w.needAttach cfg p = false then (w, true)
    else
      let (w', sess) := p.wans.foldl (attachRow env cfg) (w, ⟨[], false⟩)
      if sess.validateFailed then (w'.attachRollback sess.wanAdded, false)
      else if sess.wanAdded ≠ [] then (w'.reconcileCounts, true)
      else (w', true)

/-- `fwd_wan_weight_blend_begin`. -/
def weightBlendBegin (now : ℕ) (old cfg : AppConfig) : WanState :=
  let idle := { w.s.blend with active := false }
  let blend : WeightBlend :=
    match old.profiles, cfg.profiles with
    | op :: _, np :: _ =>
      if op.id ≠ np.id ∨ op.wans.length ≠ np.wans.length ∨ op.wans = np.wans then idle
      else
        ⟨true, np.id, np.wans.zipWith (fun n o => ⟨n.index, o.weight, n.weight⟩) op.wans, now,
          now + wanDrainGraceMs⟩
    | _, _ => idle
  { w with s := { w.s with blend := blend } }

/-- The WAN part of `forwarder_reload_config_impl`, and whether it gets past the attachments. -/
def reloadWans (now : ℕ) (env : String → AttachResult) (cfg : AppConfig) : WanState × Bool :=
  let old := w.fwd.cfg
  let (synced, attached) := (w.configureLiveDrains now old cfg).syncWanLive env cfg
  if attached = false then (synced, false)
  else
    let applied : WanState := { synced with fwd := { synced.fwd with cfg := cfg } }
    (applied.weightBlendBegin now old cfg, true)

/-- `wan_drain_finish_slot`, for a draining slot. -/
def drainFinishSlot (dp : ℕ) : WanState where
  fwd := { w.fwd with pair := w.fwd.pair.detach dp }
  s := { w.s with
    stopped := Function.update w.s.stopped dp true
    drains := Function.update w.s.drains dp { w.s.drains dp with active := false } }

/-- The drain of the slot is over. -/
def drainOver (now dp : ℕ) : Bool :=
  (w.s.drains dp).active && decide (w.s.drainTaperPct now dp = 0) &&
    decide ((w.s.drains dp).untilMs ≤ now)

/-- `fwd_wan_drain_tick`. -/
def drainTick (now : ℕ) : WanState :=
  (List.range (min w.fwd.wanCount maxInterfaces)).foldl
    (fun w dp => if w.drainOver now dp then w.drainFinishSlot dp else w) w

end WanState

end NeEncryptor.Wan
