import Mathlib.Data.Int.Basic
import Mathlib.Data.List.Basic

/-!
# WANs of a configuration

`struct app_config` as far as the choice and the plumbing of WANs read it.
-/

namespace NeEncryptor.Wan

/-- `struct wan_config`. -/
structure WanConfig where
  ifname : String
  dataplane : Bool
  deriving DecidableEq, Repr

/-- An entry of `wan_indices` with its `wan_bandwidth_weight`. -/
structure ProfileWan where
  index : ℤ
  weight : ℤ
  deriving DecidableEq, Repr

/-- `struct profile_config`; the id is a `SERIAL` of the database and positive. -/
structure ProfileConfig where
  id : ℤ
  wans : List ProfileWan
  deriving DecidableEq, Repr

/-- `MAX_INTERFACES`, and `MAX_PROFILE_INTERFACES`. -/
def maxInterfaces : ℕ := 16

/-- `struct app_config`, with the names of its LAN interfaces. -/
structure AppConfig where
  locals : List String
  wans : List WanConfig
  profiles : List ProfileConfig
  fits : wans.length ≤ maxInterfaces
  deriving DecidableEq, Repr

/-- The loop of `config_wan_dp_to_cfg` from index `i` on, with `dpIdx` live WANs still to pass. -/
def dpToCfgFrom (dpIdx i : ℕ) : List WanConfig → Option ℕ
  | [] => none
  | w :: ws =>
    if w.dataplane = false then dpToCfgFrom dpIdx (i + 1) ws
    else
      match dpIdx with
      | 0 => some i
      | n + 1 => dpToCfgFrom n (i + 1) ws

namespace AppConfig

variable (cfg : AppConfig)

/-- `config_wan_live`. -/
def wanLive (wanIdx : ℤ) : Bool :=
  match wanIdx with
  | .ofNat i => (cfg.wans[i]?).any WanConfig.dataplane
  | .negSucc _ => false

/-- `config_count_dataplane_wans`. -/
def countDataplaneWans : ℕ := (cfg.wans.filter WanConfig.dataplane).length

/-- `config_wan_cfg_to_dp`: the live WANs before the given one. -/
def wanCfgToDp (cfgIdx : ℤ) : Option ℕ :=
  if cfg.wanLive cfgIdx then some ((cfg.wans.take cfgIdx.toNat).filter WanConfig.dataplane).length
  else none

/-- `config_wan_dp_to_cfg`. -/
def wanDpToCfg (dpIdx : ℕ) : Option ℕ := dpToCfgFrom dpIdx 0 cfg.wans

end AppConfig

/-- `forwarder_same_topology`. -/
def sameTopology (a b : AppConfig) : Bool :=
  decide (a.locals.length = b.locals.length) && decide (a.wans.length = b.wans.length) &&
    !a.locals.isEmpty && !a.wans.isEmpty && a.locals.all (fun name => b.locals.contains name) &&
    a.wans.all fun w => b.wans.any fun v => v.ifname = w.ifname

end NeEncryptor.Wan
