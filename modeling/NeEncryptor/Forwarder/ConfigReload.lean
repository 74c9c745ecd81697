import NeEncryptor.Crypto.CryptoRuntime
import NeEncryptor.Forwarder.WanSlots
import NeEncryptor.Lib.Transition

/-!
# Hot reload

`config_reload.c`: a caller of `forwarder_reload_config` posts a configuration and waits, and the TX
thread applies it.  The two share `reload_cfg`, `reload_rc`, `reload_pending` and `reload_done`, and
each access to them is a step.  No stop is requested here.
-/

namespace NeEncryptor.Reload

variable {n : ℕ}

/-- The parts of `struct app_config` that the WANs and the crypto runtime read. -/
structure Config where
  wan : Wan.AppConfig
  crypto : AppConfig

/-- What a reload works on. -/
structure Dataplane (n : ℕ) where
  w : Wan.WanState
  rt : CryptoRuntime n

/-- Where the caller of `forwarder_reload_config` stands, with its configuration and the dataplane
that it entered with. -/
inductive Caller (n : ℕ)
  | idle
  /-- Before the check for another reload. -/
  | entered (cfg : Config) (before : Dataplane n)
  /-- Before `reload_cfg` and `reload_rc` are written. -/
  | posting (cfg : Config) (before : Dataplane n)
  /-- Before `reload_done` is cleared. -/
  | clearing (cfg : Config) (before : Dataplane n)
  /-- Before `reload_pending` is set. -/
  | raising (cfg : Config) (before : Dataplane n)
  | waiting (cfg : Config) (before : Dataplane n)
  /-- Behind the loop, before `reload_rc` is read. -/
  | leaving (cfg : Config) (before : Dataplane n)
  /-- Before `reload_done` is read for the last time. -/
  | returning (cfg : Config) (before : Dataplane n) (rc : ℤ)

/-- Where the TX thread stands in `fwd_reload_apply_if_pending`. -/
inductive TxThread
  | idle
  /-- `reload_pending` was set. -/
  | seen
  | reloading (cfg : Config)
  /-- `fwd->cfg` is replaced. -/
  | snapshotting (cfg : Config)
  | rebuilding (cfg : Config)
  /-- `forwarder_reload_config_impl` has returned. -/
  | applied (rc : ℤ)
  /-- Before `reload_pending` is cleared. -/
  | lowering
  /-- Before `reload_done` is set. -/
  | signalling

/-- A call that has returned. -/
structure Call (n : ℕ) where
  cfg : Config
  rc : ℤ
  before : Dataplane n
  after : Dataplane n

/-- The two threads with what they share, and a record of the calls that returned and of the
configurations that were applied to the end. -/
structure World (n : ℕ) where
  dp : Dataplane n
  posted : Option Config
  rc : ℤ
  pending : Bool
  done : Bool
  caller : Caller n
  tx : TxThread
  calls : List (Call n)
  applied : List Config

inductive Action
  /-- `forwarder_reload_config` is called, and the workers are ready in time or not. -/
  | call (cfg : Config) (ready : Bool)
  | caller
  /-- The wait of the caller ends with `ETIMEDOUT`. -/
  | timeout
  /-- The TX thread goes on, with the clock, the interfaces and the bindings that it finds. -/
  | tx (now : ℕ) (env : String → Wan.AttachResult) (views : ℕ → KeyView)

/-- `FWD_CRYPTO_PROFILE_RELOAD_GRACE_MS`. -/
def profileReloadGraceMs : ℕ := 3000

namespace World

variable (r : World n)

/-- The call returns. -/
def finish (cfg : Config) (before : Dataplane n) (rc : ℤ) : World n :=
  { r with
    caller := .idle
    calls := r.calls ++ [⟨cfg, rc, before, r.dp⟩] }

/-- `forwarder_reload_config` up to the wait for the workers. -/
def call (cfg : Config) (ready : Bool) : Option (World n) :=
  match r.caller with
  | .idle =>
    if Wan.sameTopology r.dp.w.fwd.cfg cfg.wan && ready then
      some { r with caller := .entered cfg r.dp }
    else some (r.finish cfg r.dp (-1))
  | _ => none

/-- The rest of `forwarder_queue_reload`, statement by statement. -/
def callerStep : Option (World n) :=
  match r.caller with
  | .idle => none
  | .entered cfg before =>
    if r.pending && !r.done then some (r.finish cfg before (-1))
    else some { r with caller := .posting cfg before }
  | .posting cfg before =>
    some { r with posted := some cfg, rc := -1, caller := .clearing cfg before }
  | .clearing cfg before => some { r with done := false, caller := .raising cfg before }
  | .raising cfg before => some { r with pending := true, caller := .waiting cfg before }
  | .waiting cfg before => if r.done then some { r with caller := .leaving cfg before } else none
  | .leaving cfg before => some { r with caller := .returning cfg before r.rc }
  | .returning cfg before rc => some (r.finish cfg before (if r.done then rc else -1))

/-- The wait is given up. -/
def timeout : Option (World n) :=
  match r.caller with
  | .waiting cfg before => some { r with pending := false, caller := .leaving cfg before }
  | _ => none

/-- `fwd_reload_apply_if_pending`, with the parts of `forwarder_reload_config_impl`. -/
def txStep (now : ℕ) (env : String → Wan.AttachResult) (views : ℕ → KeyView) :
    Option (World n) :=
  match r.tx with
  | .idle => if r.pending then some { r with tx := .seen } else none
  | .seen =>
    match r.posted with
    | none => some { r with tx := .idle }
    | some cfg => some { r with tx := .reloading cfg }
  | .reloading cfg =>
    let (w, attached) := r.dp.w.reloadWans now env cfg.wan
    some { r with
      dp := { r.dp with w := w }
      tx := if attached then .snapshotting cfg else .applied (-1) }
  | .snapshotting cfg =>
    some { r with
      dp := { r.dp with rt := r.dp.rt.fwdCryptoSnapshotActiveToPrev now profileReloadGraceMs }
      tx := .rebuilding cfg }
  | .rebuilding cfg =>
    -- `fwd_crypto_rebuild` returns 0 on every path.
    some { r with
      dp := { r.dp with rt := r.dp.rt.fwdCryptoRebuild now views cfg.crypto }
      tx := .applied 0
      applied := r.applied ++ [cfg] }
  | .applied rc => some { r with rc := rc, tx := .lowering }
  | .lowering => some { r with pending := false, tx := .signalling }
  | .signalling => some { r with done := true, tx := .idle }

def step : Action → Option (World n)
  | .call cfg ready => r.call cfg ready
  | .caller => r.callerStep
  | .timeout => r.timeout
  | .tx now env views => r.txStep now env views

/-- Before the first reload. -/
def init (dp : Dataplane n) : World n := ⟨dp, none, 0, false, false, .idle, .idle, [], []⟩

end World

end NeEncryptor.Reload

namespace NeEncryptor.Wan.WanState

variable {w : WanState} {env : String → AttachResult} {cfg : AppConfig} {now : ℕ}

/-- The loop of the attachments does not skip the row. -/
def wanted (w : WanState) (env : String → AttachResult) (cfg : AppConfig) (row : ProfileWan) :
    Bool :=
  cfg.wanLive row.index && (cfg.wans[row.index.toNat]?).any fun wan =>
    env wan.ifname = .noInterface || (w.fwd.pair.dpSlotLive wan.ifname).isNone

/-- The WAN of a row that is not skipped comes up. -/
def comesUp (w : WanState) (env : String → AttachResult) (cfg : AppConfig) (row : ProfileWan) :
    Bool :=
  w.fwd.pair.allocWanSlot.isSome &&
    (cfg.wans[row.index.toNat]?).any fun wan => env wan.ifname = .attached

/-- Nothing is attached before the failure, and no drain starts. -/
structure FailsFirst (w : WanState) (env : String → AttachResult) (cfg : AppConfig) : Prop where
  no_drain : ∀ dp < w.fwd.wanCount, w.startsDrain w.fwd.cfg cfg dp = false
  first : ∀ p ∈ cfg.profiles.head?, ∀ row ∈ p.wans.find? (w.wanted env cfg),
    w.comesUp env cfg row = false

instance : Decidable (w.FailsFirst env cfg) :=
  decidable_of_iff ((∀ dp < w.fwd.wanCount, w.startsDrain w.fwd.cfg cfg dp = false) ∧
    ∀ p ∈ cfg.profiles.head?, ∀ row ∈ p.wans.find? (w.wanted env cfg),
      w.comesUp env cfg row = false) ⟨fun h => ⟨h.1, h.2⟩, fun h => ⟨h.no_drain, h.first⟩⟩

/-- The flags and indices of the slots are the same. -/
structure SameSlots (w w' : WanState) : Prop where
  cfg : w'.fwd.cfg = w.fwd.cfg
  wanCfgIdx : w'.fwd.wanCfgIdx = w.fwd.wanCfgIdx
  s : w'.s = w.s

theorem attachRow_not_wanted {row : ProfileWan} (skipped : w.wanted env cfg row = false) :
    attachRow env cfg (w, ⟨[], false⟩) row = (w, ⟨[], false⟩) := by
  unfold wanted at skipped
  cases live : cfg.wanLive row.index with
  | false => simp [attachRow, live]
  | true =>
    cases found : cfg.wans[row.index.toNat]? with
    | none => simp [attachRow, live, found]
    | some wan =>
      simp only [live, found, Bool.true_and, Option.any_some, Bool.or_eq_false_iff,
        decide_eq_false_iff_not, Option.isNone_eq_false_iff] at skipped
      simp [attachRow, live, found, skipped]

/-- The first WAN to attach fails. -/
theorem attachRow_fails {row : ProfileWan} (wanted : w.wanted env cfg row = true)
    (fails : w.comesUp env cfg row = false) :
    SameSlots w (attachRow env cfg (w, ⟨[], false⟩) row).1 ∧
      (attachRow env cfg (w, ⟨[], false⟩) row).2 = ⟨[], true⟩ := by
  unfold WanState.wanted at wanted
  unfold comesUp at fails
  rw [Bool.and_eq_true] at wanted
  obtain ⟨live, acts⟩ := wanted
  cases found : cfg.wans[row.index.toNat]? with
  | none => simp [found] at acts
  | some wan =>
    simp only [found, Option.any_some, Bool.or_eq_true, decide_eq_true_eq] at acts fails
    by_cases missing : env wan.ifname = .noInterface
    · simp [attachRow, live, found, missing, SameSlots.mk]
    have no_slot : (w.fwd.pair.dpSlotLive wan.ifname).isSome = false := by
      simpa using acts.resolve_left missing
    cases alloc : w.fwd.pair.allocWanSlot with
    | none => simp [attachRow, live, found, missing, no_slot, alloc, SameSlots.mk]
    | some di =>
      cases result : env wan.ifname with
      | noInterface => exact absurd result missing
      | noRings => simp [attachRow, live, found, no_slot, alloc, result, SameSlots.mk]
      | noPlumb => simp [attachRow, live, found, no_slot, alloc, result, SameSlots.mk]
      | noBind =>
        rw [attachRow]
        simp only [live, found, no_slot, alloc, result, Bool.false_eq_true, if_false,
          reduceCtorEq, Bool.true_eq_false]
        exact ⟨⟨rfl, rfl, rfl⟩, trivial⟩
      | attached => simp [alloc, result] at fails

theorem foldl_attachRow_fails {rows : List ProfileWan}
    (first : ∀ row ∈ rows.find? (w.wanted env cfg), w.comesUp env cfg row = false) :
    SameSlots w (rows.foldl (attachRow env cfg) (w, ⟨[], false⟩)).1 ∧
      (rows.foldl (attachRow env cfg) (w, ⟨[], false⟩)).2.wanAdded = [] := by
  induction rows with
  | nil => exact ⟨⟨rfl, rfl, rfl⟩, rfl⟩
  | cons row rows ih =>
    rw [List.foldl_cons]
    cases wanted : w.wanted env cfg row with
    | false =>
      rw [List.find?_cons_of_neg (by simp [wanted])] at first
      rw [attachRow_not_wanted wanted]
      exact ih first
    | true =>
      rw [List.find?_cons_of_pos wanted] at first
      obtain ⟨same, sess⟩ := attachRow_fails wanted (first row rfl)
      rw [foldl_attachRow_failed rows (by rw [sess]), sess]
      exact ⟨same, rfl⟩

/-- A reload that fails first leaves the slots as they were. -/
theorem FailsFirst.sameSlots (fails : w.FailsFirst env cfg)
    (failed : (w.reloadWans now env cfg).2 = false) :
    SameSlots w (w.reloadWans now env cfg).1 := by
  have quiet : w.configureLiveDrains now w.fwd.cfg cfg = w := by
    have drains : w.drainAt now w.fwd.cfg cfg = w.s.drains := by
      funext dp
      by_cases inside : dp < w.fwd.wanCount
      · simp [drainAt, fails.no_drain dp inside]
      · simp [drainAt, startsDrain, inside]
    rw [configureLiveDrains, drains]
  have sync : (w.syncWanLive env cfg).2 = false → SameSlots w (w.syncWanLive env cfg).1 := by
    have first := fails.first
    unfold syncWanLive
    cases profiles : cfg.profiles with
    | nil => simp
    | cons p rest =>
      dsimp only
      split
      · simp
      · obtain ⟨same, none_added⟩ :=
          foldl_attachRow_fails (first p (by rw [profiles]; rfl))
        generalize p.wans.foldl (attachRow env cfg) (w, ⟨[], false⟩) = final at same none_added ⊢
        obtain ⟨w', sess⟩ := final
        dsimp only at same none_added ⊢
        cases sess.validateFailed with
        | false => simp [none_added]
        | true =>
          rw [if_pos rfl, none_added]
          exact fun _ => ⟨same.cfg, same.wanCfgIdx, same.s⟩
  unfold reloadWans at failed ⊢
  dsimp only at failed ⊢
  rw [quiet] at failed ⊢
  generalize w.syncWanLive env cfg = synced at sync failed ⊢
  cases attached : synced.2 with
  | false =>
    rw [if_pos rfl]
    exact sync attached
  | true => simp [attached] at failed

end NeEncryptor.Wan.WanState
