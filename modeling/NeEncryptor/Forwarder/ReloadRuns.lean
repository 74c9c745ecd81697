import NeEncryptor.Forwarder.ConfigReload
import NeEncryptor.Forwarder.WanRuns

/-!
# Runs of hot reloads

What the return code of a reload says about the dataplane, in every interleaving of the caller with
the TX thread.  It says what it should as long as a failed attachment leaves nothing behind, and the
caller never looks for the result while the TX thread is still at work.
-/

namespace NeEncryptor.Reload

open Transition

variable {n : ℕ}

/-- What a failed reload has to leave as it was. -/
structure Same (a b : Dataplane n) : Prop where
  slots : Wan.WanState.SameSlots a.w b.w
  rt : b.rt = a.rt

theorem Same.refl (a : Dataplane n) : Same a a := ⟨⟨rfl, rfl, rfl⟩, rfl⟩

/-- The WAN part of the reload is done. -/
def WansApplied (cfg : Config) (before after : Wan.WanState) : Prop :=
  ∃ now env, (before.reloadWans now env cfg.wan).2 = true ∧
    after = (before.reloadWans now env cfg.wan).1

/-- The reload is done. -/
structure Applied (cfg : Config) (before after : Dataplane n) : Prop where
  wans : WansApplied cfg before.w after.w
  crypto : ∃ now₁ now₂ views, after.rt =
    (before.rt.fwdCryptoSnapshotActiveToPrev now₁ profileReloadGraceMs).fwdCryptoRebuild
      now₂ views cfg.crypto

def Caller.isLeaving : Caller n → Bool
  | .leaving _ _ => true
  | _ => false

def TxThread.isIdle : TxThread → Bool
  | .idle => true
  | _ => false

/-- The configuration that the TX thread has fetched and not started on. -/
def TxThread.reloads : TxThread → Option Config
  | .reloading cfg => some cfg
  | _ => none

theorem TxThread.eq_idle {tx : TxThread} (idle : tx.isIdle = true) : tx = .idle := by
  cases tx with
  | idle => rfl
  | _ => cases idle

namespace World

variable (r : World n)

/-- The configurations that the callers were told to be applied. -/
def accepted : List Config := (r.calls.filter fun c => c.rc = 0).map Call.cfg

/-- The configuration of the call that is under way. -/
def current : List Config :=
  match r.caller with
  | .idle => []
  | .entered cfg _ | .posting cfg _ | .clearing cfg _ | .raising cfg _ | .waiting cfg _
  | .leaving cfg _ | .returning cfg _ _ => [cfg]

/-- A call that failed has changed nothing, and one that succeeded has applied its configuration.
Exactly the configurations that were accepted are applied, each once; the one of the call under way
may be applied already.  Between the calls nothing changes. -/
structure Sound : Prop where
  unchanged : ∀ c ∈ r.calls, c.rc ≠ 0 → Same c.before c.after
  complete : ∀ c ∈ r.calls, c.rc = 0 → Applied c.cfg c.before c.after
  once : r.applied = r.accepted ∨ r.applied = r.accepted ++ r.current
  still : r.current = [] → ∀ c ∈ r.calls.getLast?, r.dp = c.after

/-- No reload has touched the dataplane. -/
def Untouched (before : Dataplane n) : Prop := r.dp = before ∧ r.applied = r.accepted

/-- `forwarder_reload_config_impl` has come to an end. -/
def Ended (cfg : Config) (before : Dataplane n) (rc : ℤ) : Prop :=
  (rc ≠ 0 → Same before r.dp ∧ r.applied = r.accepted) ∧
    (rc = 0 → Applied cfg before r.dp ∧ r.applied = r.accepted ++ [cfg])

/-- The TX thread works on the configuration that the caller waits for. -/
def Working (cfg : Config) (before : Dataplane n) : Prop :=
  match r.tx with
  | .idle => r.done = false ∧ r.Untouched before ∨
      r.pending = false ∧ r.done = true ∧ r.Ended cfg before r.rc
  | .seen => r.done = false ∧ r.Untouched before
  | .reloading c => c = cfg ∧ r.done = false ∧ r.Untouched before
  | .snapshotting c => c = cfg ∧ r.done = false ∧ WansApplied cfg before.w r.dp.w ∧
      r.dp.rt = before.rt ∧ r.applied = r.accepted
  | .rebuilding c => c = cfg ∧ r.done = false ∧ WansApplied cfg before.w r.dp.w ∧
      (∃ now, r.dp.rt = before.rt.fwdCryptoSnapshotActiveToPrev now profileReloadGraceMs) ∧
      r.applied = r.accepted
  | .applied rc => r.done = false ∧ r.Ended cfg before rc
  | .lowering => r.done = false ∧ r.Ended cfg before r.rc
  | .signalling => r.pending = false ∧ r.done = false ∧ r.Ended cfg before r.rc

/-- No request stands. -/
def Quiet : Prop := r.tx = .idle ∧ r.pending = false

/-- The caller and the TX thread agree on the request. -/
def Agrees : Prop :=
  match r.caller with
  | .idle => r.Quiet ∧ r.applied = r.accepted
  | .entered _ before | .posting _ before => r.Quiet ∧ r.Untouched before
  | .clearing cfg before => r.Quiet ∧ r.Untouched before ∧ r.posted = some cfg
  | .raising cfg before => r.Quiet ∧ r.Untouched before ∧ r.posted = some cfg ∧ r.done = false
  | .waiting cfg before => r.posted = some cfg ∧ r.Working cfg before
  | .leaving cfg before => r.posted = some cfg ∧ r.Working cfg before ∧
      (r.tx = .idle → r.pending = false)
  | .returning cfg before rc => r.Quiet ∧
      (r.done = false ∧ r.Untouched before ∨ r.done = true ∧ r.Ended cfg before rc)

/-- The calls so far, and the request under way. -/
structure Inv : Prop where
  unchanged : ∀ c ∈ r.calls, c.rc ≠ 0 → Same c.before c.after
  complete : ∀ c ∈ r.calls, c.rc = 0 → Applied c.cfg c.before c.after
  still : r.current = [] → ∀ c ∈ r.calls.getLast?, r.dp = c.after
  agrees : r.Agrees

/-- A failed attachment leaves nothing behind, and the caller does not read the result of a TX thread
at work. -/
def Clean : Action → Prop
  | .caller => r.caller.isLeaving = true → r.tx.isIdle = true
  | .tx now env _ => ∀ cfg ∈ r.tx.reloads, (r.dp.w.reloadWans now env cfg.wan).2 = false →
      r.dp.w.FailsFirst env cfg.wan
  | .call _ _ | .timeout => True

instance : (a : Action) → Decidable (r.Clean a)
  | .caller => inferInstanceAs (Decidable (r.caller.isLeaving = true → r.tx.isIdle = true))
  | .tx now env _ => inferInstanceAs (Decidable (∀ cfg ∈ r.tx.reloads,
      (r.dp.w.reloadWans now env cfg.wan).2 = false → r.dp.w.FailsFirst env cfg.wan))
  | .call _ _ | .timeout => isTrue trivial

variable {r} {r' : World n} {cfg : Config} {before : Dataplane n}

theorem Ended.once {rc : ℤ} (ended : r.Ended cfg before rc) :
    r.applied = r.accepted ∨ r.applied = r.accepted ++ [cfg] := by
  by_cases zero : rc = 0
  · exact .inr (ended.2 zero).2
  · exact .inl (ended.1 zero).2

theorem Working.once (working : r.Working cfg before) :
    r.applied = r.accepted ∨ r.applied = r.accepted ++ [cfg] := by
  unfold Working at working
  split at working
  · rcases working with ⟨-, untouched⟩ | ⟨-, -, ended⟩
    · exact .inl untouched.2
    · exact ended.once
  · exact .inl working.2.2
  · exact .inl working.2.2.2
  · exact .inl working.2.2.2.2
  · exact .inl working.2.2.2.2
  · exact working.2.once
  · exact working.2.once
  · exact working.2.2.once

theorem Inv.sound (inv : r.Inv) : r.Sound where
  unchanged := inv.unchanged
  complete := inv.complete
  still := inv.still
  once := by
    have agrees := inv.agrees
    unfold Agrees at agrees
    unfold current
    split at agrees
    · exact .inl agrees.2
    · exact .inl agrees.2.2
    · exact .inl agrees.2.2
    · exact .inl agrees.2.1.2
    · exact .inl agrees.2.1.2
    · exact agrees.2.once
    · exact agrees.2.1.once
    · rcases agrees.2 with ⟨-, untouched⟩ | ⟨-, ended⟩
      · exact .inl untouched.2
      · exact ended.once

theorem Untouched.ended (untouched : r.Untouched before) : r.Ended cfg before (-1) :=
  ⟨fun _ => ⟨untouched.1 ▸ .refl _, untouched.2⟩, fun zero => by cases zero⟩

/-- The call returns what the TX thread came to. -/
theorem Inv.finish {rc : ℤ} (inv : r.Inv) (quiet : r.Quiet) (ended : r.Ended cfg before rc) :
    (r.finish cfg before rc).Inv where
  unchanged := fun c returned failed => by
    rcases List.mem_append.mp returned with earlier | last
    · exact inv.unchanged c earlier failed
    · obtain rfl := List.mem_singleton.mp last
      exact (ended.1 failed).1
  complete := fun c returned succeeded => by
    rcases List.mem_append.mp returned with earlier | last
    · exact inv.complete c earlier succeeded
    · obtain rfl := List.mem_singleton.mp last
      exact (ended.2 succeeded).1
  still := fun _ c last => by
    have same : (r.finish cfg before rc).calls.getLast? = some ⟨cfg, rc, before, r.dp⟩ :=
      List.getLast?_concat
    rw [same] at last
    cases last
    rfl
  agrees := by
    refine ⟨quiet, ?_⟩
    show r.applied = ((r.calls ++ [Call.mk cfg rc before r.dp]).filter fun c => c.rc = 0).map _
    rw [List.filter_append, List.map_append]
    by_cases zero : rc = 0
    · simpa [accepted, zero] using (ended.2 zero).2
    · simpa [accepted, zero] using (ended.1 zero).2

/-- A step inside a call leaves the calls that returned. -/
theorem Inv.during (inv : r.Inv) (calls : r'.calls = r.calls) (busy : r'.current ≠ [])
    (agrees : r'.Agrees) : r'.Inv where
  unchanged := calls ▸ inv.unchanged
  complete := calls ▸ inv.complete
  still := fun idle => absurd idle busy
  agrees := agrees

theorem inv_call {ready : Bool} (inv : r.Inv) (enabled : r.call cfg ready = some r') : r'.Inv := by
  have agrees := inv.agrees
  unfold call at enabled
  unfold Agrees at agrees
  split at enabled
  · rename_i idle
    rw [idle] at agrees
    have untouched : r.Untouched r.dp := ⟨rfl, agrees.2⟩
    split at enabled
    · cases enabled
      exact inv.during rfl (by simp [current]) ⟨agrees.1, untouched⟩
    · cases enabled
      exact inv.finish agrees.1 untouched.ended
  · cases enabled

/-- A caller that leaves the loop has the result before it, or has given up. -/
theorem Working.done (working : r.Working cfg before) (done : r.done = true) :
    r.tx = .idle ∧ r.pending = false ∧ r.Ended cfg before r.rc := by
  unfold Working at working
  split at working
  · rename_i idle
    rcases working with ⟨waits, -⟩ | ⟨lowered, -, ended⟩
    · simp [done] at waits
    · exact ⟨idle, lowered, ended⟩
  all_goals simp [done] at working

theorem inv_callerStep (inv : r.Inv) (clean : r.Clean .caller)
    (enabled : r.callerStep = some r') : r'.Inv := by
  have agrees := inv.agrees
  unfold callerStep at enabled
  unfold Agrees at agrees
  unfold Clean at clean
  split at enabled
  · cases enabled
  · rename_i cfg before here
    rw [here] at agrees
    obtain ⟨quiet, untouched⟩ := agrees
    split at enabled
    · cases enabled
      exact inv.finish quiet untouched.ended
    · cases enabled
      exact inv.during rfl (by simp [current]) ⟨quiet, untouched⟩
  · rename_i cfg before here
    rw [here] at agrees
    cases enabled
    exact inv.during rfl (by simp [current]) ⟨agrees.1, agrees.2, rfl⟩
  · rename_i cfg before here
    rw [here] at agrees
    cases enabled
    exact inv.during rfl (by simp [current]) ⟨agrees.1, agrees.2.1, agrees.2.2, rfl⟩
  · rename_i cfg before here
    rw [here] at agrees
    obtain ⟨quiet, untouched, posted, cleared⟩ := agrees
    cases enabled
    refine inv.during rfl (by simp [current]) ⟨posted, ?_⟩
    simp only [Working, quiet.1]
    exact .inl ⟨cleared, untouched⟩
  · rename_i cfg before here
    rw [here] at agrees
    obtain ⟨posted, working⟩ := agrees
    split at enabled
    · rename_i done
      cases enabled
      exact inv.during rfl (by simp [current]) ⟨posted, working, fun _ => (working.done done).2.1⟩
    · cases enabled
  · rename_i cfg before here
    rw [here] at agrees
    obtain ⟨posted, working, lowered⟩ := agrees
    have idle : r.tx = .idle := TxThread.eq_idle (clean (by rw [here]; rfl))
    cases enabled
    refine inv.during rfl (by simp [current]) ⟨⟨idle, lowered idle⟩, ?_⟩
    unfold Working at working
    rw [idle] at working
    exact working.imp_right And.right
  · rename_i cfg before rc here
    rw [here] at agrees
    obtain ⟨quiet, gave_up | ended⟩ := agrees
    · rw [gave_up.1] at enabled
      cases enabled
      exact inv.finish quiet gave_up.2.ended
    · rw [ended.1] at enabled
      cases enabled
      exact inv.finish quiet ended.2

theorem inv_timeout (inv : r.Inv) (enabled : r.timeout = some r') : r'.Inv := by
  have agrees := inv.agrees
  unfold timeout at enabled
  unfold Agrees at agrees
  split at enabled
  · rename_i cfg before here
    rw [here] at agrees
    obtain ⟨posted, working⟩ := agrees
    cases enabled
    refine inv.during rfl (by simp [current]) ⟨posted, ?_, fun _ => rfl⟩
    unfold Working at working ⊢
    dsimp only
    split at working
    · exact working.imp_right fun h => ⟨rfl, h.2⟩
    · exact working
    · exact working
    · exact working
    · exact working
    · exact working
    · exact working
    · exact ⟨rfl, working.2⟩
  · cases enabled

/-- The request is the caller's until the TX thread is through with it. -/
theorem Working.txStep {now : ℕ} {env : String → Wan.AttachResult} {views : ℕ → KeyView}
    (working : r.Working cfg before) (posted : r.posted = some cfg)
    (clean : r.Clean (.tx now env views)) (enabled : r.txStep now env views = some r') :
    r'.Working cfg before ∧ (r'.tx = .idle → r'.pending = false) := by
  unfold World.txStep at enabled
  unfold Clean at clean
  unfold Working at working
  split at enabled
  · rename_i idle
    rw [idle] at working
    split at enabled
    · rename_i pending
      cases enabled
      rcases working with ⟨cleared, untouched⟩ | ⟨lowered, -⟩
      · exact ⟨⟨cleared, untouched⟩, fun h => by cases h⟩
      · simp [pending] at lowered
    · cases enabled
  · rename_i seen
    rw [seen] at working
    rw [posted] at enabled
    cases enabled
    exact ⟨⟨rfl, working⟩, fun h => by cases h⟩
  · rename_i c reloading
    rw [reloading] at working
    obtain ⟨rfl, cleared, same, once⟩ := working
    have clean := clean c (by rw [reloading]; rfl)
    dsimp only at enabled
    cases enabled
    cases attached : (r.dp.w.reloadWans now env c.wan).2 with
    | true =>
      simp only [Working, if_true]
      exact ⟨⟨trivial, cleared, ⟨now, env, same ▸ attached, by rw [same]⟩, by rw [same], once⟩,
        fun h => by cases h⟩
    | false =>
      have slots := (clean attached).sameSlots attached
      simp only [Working, Bool.false_eq_true, if_false]
      refine ⟨⟨cleared, fun _ => ⟨⟨?_, by rw [same]⟩, once⟩, fun zero => by cases zero⟩,
        fun h => by cases h⟩
      rw [← same]
      exact slots
  · rename_i c snapshotting
    rw [snapshotting] at working
    obtain ⟨rfl, cleared, wans, same, once⟩ := working
    cases enabled
    exact ⟨⟨rfl, cleared, wans, ⟨now, by rw [same]⟩, once⟩, fun h => by cases h⟩
  · rename_i c rebuilding
    rw [rebuilding] at working
    obtain ⟨rfl, cleared, wans, ⟨earlier, snapshot⟩, once⟩ := working
    cases enabled
    refine ⟨⟨cleared, fun h => absurd rfl h, fun _ => ⟨⟨wans, earlier, now, views, ?_⟩, ?_⟩⟩,
      fun h => by cases h⟩
    · show r.dp.rt.fwdCryptoRebuild now views c.crypto = _
      rw [snapshot]
    · show r.applied ++ [c] = r.accepted ++ [c]
      rw [once]
  · rename_i rc applied
    rw [applied] at working
    cases enabled
    exact ⟨working, fun h => by cases h⟩
  · rename_i lowering
    rw [lowering] at working
    cases enabled
    exact ⟨⟨rfl, working⟩, fun h => by cases h⟩
  · rename_i signalling
    rw [signalling] at working
    cases enabled
    exact ⟨.inr ⟨working.1, rfl, working.2.2⟩, fun _ => working.1⟩

/-- The TX thread stands still where no request stands. -/
theorem Quiet.txStep {now : ℕ} {env : String → Wan.AttachResult} {views : ℕ → KeyView}
    (quiet : r.Quiet) : r.txStep now env views = none := by
  simp [World.txStep, quiet.1, quiet.2]

theorem txStep_frame {now : ℕ} {env : String → Wan.AttachResult} {views : ℕ → KeyView}
    (enabled : r.txStep now env views = some r') :
    r'.caller = r.caller ∧ r'.calls = r.calls ∧ r'.posted = r.posted := by
  unfold World.txStep at enabled
  dsimp only at enabled
  split at enabled
  · split at enabled
    · cases enabled
      exact ⟨rfl, rfl, rfl⟩
    · cases enabled
  · split at enabled
    all_goals
      cases enabled
      exact ⟨rfl, rfl, rfl⟩
  all_goals
    cases enabled
    exact ⟨rfl, rfl, rfl⟩

theorem inv_txStep {now : ℕ} {env : String → Wan.AttachResult} {views : ℕ → KeyView}
    (inv : r.Inv) (clean : r.Clean (.tx now env views))
    (enabled : r.txStep now env views = some r') : r'.Inv := by
  have agrees := inv.agrees
  obtain ⟨caller, calls, posted⟩ := txStep_frame enabled
  unfold Agrees at agrees
  have moves : ¬ r.Quiet := fun quiet => by
    rw [quiet.txStep] at enabled
    cases enabled
  split at agrees
  · exact absurd agrees.1 moves
  · exact absurd agrees.1 moves
  · exact absurd agrees.1 moves
  · exact absurd agrees.1 moves
  · exact absurd agrees.1 moves
  · rename_i cfg before here
    have working := agrees.2.txStep agrees.1 clean enabled
    refine inv.during calls (by simp [current, caller, here]) ?_
    simp only [Agrees, caller, here]
    exact ⟨posted.trans agrees.1, working.1⟩
  · rename_i cfg before here
    have working := agrees.2.1.txStep agrees.1 clean enabled
    refine inv.during calls (by simp [current, caller, here]) ?_
    simp only [Agrees, caller, here]
    exact ⟨posted.trans agrees.1, working⟩
  · exact absurd agrees.1 moves

theorem inv_step {a : Action} (inv : r.Inv) (clean : r.Clean a) (enabled : r.step a = some r') :
    r'.Inv := by
  cases a with
  | call cfg ready => exact inv_call inv enabled
  | caller => exact inv_callerStep inv clean enabled
  | timeout => exact inv_timeout inv enabled
  | tx now env views => exact inv_txStep inv clean enabled

theorem inv_init (dp : Dataplane n) : (init dp).Inv where
  unchanged := fun _ returned => absurd returned List.not_mem_nil
  complete := fun _ returned => absurd returned List.not_mem_nil
  still := fun _ _ last => by cases last
  agrees := ⟨⟨rfl, rfl⟩, rfl⟩

/-- A reload that fails changes nothing, and one that succeeds is applied once, in every run in which
failed attachments leave nothing behind and no caller leaves a TX thread at work. -/
theorem reloads_sound {dp : Dataplane n} (run : ReachableWith step Clean (init dp) r) : r.Sound :=
  (run.invariant (I := Inv) (inv_init dp)
    fun _ _ _ inv clean enabled => inv_step inv clean enabled).sound

/-- Two WANs of one profile, without crypto. -/
def sampleCfg (first second : Bool) : Config :=
  ⟨Wan.WanRun.sampleCfg first second, ⟨false, [], []⟩⟩

def sampleInit (first second : Bool) : World 1 :=
  init ⟨.init (sampleCfg first second).wan (fun _ => false) .initial, .initial⟩

/-- A whole call, in which attachments end with `result` and the TX thread makes `steps` steps. -/
def sampleReload (cfg : Config) (result : Wan.AttachResult) (steps : ℕ) : List Action :=
  .call cfg true :: List.replicate 4 .caller ++
    List.replicate steps (.tx 0 (fun _ => result) fun _ _ => none) ++ List.replicate 3 .caller

/-- A WAN leaves. -/
theorem reloads_sound_sample : ∃ r, ReachableWith step Clean (sampleInit true true) r ∧
    r.calls.map Call.rc = [0] ∧ r.Sound := by
  have run : ((runWith step Clean (sampleInit true true)
      (sampleReload (sampleCfg true false) .attached 8)).any
        fun r : World 1 => decide (r.calls.map Call.rc = [0])) = true := by decide +kernel
  obtain ⟨r, ends, returned⟩ := (Option.any_eq_true _ _).mp run
  have reached := ReachableWith.of_runWith _ ends
  exact ⟨r, reached, of_decide_eq_true returned, reloads_sound reached⟩

/-- One WAN leaves and the other cannot join: the reload fails, and a drain has started. -/
theorem not_always_sound :
    ¬ ∀ (dp : Dataplane 1) r, Reachable step (init dp) r → r.Sound := by
  intro always
  have ends : ((run step (sampleInit true false)
      (sampleReload (sampleCfg false true) .noInterface 6)).any fun r : World 1 =>
        r.calls.any fun c => decide (c.rc ≠ 0) && !(c.before.w.s.drains 0).active &&
          (c.after.w.s.drains 0).active) = true := by decide +kernel
  obtain ⟨r, reached, bad⟩ := exists_reachable_of_run _ ends
  obtain ⟨c, returned, bad⟩ := List.any_eq_true.mp bad
  simp only [Bool.and_eq_true, decide_eq_true_eq, Bool.not_eq_true'] at bad
  have same := (always _ r reached).unchanged c returned bad.1.1
  rw [same.slots.s, bad.1.2] at bad
  exact absurd bad.2 (by decide)

end World

end NeEncryptor.Reload
