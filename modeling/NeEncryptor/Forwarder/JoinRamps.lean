import Mathlib.Data.Int.Interval
import NeEncryptor.Forwarder.PoolWeights
import NeEncryptor.Lib.Ways

/-!
# Join ramps

A WAN that an administrator brings back takes its weight step by step over `WAN_DRAIN_GRACE_MS`.
The slots of `wan_joins` hold one ramp for each WAN, and a ramp runs its course whatever ramps of
other WANs begin and end.
-/

namespace NeEncryptor.Wan

namespace Scheduler

variable {s : Scheduler} {now : ℕ} {cfgWan : ℤ}

/-- The slot of `fwd_wan_join_ramp_begin`: the one of the WAN, or else the first that is free. -/
def joinSlot (s : Scheduler) (cfgWan : ℤ) : Option ℕ :=
  ((List.range maxInterfaces).find? fun i =>
    (s.joins i).active && decide ((s.joins i).cfgWan = cfgWan)).or
      ((List.range maxInterfaces).find? fun i => !(s.joins i).active)

/-- `fwd_wan_join_ramp_begin`. -/
def joinRampBegin (s : Scheduler) (now : ℕ) (cfgWan : ℤ) : Scheduler :=
  if cfgWan < 0 then s
  else
    match s.joinSlot cfgWan with
    | none => s
    | some slot =>
      { s with
        joins := Function.update s.joins slot ⟨true, cfgWan, now, now + wanDrainGraceMs⟩ }

/-- `fwd_wan_join_ramp_tick`. -/
def joinRampTick (s : Scheduler) (now : ℕ) : Scheduler :=
  { s with
    joins := fun i =>
      if i < maxInterfaces ∧ (s.joins i).active = true ∧ (s.joins i).untilMs ≤ now then
        { s.joins i with active := false }
      else s.joins i }

/-- `fwd_wan_weight_blend_tick`. -/
def weightBlendTick (s : Scheduler) (now : ℕ) : Scheduler :=
  let s : Scheduler :=
    if s.blend.active = true ∧ 100 ≤ s.blendProgress now then
      { s with blend := { s.blend with active := false } }
    else s
  s.joinRampTick now

/-- What moves the ramps: a WAN that is brought back, and the tick of the maintenance. -/
inductive RampOp
  | begins (now : ℕ) (cfgWan : ℤ)
  | tick (now : ℕ)
  deriving DecidableEq, Repr

namespace RampOp

def apply (s : Scheduler) : RampOp → Scheduler
  | begins now cfgWan => s.joinRampBegin now cfgWan
  | tick now => s.weightBlendTick now

/-- The clock at the call. -/
def time : RampOp → ℕ
  | begins now _ => now
  | tick now => now

/-- The WAN of a ramp is one of the configuration. -/
def InConfig : RampOp → Prop
  | begins _ cfgWan => 0 ≤ cfgWan ∧ cfgWan < maxInterfaces
  | tick _ => True

/-- No ramp of this WAN begins. -/
def Leaves (cfgWan : ℤ) : RampOp → Prop
  | begins _ other => other ≠ cfgWan
  | tick _ => True

end RampOp

def runRamps (s : Scheduler) (ops : List RampOp) : Scheduler := ops.foldl RampOp.apply s

/-! ## The slots -/

/-- The ramp of a slot that is in use. -/
def inUse (join : WanJoin) : Option WanJoin := if join.active then some join else none

/-- The ramps in their slots. -/
def ramps (s : Scheduler) (i : Fin maxInterfaces) : Option WanJoin := inUse (s.joins i)

/-- The ramp of a WAN. -/
def rampOf (s : Scheduler) (cfgWan : ℤ) : Option WanJoin := Ways.entry WanJoin.cfgWan s.ramps cfgWan

/-- How far a ramp is. -/
def rampPct (now : ℕ) (join : WanJoin) : ℕ :=
  if join.untilMs ≤ now then 100
  else if join.untilMs - join.startMs = 0 then 100
  else (now - join.startMs) * 100 / (join.untilMs - join.startMs)

theorem ramps_eq_some {i : Fin maxInterfaces} {join : WanJoin} (here : s.ramps i = some join) :
    s.joins i = join ∧ (s.joins i).active = true := by
  unfold ramps inUse at here
  split at here
  · rename_i active
    exact ⟨Option.some.inj here, active⟩
  · cases here

theorem ramps_eq_none_iff {i : Fin maxInterfaces} :
    s.ramps i = none ↔ (s.joins i).active = false := by
  unfold ramps inUse
  split
  · rename_i active
    simp [active]
  · rename_i off
    simp [off]

/-- A search of the slots, as a search of the ways. -/
theorem find_slots (wanted : ℕ → Bool) :
    (List.range maxInterfaces).find? wanted =
      ((List.finRange maxInterfaces).find? fun i : Fin maxInterfaces => wanted i).map Fin.val := by
  rw [← List.map_coe_finRange_eq_range, List.find?_map]
  rfl

theorem find_own (s : Scheduler) (cfgWan : ℤ) :
    ((List.range maxInterfaces).find? fun i =>
      (s.joins i).active && decide ((s.joins i).cfgWan = cfgWan)) =
        (Ways.find WanJoin.cfgWan s.ramps cfgWan).map Fin.val := by
  have carries (i : Fin maxInterfaces) :
      Ways.carries WanJoin.cfgWan s.ramps cfgWan i =
        ((s.joins i).active && decide ((s.joins i).cfgWan = cfgWan)) := by
    unfold Ways.carries ramps inUse
    cases (s.joins i).active with
    | true => rfl
    | false => rfl
  rw [find_slots, Ways.find, funext carries]

theorem joinRampPct_eq (s : Scheduler) (now : ℕ) (known : 0 ≤ cfgWan) :
    s.joinRampPct now cfgWan = (s.rampOf cfgWan).map (rampPct now) := by
  rw [joinRampPct, if_neg (not_lt.mpr known), find_own, rampOf, Ways.entry]
  cases found : Ways.find WanJoin.cfgWan s.ramps cfgWan with
  | none => rfl
  | some i =>
    obtain ⟨join, here, -⟩ := Ways.find_some found
    rw [Option.bind_some, here, ← (ramps_eq_some here).1]
    rfl

/-! ## One step -/

/-- One ramp for a WAN, and only for WANs of the configuration. -/
structure Ramps (s : Scheduler) : Prop where
  distinct : Ways.Distinct WanJoin.cfgWan s.ramps
  known : ∀ i join, s.ramps i = some join → 0 ≤ join.cfgWan ∧ join.cfgWan < maxInterfaces

theorem ramps_update (s : Scheduler) (i : Fin maxInterfaces) (join : WanJoin)
    (active : join.active = true) :
    ({ s with joins := Function.update s.joins i join } : Scheduler).ramps =
      Function.update s.ramps i (some join) := by
  funext j
  unfold ramps
  dsimp only
  by_cases here : j = i
  · subst here
    rw [Function.update_self, Function.update_self, inUse, if_pos active]
  · rw [Function.update_of_ne here, Function.update_of_ne (fun same => here (Fin.ext same))]

/-- There is always a slot: as many as WANs. -/
theorem Ramps.slot (ramps : s.Ramps) (known : 0 ≤ cfgWan ∧ cfgWan < maxInterfaces) :
    ∃ i : Fin maxInterfaces, s.joinSlot cfgWan = some i.val ∧
      Ways.Fits WanJoin.cfgWan s.ramps cfgWan i := by
  rw [joinSlot, find_own, find_slots]
  cases found : Ways.find WanJoin.cfgWan s.ramps cfgWan with
  | some i => exact ⟨i, rfl, .inl found⟩
  | none =>
    have inside : ∀ i join, s.ramps i = some join →
        join.cfgWan ∈ Finset.Ico (0 : ℤ) maxInterfaces := fun i join here =>
      Finset.mem_Ico.mpr (ramps.known i join here)
    obtain ⟨i, free⟩ := Ways.exists_free ramps.distinct inside
      (by rw [Int.card_Ico]; exact le_rfl) (Finset.mem_Ico.mpr known) found
    cases first : (List.finRange maxInterfaces).find? fun i : Fin maxInterfaces =>
        !(s.joins i).active with
    | none =>
      have busy := List.find?_eq_none.mp first i (List.mem_finRange i)
      rw [ramps_eq_none_iff.mp free] at busy
      exact absurd rfl busy
    | some j =>
      have off : (s.joins j).active = false := by simpa using List.find?_some first
      exact ⟨j, rfl, .inr ⟨found, ramps_eq_none_iff.mpr off⟩⟩

theorem Ramps.begins (ramps : s.Ramps) (now : ℕ) (known : 0 ≤ cfgWan ∧ cfgWan < maxInterfaces) :
    (s.joinRampBegin now cfgWan).Ramps ∧ (s.joinRampBegin now cfgWan).rampOf =
      Function.update s.rampOf cfgWan (some ⟨true, cfgWan, now, now + wanDrainGraceMs⟩) := by
  obtain ⟨i, slot, fits⟩ := ramps.slot known
  have began : s.joinRampBegin now cfgWan =
      { s with joins := Function.update s.joins i ⟨true, cfgWan, now, now + wanDrainGraceMs⟩ } := by
    rw [joinRampBegin, if_neg (not_lt.mpr known.1), slot]
  have ways := ramps_update s i ⟨true, cfgWan, now, now + wanDrainGraceMs⟩ rfl
  rw [began]
  refine ⟨⟨?_, fun j join here => ?_⟩, funext fun other => ?_⟩
  · rw [ways]
    exact fits.distinct rfl ramps.distinct
  · rw [ways] at here
    by_cases atSlot : j = i
    · subst atSlot
      rw [Function.update_self] at here
      cases here
      exact known
    · rw [Function.update_of_ne atSlot] at here
      exact ramps.known j join here
  · rw [rampOf, ways]
    by_cases same : other = cfgWan
    · subst same
      rw [Function.update_self, fits.entry_self rfl]
    · rw [Function.update_of_ne same, fits.entry_other rfl same]
      rfl

theorem ramps_joinRampTick (s : Scheduler) (now : ℕ) :
    (s.joinRampTick now).ramps = Ways.sweep (fun join => decide (now < join.untilMs)) s.ramps := by
  funext i
  rw [ramps, joinRampTick, Ways.sweep, ramps]
  dsimp only
  by_cases active : (s.joins i).active = true
  · by_cases passed : (s.joins i).untilMs ≤ now
    · rw [if_pos ⟨i.2, active, passed⟩, inUse, inUse, if_pos active,
        if_neg Bool.false_ne_true, Option.filter_some, if_neg (by simpa using passed)]
    · rw [if_neg fun ends => passed ends.2.2, inUse, if_pos active, Option.filter_some,
        if_pos (by simpa using passed)]
  · rw [if_neg fun ends => active ends.2.1, inUse, if_neg active]
    rfl

/-- The end of a blend is no matter of the ramps. -/
theorem ramps_weightBlendTick (s : Scheduler) (now : ℕ) :
    (s.weightBlendTick now).ramps =
      Ways.sweep (fun join => decide (now < join.untilMs)) s.ramps := by
  rw [weightBlendTick]
  dsimp only
  rw [ramps_joinRampTick]
  split
  · rfl
  · rfl

theorem Ramps.tick (ramps : s.Ramps) (now : ℕ) :
    (s.weightBlendTick now).Ramps ∧ ∀ cfgWan, (s.weightBlendTick now).rampOf cfgWan =
      (s.rampOf cfgWan).filter fun join => decide (now < join.untilMs) := by
  have ways := ramps_weightBlendTick s now
  refine ⟨⟨?_, fun i join here => ?_⟩, fun cfgWan => ?_⟩
  · rw [ways]
    exact ramps.distinct.sweep
  · rw [ways] at here
    exact ramps.known i join (Ways.sweep_eq_some_iff.mp here).1
  · rw [rampOf, ways, Ways.entry_sweep ramps.distinct]
    rfl

/-! ## Runs -/

theorem Ramps.apply (ramps : s.Ramps) {op : RampOp} (config : op.InConfig) :
    (op.apply s).Ramps := by
  cases op with
  | begins now cfgWan => exact (ramps.begins now config).1
  | tick now => exact (ramps.tick now).1

theorem Ramps.run (ramps : s.Ramps) {ops : List RampOp} (config : ∀ op ∈ ops, op.InConfig) :
    (s.runRamps ops).Ramps := by
  induction ops generalizing s with
  | nil => exact ramps
  | cons op ops ih =>
    exact ih (ramps.apply (config op List.mem_cons_self))
      fun later mem => config later (List.mem_cons_of_mem op mem)

/-- The ramp of the WAN runs, or has ended. -/
def Course (s : Scheduler) (now : ℕ) (join : WanJoin) : Prop :=
  s.rampOf join.cfgWan = some join ∨ s.rampOf join.cfgWan = none ∧ join.untilMs ≤ now

theorem Course.apply {join : WanJoin} (course : s.Course now join) (ramps : s.Ramps) {op : RampOp}
    (config : op.InConfig) (leaves : op.Leaves join.cfgWan) (past : op.time ≤ now) :
    (op.apply s).Course now join := by
  cases op with
  | begins t other =>
    have moved := congrFun (ramps.begins t config).2 join.cfgWan
    rw [Function.update_of_ne (Ne.symm leaves)] at moved
    exact course.imp moved.trans (And.imp_left moved.trans)
  | tick t =>
    have moved := (ramps.tick t).2 join.cfgWan
    rcases course with running | ⟨ended, passed⟩
    · rw [running, Option.filter_some] at moved
      by_cases lasts : t < join.untilMs
      · rw [if_pos (decide_eq_true lasts)] at moved
        exact .inl moved
      · rw [if_neg (by simpa using lasts)] at moved
        exact .inr ⟨moved, (not_lt.mp lasts).trans past⟩
    · rw [ended] at moved
      exact .inr ⟨moved, passed⟩

theorem Course.run {join : WanJoin} (course : s.Course now join) (ramps : s.Ramps)
    {ops : List RampOp} (config : ∀ op ∈ ops, op.InConfig)
    (leaves : ∀ op ∈ ops, op.Leaves join.cfgWan) (past : ∀ op ∈ ops, op.time ≤ now) :
    (s.runRamps ops).Course now join := by
  induction ops generalizing s with
  | nil => exact course
  | cons op ops ih =>
    have here := config op List.mem_cons_self
    exact ih (course.apply ramps here (leaves op List.mem_cons_self) (past op List.mem_cons_self))
      (ramps.apply here) (fun later mem => config later (List.mem_cons_of_mem op mem))
      (fun later mem => leaves later (List.mem_cons_of_mem op mem))
      fun later mem => past later (List.mem_cons_of_mem op mem)

theorem ramps_idle (idle : ∀ i < maxInterfaces, (s.joins i).active = false) : s.Ramps := by
  have none (i : Fin maxInterfaces) : s.ramps i = none := ramps_eq_none_iff.mpr (idle i i.2)
  refine ⟨fun i j b c here => ?_, fun i join here => ?_⟩
  · rw [none] at here
    cases here
  · rw [none] at here
    cases here

/-! ## Ticks -/

/-- A blend ends on the weights that the profile has. -/
def BlendsTo (s : Scheduler) (p : ProfileConfig) : Prop :=
  s.blend.active = true → s.blend.profileId = p.id → ∀ w ∈ p.wans, ∀ b,
    (s.blend.wans.find? fun b => b.wanCfg = w.index) = some b → b.newW = w.weight

variable {t : ℕ} {p : ProfileConfig} {w : ProfileWan}

theorem blend_lasts (lasts : ¬(s.blend.active = true ∧ 100 ≤ s.blendProgress t)) :
    (s.blend.active && !decide (100 ≤ s.blendProgress t)) = s.blend.active := by
  cases active : s.blend.active with
  | false => rfl
  | true =>
    rw [decide_eq_false fun ended => lasts ⟨active, ended⟩]
    rfl

theorem weightBlendTick_eq (s : Scheduler) (t : ℕ) :
    s.weightBlendTick t = { s with
      blend := { s.blend with active := s.blend.active && !decide (100 ≤ s.blendProgress t) }
      joins := (s.joinRampTick t).joins } := by
  rw [weightBlendTick]
  dsimp only
  split
  · rename_i ends
    rw [ends.1, decide_eq_true ends.2]
    rfl
  · rename_i lasts
    rw [blend_lasts lasts]
    rfl

/-- A blend that is over stays over. -/
theorem blendProgress_over (passed : 100 ≤ s.blendProgress t) (past : t ≤ now) :
    s.blendProgress now = 100 := by
  unfold blendProgress at passed ⊢
  split at passed
  · rename_i ended
    rw [if_pos (ended.imp_right fun later => later.trans past)]
  · rename_i runs
    split at passed
    · rename_i short
      rw [if_pos short, ite_self]
    · rename_i lasts
      have under : (t - s.blend.startMs) * 100 / (s.blend.untilMs - s.blend.startMs) < 100 :=
        Nat.div_lt_of_lt_mul (Nat.mul_lt_mul_of_pos_right (by omega) (by decide))
      exact absurd passed (not_le.mpr under)

/-- The end of a blend moves no weight. -/
theorem blended_tick (blends : s.BlendsTo p) (mem : w ∈ p.wans) (past : t ≤ now) :
    (s.weightBlendTick t).profileWanWeightBlended now p w.index w.weight =
      s.profileWanWeightBlended now p w.index w.weight := by
  rw [weightBlendTick_eq]
  by_cases ends : s.blend.active = true ∧ 100 ≤ s.blendProgress t
  · have passed := s.blendProgress_over ends.2 past
    rw [ends.1, decide_eq_true ends.2]
    unfold profileWanWeightBlended
    split
    · rfl
    · rename_i positive
      rw [if_pos (.inl rfl)]
      split
      · rfl
      · rename_i same
        cases found : s.blend.wans.find? fun b => b.wanCfg = w.index with
        | none => rfl
        | some b =>
          have new := blends ends.1 (by simpa [ends.1] using same) w mem b found
          dsimp only
          rw [passed, new]
          have whole : (b.oldW * (100 - ((100 : ℕ) : ℤ)) + w.weight * ((100 : ℕ) : ℤ)).tdiv 100 =
              w.weight := by
            rw [Nat.cast_ofNat, sub_self, mul_zero, zero_add]
            exact Int.mul_tdiv_cancel _ (by decide)
          rw [whole, if_pos (not_le.mp positive)]
  · rw [blend_lasts ends]
    rfl

/-- A ramp that is dropped was over. -/
theorem Ramps.joinRampPct_tick (ramps : s.Ramps) (past : t ≤ now) (cfgWan : ℤ) :
    (s.weightBlendTick t).joinRampPct now cfgWan = s.joinRampPct now cfgWan ∨
      (s.weightBlendTick t).joinRampPct now cfgWan = none ∧ s.joinRampPct now cfgWan = some 100 := by
  by_cases negative : cfgWan < 0
  · exact .inl ((if_pos negative).trans (if_pos negative).symm)
  · have known := not_lt.mp negative
    rw [joinRampPct_eq _ now known, joinRampPct_eq _ now known, (ramps.tick t).2]
    cases here : s.rampOf cfgWan with
    | none => exact .inl rfl
    | some join =>
      rw [Option.filter_some]
      by_cases lasts : t < join.untilMs
      · rw [if_pos (decide_eq_true lasts)]
        exact .inl rfl
      · rw [if_neg (by simpa using lasts)]
        exact .inr ⟨rfl, congrArg some (if_pos ((not_lt.mp lasts).trans past))⟩

theorem Ramps.collect_tick {fwd : Forwarder} (ramps : s.Ramps) (blends : s.BlendsTo p)
    (mem : w ∈ p.wans) (past : t ≤ now) (acc : List (ℤ × ℤ) × ℤ) :
    fwd.collectStep (s.weightBlendTick t) now p acc w = fwd.collectStep s now p acc w := by
  have live : fwd.liveDpForCfg (s.weightBlendTick t) w.index = fwd.liveDpForCfg s w.index := by
    rw [weightBlendTick_eq]
    rfl
  unfold Forwarder.collectStep
  rw [blended_tick blends mem past, live]
  rcases ramps.joinRampPct_tick past w.index with same | ⟨dropped, passed⟩
  · rw [same]
  · rw [dropped, passed]
    rfl

/-- A tick changes no pool. -/
theorem Ramps.pool_tick {fwd : Forwarder} (ramps : s.Ramps) (blends : s.BlendsTo p)
    (past : t ≤ now) (maxN : ℕ) :
    fwd.buildProfilePool (s.weightBlendTick t) now p maxN = fwd.buildProfilePool s now p maxN := by
  have draining : fwd.draining (s.weightBlendTick t) now = fwd.draining s now := by
    rw [weightBlendTick_eq]
    rfl
  have collected := List.foldl_ext (fwd.collectStep (s.weightBlendTick t) now p)
    (fwd.collectStep s now p) ([], 0) fun acc w mem => ramps.collect_tick blends mem past acc
  rw [Forwarder.buildProfilePool, Forwarder.buildProfilePool, collected, draining]

theorem BlendsTo.tick (blends : s.BlendsTo p) (t : ℕ) : (s.weightBlendTick t).BlendsTo p := by
  rw [weightBlendTick_eq]
  intro active profile
  exact blends (Bool.and_eq_true_iff.mp active).1 profile

theorem BlendsTo.apply (blends : s.BlendsTo p) (op : RampOp) : (op.apply s).BlendsTo p := by
  cases op with
  | begins now cfgWan =>
    rw [RampOp.apply, joinRampBegin]
    split
    · exact blends
    · split
      · exact blends
      · exact blends
  | tick now => exact blends.tick now

theorem BlendsTo.run (blends : s.BlendsTo p) (ops : List RampOp) :
    (s.runRamps ops).BlendsTo p := by
  induction ops generalizing s with
  | nil => exact blends
  | cons op ops ih => exact ih (blends.apply op)

end Scheduler

/-- The blend of a reload ends on the weights of the new profile. -/
theorem WanState.blendsTo_weightBlendBegin {w : WanState} {start : ℕ} {old cfg : AppConfig}
    {np : ProfileConfig} {nps : List ProfileConfig} (news : cfg.profiles = np :: nps)
    (distinct : (np.wans.map ProfileWan.index).Nodup) :
    (w.weightBlendBegin start old cfg).s.BlendsTo np := by
  intro active profile entry mem b found
  obtain ⟨i, isEntry⟩ := List.mem_iff_getElem?.mp mem
  cases olds : old.profiles with
  | nil =>
    rw [weightBlendBegin, olds] at active
    cases active
  | cons op ops =>
    have lengths : op.wans.length = np.wans.length := by
      by_contra other
      rw [weightBlendBegin, olds, news] at active
      dsimp only at active
      rw [if_pos (.inr (.inl other))] at active
      cases active
    have inside : i < op.wans.length := lengths ▸ (List.getElem?_eq_some_iff.mp isEntry).1
    have listed := (find_weightBlendBegin olds news active distinct
      (List.getElem?_eq_getElem inside) isEntry).2
    exact congrArg BlendedWan.newW (Option.some.inj (found.symm.trans listed))

open Scheduler

/-- However ramps of other WANs begin and ticks fall: from the begin of its ramp on a WAN is at the
share of the grace time that has passed, and after the grace time nothing holds it back. -/
theorem ramp_runs_its_course {s : Scheduler} {before after : List RampOp} {start now : ℕ}
    {cfgWan : ℤ} (idle : ∀ i < maxInterfaces, (s.joins i).active = false)
    (config : ∀ op ∈ before ++ .begins start cfgWan :: after, op.InConfig)
    (leaves : ∀ op ∈ after, op.Leaves cfgWan)
    (past : ∀ op ∈ RampOp.begins start cfgWan :: after, op.time ≤ now) :
    let pct := (s.runRamps (before ++ .begins start cfgWan :: after)).joinRampPct now cfgWan
    (now < start + wanDrainGraceMs → pct = some ((now - start) * 100 / wanDrainGraceMs)) ∧
      (start + wanDrainGraceMs ≤ now → pct = none ∨ pct = some 100) := by
  intro pct
  have known : RampOp.InConfig (.begins start cfgWan) := config _ (by simp)
  have ramps : (s.runRamps before).Ramps :=
    (ramps_idle idle).run fun op mem => config op (List.mem_append_left _ mem)
  obtain ⟨next, began⟩ := ramps.begins start known
  have course : ((s.runRamps before).joinRampBegin start cfgWan).Course now
      ⟨true, cfgWan, start, start + wanDrainGraceMs⟩ := by
    refine .inl ?_
    rw [began, Function.update_self]
  have ends := course.run next
    (fun op mem => config op (List.mem_append_right _ (List.mem_cons_of_mem _ mem))) leaves
    fun op mem => past op (List.mem_cons_of_mem _ mem)
  have split : s.runRamps (before ++ .begins start cfgWan :: after) =
      ((s.runRamps before).joinRampBegin start cfgWan).runRamps after := by
    rw [runRamps, List.foldl_append, List.foldl_cons]
    rfl
  have isPct : pct = (((s.runRamps before).joinRampBegin start cfgWan).runRamps after).joinRampPct
      now cfgWan := by
    rw [← split]
  rw [isPct, joinRampPct_eq _ now known.1]
  rcases ends with running | ⟨ended, passed⟩
  · rw [running, Option.map_some, rampPct]
    dsimp only
    refine ⟨fun lasts => ?_, fun passed => .inr (by rw [if_pos passed])⟩
    rw [if_neg (not_le.mpr lasts), Nat.add_sub_cancel_left, if_neg (by decide)]
  · rw [ended]
    exact ⟨fun lasts => absurd passed (not_le.mpr lasts), fun _ => .inl rfl⟩

/-- Half of the grace time after its begin a WAN is at 50 percent. -/
theorem ramp_runs_its_course_half :
    ((sampleFailed [⟨0, 3⟩, ⟨1, 5⟩]).s.runRamps ([.begins 0 1, .tick 10] ++
      .begins 100 0 :: [.begins 200 1, .tick 2000])).joinRampPct 2600 0 = some 50 := by
  have course := @ramp_runs_its_course (sampleFailed [⟨0, 3⟩, ⟨1, 5⟩]).s [.begins 0 1, .tick 10]
    [.begins 200 1, .tick 2000] 100 2600 0 (fun _ _ => rfl)
    (by simp [RampOp.InConfig, maxInterfaces]) (by simp [RampOp.Leaves]) (by simp [RampOp.time])
  exact course.1 (by decide)

/-- From a scheduler without ramps, whatever WANs are brought back and whenever ticks fall: ticks
change no pool.  They end only ramps at 100 percent, and a blend only at the new weights. -/
theorem pools_without_ticks {s : Scheduler} {ops : List RampOp} {p : ProfileConfig}
    (idle : ∀ i < maxInterfaces, (s.joins i).active = false) (blends : s.BlendsTo p)
    (config : ∀ op ∈ ops, op.InConfig) (fwd : Forwarder) {ticks : List ℕ} {now : ℕ}
    (past : ∀ t ∈ ticks, t ≤ now) (maxN : ℕ) :
    fwd.buildProfilePool (ticks.foldl weightBlendTick (s.runRamps ops)) now p maxN =
      fwd.buildProfilePool (s.runRamps ops) now p maxN := by
  have ramps := (ramps_idle idle).run config
  have blends := blends.run ops
  generalize s.runRamps ops = s at ramps blends
  induction ticks generalizing s with
  | nil => rfl
  | cons t ticks ih =>
    rw [List.foldl_cons, ih (fun later mem => past later (List.mem_cons_of_mem t mem)) _
      (ramps.tick t).1 (blends.tick t)]
    exact ramps.pool_tick blends (past t List.mem_cons_self) maxN

/-- A reload that changes the weights, and a tick after its blend. -/
theorem pools_without_ticks_reload :
    let old : AppConfig := (sampleFailed [⟨0, 3⟩, ⟨1, 5⟩]).fwd.cfg
    let cfg : AppConfig := (sampleFailed [⟨0, 6⟩, ⟨1, 2⟩]).fwd.cfg
    let w := (sampleFailed [⟨0, 3⟩, ⟨1, 5⟩]).weightBlendBegin 0 old cfg
    w.s.blend.active = true ∧
      w.fwd.buildProfilePool ([2000, 6000].foldl weightBlendTick (w.s.runRamps [.begins 100 0])) 7000
        ⟨1, [⟨0, 6⟩, ⟨1, 2⟩]⟩ maxInterfaces =
      w.fwd.buildProfilePool (w.s.runRamps [.begins 100 0]) 7000 ⟨1, [⟨0, 6⟩, ⟨1, 2⟩]⟩
        maxInterfaces := by
  intro old cfg w
  exact ⟨rfl, pools_without_ticks (fun _ _ => rfl)
    (WanState.blendsTo_weightBlendBegin rfl (by decide)) (by simp [RampOp.InConfig, maxInterfaces])
    w.fwd (by decide) maxInterfaces⟩

end NeEncryptor.Wan
