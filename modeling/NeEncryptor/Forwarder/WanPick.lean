import NeEncryptor.Forwarder.FlowTable
import NeEncryptor.Forwarder.WanScheduler

/-!
# The WAN of a packet from the LAN

The choice of `fwd_wan_pick_for_local`: the pick of the scheduler among the pool of the profile,
and slot 0 where it yields no slot, unless that slot has no room and the search finds another one.
-/

namespace NeEncryptor.Wan

/-- What a thread reads when it picks a WAN for a packet; `flow` is none where the parse failed. -/
structure PickInput where
  fwd : Forwarder
  s : Scheduler
  egress : Egress
  table : FlowTable
  now : ℕ
  profileIdx : ℤ
  flow : Option FiveTuple

/-- One round of a search for the least depth, from `UINT32_MAX` on. -/
def depthStep (depth : ℕ → ℕ) (best : ℕ × Option ℕ) (dp : ℕ) : ℕ × Option ℕ :=
  if depth dp < best.1 then (depth dp, some dp) else best

/-- The first of the slots with the least depth. -/
def leastDepth (depth : ℕ → ℕ) (slots : List ℕ) : Option ℕ :=
  (slots.foldl (depthStep depth) (2 ^ 32 - 1, none)).2

namespace PickInput

variable (x : PickInput)

def room (dp : ℕ) : Bool := x.egress.hasTxRoom x.fwd dp

/-- The profile of the packet, where its index is one of the configuration. -/
def profile : Option ProfileConfig :=
  if x.profileIdx < 0 then none else x.fwd.cfg.profiles[x.profileIdx.toNat]?

/-- The slots that `pick_least_loaded_wan` compares in a profile. -/
def profileCandidates (p : ProfileConfig) : List ℕ :=
  p.wans.filterMap fun w =>
    if w.weight ≤ 0 then none else (x.fwd.liveDpForCfg x.s w.index).filter x.room

/-- The slots that `pick_least_loaded_wan` compares without one. -/
def allCandidates : List ℕ :=
  (List.range x.fwd.wanCount).filter fun dp => x.s.dpOkForNewTraffic dp && x.room dp

/-- `pick_least_loaded_wan`. -/
def pickLeastLoadedWan (selected : ℕ) : ℕ :=
  if x.room selected then selected
  else
    match x.profile with
    | none => (leastDepth x.egress.depth x.allCandidates).getD selected
    | some p =>
      match leastDepth x.egress.depth (x.profileCandidates p) with
      | some best => best
      | none =>
        if p.wans ≠ [] then selected
        else (leastDepth x.egress.depth x.allCandidates).getD selected

/-- The pick of the scheduler from a pool. -/
def flowPick (pool : List (ℤ × ℤ)) : FlowTable × ℤ :=
  match x.flow with
  | some t => x.table.pickWanPerFlowPacket t pool
  | none => x.table.pickWanPerPacket pool

/-- `fwd_wan_pick_for_local`, with `none` for −1. -/
def pickForLocal : FlowTable × Option ℕ :=
  if x.fwd.wanCount = 0 then (x.table, none)
  else
    match x.profile with
    | none => (x.table, some (x.pickLeastLoadedWan 0))
    | some p =>
      let pool := x.fwd.buildProfilePool x.s x.now p maxInterfaces
      if pool = [] then (x.table, some (x.pickLeastLoadedWan 0))
      else
        let (table, wanCfg) := x.flowPick pool
        if wanCfg < 0 then (table, some (x.pickLeastLoadedWan 0))
        else
          match (x.fwd.liveDpForCfg x.s wanCfg).or (x.fwd.dpForLegacyCfg x.s x.now wanCfg) with
          | none => (table, some (x.pickLeastLoadedWan 0))
          | some dp =>
            if x.fwd.wanCount ≤ dp ∨ x.s.dpOkForNewTraffic dp = false then
              (table, some (x.pickLeastLoadedWan 0))
            else (table, some (x.pickLeastLoadedWan dp))

/-- The configuration index that the scheduler picks from the pool. -/
def picked : Option ℤ :=
  x.profile.bind fun p =>
    let pool := x.fwd.buildProfilePool x.s x.now p maxInterfaces
    if pool = [] then none else some (x.flowPick pool).2

/-- A WAN inside its drain window that was chosen through the pool. -/
def Tapering (dp : ℕ) : Prop :=
  ∃ wanCfg ∈ x.picked, 0 ≤ wanCfg ∧ x.fwd.liveDpForCfg x.s wanCfg = none ∧
    x.fwd.dpForLegacyCfg x.s x.now wanCfg = some dp

/-- A WAN of the profile with positive weight that is eligible and has room. -/
def Good (dp : ℕ) : Prop :=
  ∃ p ∈ x.profile, ∃ w ∈ p.wans, 0 < w.weight ∧
    x.fwd.liveDpForCfg x.s w.index = some dp ∧ x.room dp = true

/-- A WAN of the profile with weight 0. -/
def ZeroWeight (dp : ℕ) : Prop :=
  ∃ p ∈ x.profile, (∃ w ∈ p.wans, w.index = x.fwd.wanCfgIdx dp) ∧
    ∀ w ∈ p.wans, w.index = x.fwd.wanCfgIdx dp → w.weight ≤ 0

/-- The slot that the scheduler's pick stands for. -/
def usable : Option ℕ :=
  (x.picked.bind (x.fwd.liveDpForCfg x.s)).filter fun dp => decide (dp < x.fwd.wanCount)

/-- A returned slot is eligible, or tapering and chosen through the pool; it is a good one where
there is a good one; and it has weight 0 only where the scheduler chose it. -/
structure Eligible (dp : ℕ) : Prop where
  ok : x.s.dpOkForNewTraffic dp = true ∨ x.Tapering dp
  good : (∃ d, x.Good d) → x.Good dp
  weighted : x.ZeroWeight dp → x.usable = some dp ∨ x.Tapering dp

/-- The picked index has positive weight in the profile. -/
def PositivePick : Prop :=
  ∃ wanCfg ∈ x.picked, ∃ p ∈ x.profile, ∃ w ∈ p.wans, w.index = wanCfg ∧ 0 < w.weight

/-- The slots that the search of `pick_least_loaded_wan` compares in the end. -/
def searched : List ℕ :=
  match x.profile with
  | none => x.allCandidates
  | some p => if p.wans ≠ [] then x.profileCandidates p else x.allCandidates

/-- The search replaces a slot without room; a usable pick has positive weight, or no WAN is good;
without one, slot 0 qualifies itself. -/
def HoldsWhen : Prop :=
  x.fwd.wanCount = 0 ∨ (x.room (x.usable.getD 0) = false ∧ x.searched ≠ []) ∨
    match x.usable with
    | some dp => x.PositivePick ∨ x.room dp = false ∨ ¬ ∃ d, x.Good d
    | none => (x.s.dpOkForNewTraffic 0 = true ∨ x.Tapering 0) ∧
        (x.ZeroWeight 0 → x.Tapering 0) ∧ (x.room 0 = true → (∃ d, x.Good d) → x.Good 0)

end PickInput

theorem Scheduler.dpOk_inactive {s : Scheduler} {dp : ℕ} (ok : s.dpOkForNewTraffic dp = true) :
    (s.drains dp).active = false := by
  simp only [dpOkForNewTraffic, Bool.and_eq_true, Bool.not_eq_true'] at ok
  exact ok.1.1.2

namespace Forwarder

variable {fwd : Forwarder} {s : Scheduler} {cfgWan : ℤ} {now dp : ℕ}

theorem liveDpForCfg_some (found : fwd.liveDpForCfg s cfgWan = some dp) :
    0 ≤ cfgWan ∧ fwd.wanCfgIdx dp = cfgWan ∧ s.dpOkForNewTraffic dp = true := by
  unfold liveDpForCfg at found
  split at found
  · cases found
  · obtain ⟨first, ok⟩ := Option.filter_eq_some_iff.mp found
    have same := List.find?_some first
    exact ⟨by omega, of_decide_eq_true same, ok⟩

/-- The slot of a WAN in its drain window takes no new traffic. -/
theorem dpForLegacyCfg_not_ok (found : fwd.dpForLegacyCfg s now cfgWan = some dp) :
    s.dpOkForNewTraffic dp = false := by
  have draining := List.find?_some found
  simp only [Bool.and_eq_true] at draining
  cases ok : s.dpOkForNewTraffic dp with
  | false => rfl
  | true => exact absurd (draining.1.1.1.symm.trans (Scheduler.dpOk_inactive ok)) (by decide)

end Forwarder

theorem depth_lt (e : Egress) (dp : ℕ) : e.depth dp < 2 ^ 32 - 1 := by
  have capped (w : ℕ) : (e.midToWan dp w).count ≤ 16384 :=
    (e.midToWan dp w).filled.trans (e.midToWan dp w).capped
  have h0 := capped 0
  have h1 := capped 1
  have h2 := capped 2
  have h3 := capped 3
  have h4 := capped 4
  have h5 := capped 5
  simp only [Egress.depth, List.range_succ, List.range_zero, List.nil_append, List.cons_append,
    List.map_cons, List.map_nil, List.sum_cons, List.sum_nil]
  omega

theorem depth_foldl_mem {depth : ℕ → ℕ} (slots : List ℕ) (best : ℕ × Option ℕ) :
    (slots.foldl (depthStep depth) best).2 = best.2 ∨
      ∃ dp ∈ slots, (slots.foldl (depthStep depth) best).2 = some dp := by
  induction slots generalizing best with
  | nil => exact .inl rfl
  | cons dp slots ih =>
    rcases ih (depthStep depth best dp) with same | ⟨d, later, found⟩
    · rw [List.foldl_cons, same]
      unfold depthStep
      split
      · exact .inr ⟨dp, List.mem_cons_self, rfl⟩
      · exact .inl rfl
    · exact .inr ⟨d, List.mem_cons_of_mem dp later, found⟩

theorem leastDepth_mem {depth : ℕ → ℕ} {slots : List ℕ} {dp : ℕ}
    (found : leastDepth depth slots = some dp) : dp ∈ slots := by
  rcases depth_foldl_mem slots (2 ^ 32 - 1, none) with same | ⟨d, mem, same⟩
  · cases same.symm.trans found
  · cases same.symm.trans found
    exact mem

/-- The search finds a slot where there is one to compare. -/
theorem leastDepth_eq_none_iff {depth : ℕ → ℕ} {slots : List ℕ}
    (small : ∀ dp, depth dp < 2 ^ 32 - 1) : leastDepth depth slots = none ↔ slots = [] := by
  cases slots with
  | nil => simp [leastDepth]
  | cons dp slots =>
    have first : depthStep depth (2 ^ 32 - 1, none) dp = (depth dp, some dp) := if_pos (small dp)
    rw [leastDepth, List.foldl_cons, first]
    have found := @depth_foldl_mem depth slots (depth dp, some dp)
    rcases found with same | ⟨d, _, same⟩
    · simp [same]
    · simp [same]

namespace PickInput

variable {x : PickInput} {p : ProfileConfig} {dp : ℕ}

theorem searched_of_profile (found : x.profile = some p) (some_wan : p.wans ≠ []) :
    x.searched = x.profileCandidates p := by
  rw [searched, found]
  exact if_pos some_wan

/-- The candidates of the profile are its good WANs. -/
theorem good_iff (found : x.profile = some p) : x.Good dp ↔ dp ∈ x.profileCandidates p := by
  unfold Good profileCandidates
  rw [List.mem_filterMap]
  constructor
  · rintro ⟨p', found', w, listed, positive, live, room⟩
    rw [found] at found'
    cases found'
    refine ⟨w, listed, ?_⟩
    rw [if_neg (by omega), live, Option.filter_some, if_pos room]
  · rintro ⟨w, listed, h⟩
    split at h
    · cases h
    · obtain ⟨live, room⟩ := Option.filter_eq_some_iff.mp h
      exact ⟨p, found, w, listed, by omega, live, room⟩

theorem pickLeastLoadedWan_eq (selected : ℕ) : x.pickLeastLoadedWan selected =
    if x.room selected then selected
    else (leastDepth x.egress.depth x.searched).getD selected := by
  unfold pickLeastLoadedWan searched
  split
  · rfl
  · cases x.profile with
    | none => rfl
    | some p =>
      by_cases some_wan : p.wans = []
      · have none_found : x.profileCandidates p = [] := by simp [profileCandidates, some_wan]
        simp [some_wan, none_found, leastDepth]
      · simp only [ne_eq, some_wan, not_false_eq_true, if_true]
        cases leastDepth x.egress.depth (x.profileCandidates p) with
        | none => rfl
        | some best => rfl

/-- The drain lookup never decides: only a pick that is eligible is used, and slot 0 otherwise. -/
theorem pickForLocal_eq : x.pickForLocal.2 =
    if x.fwd.wanCount = 0 then none else some (x.pickLeastLoadedWan (x.usable.getD 0)) := by
  unfold pickForLocal usable picked
  split
  · rfl
  · cases x.profile with
    | none => rfl
    | some p =>
      dsimp only [Option.bind_some]
      split
      · rfl
      · generalize x.flowPick _ = pick
        obtain ⟨table, wanCfg⟩ := pick
        dsimp only [Option.bind_some]
        cases live : x.fwd.liveDpForCfg x.s wanCfg with
        | some dp =>
          have positive := (Forwarder.liveDpForCfg_some live).1
          have ok := (Forwarder.liveDpForCfg_some live).2.2
          rw [if_neg (by omega)]
          by_cases inside : dp < x.fwd.wanCount
          · simp [Option.filter_some, inside, ok, Nat.not_le.mpr inside]
          · simp [Option.filter_some, inside, Nat.not_lt.mp inside]
        | none =>
          cases legacy : x.fwd.dpForLegacyCfg x.s x.now wanCfg with
          | none => simp
          | some dp => simp [Forwarder.dpForLegacyCfg_not_ok legacy]

/-- A slot that the search finds meets every demand. -/
theorem eligible_of_searched (found : dp ∈ x.searched) : x.Eligible dp := by
  unfold searched at found
  have from_all (no_wan : ∀ p ∈ x.profile, p.wans = []) (mem : dp ∈ x.allCandidates) :
      x.Eligible dp := by
    have ok := (List.mem_filter.mp mem).2
    simp only [Bool.and_eq_true] at ok
    refine ⟨.inl ok.1, ?_, ?_⟩
    · rintro ⟨d, p, profile, w, listed, -⟩
      rw [no_wan p profile] at listed
      cases listed
    · rintro ⟨p, profile, ⟨w, listed, -⟩, -⟩
      rw [no_wan p profile] at listed
      cases listed
  cases profile : x.profile with
  | none =>
    rw [profile] at found
    exact from_all (by simp [profile]) found
  | some p =>
    rw [profile] at found
    by_cases no_wan : p.wans = []
    · simp only [no_wan, ne_eq, not_true, if_false] at found
      exact from_all (by simp [profile, no_wan]) found
    · simp only [no_wan, ne_eq, not_false_eq_true, if_true] at found
      have good := (good_iff profile).mpr found
      obtain ⟨p', same, w, listed, positive, live, _⟩ := id good
      rw [profile] at same
      cases same
      have slot := Forwarder.liveDpForCfg_some live
      refine ⟨.inl slot.2.2, fun _ => good, ?_⟩
      rintro ⟨p', same, -, zero⟩
      rw [profile] at same
      cases same
      exact absurd (zero w listed slot.2.1.symm) (by omega)

/-- Where the search finds nothing, no WAN of the profile is good. -/
theorem not_good_of_searched (nothing : x.searched = []) : ¬ ∃ d, x.Good d := by
  rintro ⟨d, good⟩
  obtain ⟨p, profile, w, listed, -⟩ := id good
  have some_wan : p.wans ≠ [] := List.ne_nil_of_mem listed
  rw [searched_of_profile profile some_wan] at nothing
  have mem := (good_iff profile).mp good
  rw [nothing] at mem
  cases mem

/-- A usable pick of positive weight is a good WAN while it has room. -/
theorem good_usable_iff (usable : x.usable = some dp) :
    x.Good dp ↔ x.PositivePick ∧ x.room dp = true := by
  obtain ⟨found, -⟩ := Option.filter_eq_some_iff.mp usable
  obtain ⟨wanCfg, picked, live⟩ := Option.bind_eq_some_iff.mp found
  constructor
  · rintro ⟨p, profile, w, listed, positive, live', room⟩
    have same : w.index = wanCfg :=
      (Forwarder.liveDpForCfg_some live').2.1.symm.trans (Forwarder.liveDpForCfg_some live).2.1
    exact ⟨⟨wanCfg, picked, p, profile, w, listed, same, positive⟩, room⟩
  · rintro ⟨⟨wanCfg', picked', p, profile, w, listed, same, positive⟩, room⟩
    rw [picked] at picked'
    cases picked'
    exact ⟨p, profile, w, listed, positive, same ▸ live, room⟩

theorem usable_ok (usable : x.usable = some dp) : x.s.dpOkForNewTraffic dp = true := by
  obtain ⟨found, -⟩ := Option.filter_eq_some_iff.mp usable
  obtain ⟨_, -, live⟩ := Option.bind_eq_some_iff.mp found
  exact (Forwarder.liveDpForCfg_some live).2.2

/-- `fwd_wan_pick_for_local` returns no slot, or one that meets every demand, exactly when the
condition holds. -/
theorem pickForLocal_eligible_iff :
    (∀ dp, x.pickForLocal.2 = some dp → x.Eligible dp) ↔ x.HoldsWhen := by
  rw [pickForLocal_eq, HoldsWhen]
  by_cases empty : x.fwd.wanCount = 0
  · simp [empty]
  rw [if_neg empty, pickLeastLoadedWan_eq]
  have returns (r : ℕ) : (∀ dp, some r = some dp → x.Eligible dp) ↔ x.Eligible r :=
    ⟨fun h => h r rfl, fun h dp same => Option.some.inj same ▸ h⟩
  rw [returns]
  simp only [empty, false_or]
  cases usable : x.usable with
  | some dp =>
    have good := good_usable_iff usable
    have ok := usable_ok usable
    have selected : x.Eligible dp ↔ ((∃ d, x.Good d) → x.Good dp) :=
      ⟨fun h => h.good, fun h => ⟨.inl ok, h, fun _ => .inl usable⟩⟩
    simp only [Option.getD_some]
    cases room : x.room dp with
    | true =>
      rw [if_pos rfl, selected, good]
      simp only [room, Bool.true_eq_false, false_and, false_or, and_true]
      by_cases some_good : ∃ d, x.Good d
      · simp [some_good]
      · simp [some_good]
    | false =>
      rw [if_neg (by decide)]
      simp only [true_or, or_true, iff_true]
      cases found : leastDepth x.egress.depth x.searched with
      | some best => exact eligible_of_searched (leastDepth_mem found)
      | none =>
        have nothing := (leastDepth_eq_none_iff (depth_lt x.egress)).mp found
        exact selected.mpr fun h => absurd h (not_good_of_searched nothing)
  | none =>
    have selected : x.Eligible 0 ↔ (x.s.dpOkForNewTraffic 0 = true ∨ x.Tapering 0) ∧
        (x.ZeroWeight 0 → x.Tapering 0) ∧ ((∃ d, x.Good d) → x.Good 0) := by
      constructor
      · intro h
        refine ⟨h.ok, fun zero => ?_, h.good⟩
        rcases h.weighted zero with same | tapering
        · rw [usable] at same
          cases same
        · exact tapering
      · rintro ⟨ok, weighted, good⟩
        exact ⟨ok, good, fun zero => .inr (weighted zero)⟩
    simp only [Option.getD_none]
    cases room : x.room 0 with
    | true =>
      rw [if_pos rfl, selected]
      simp
    | false =>
      rw [if_neg (by decide)]
      cases found : leastDepth x.egress.depth x.searched with
      | some best =>
        have some_slot : x.searched ≠ [] := fun nothing => by
          rw [(leastDepth_eq_none_iff (depth_lt x.egress)).mpr nothing] at found
          cases found
        exact ⟨fun _ => .inl ⟨rfl, some_slot⟩, fun _ => eligible_of_searched (leastDepth_mem found)⟩
      | none =>
        have nothing := (leastDepth_eq_none_iff (depth_lt x.egress)).mp found
        rw [Option.getD_none, selected]
        simp [nothing, not_good_of_searched nothing]

/-- WAN 0 has been stopped, WAN 1 carries traffic, and WAN 2 has just started to drain. -/
def sample : PickInput where
  fwd :=
    { cfg := ⟨["lan0"], [⟨"wan0", false⟩, ⟨"wan1", true⟩, ⟨"wan2", false⟩],
        [⟨1, [⟨0, 1⟩, ⟨1, 1⟩, ⟨2, 0⟩]⟩], by decide⟩
      wanCount := 3
      wanCfgIdx := fun dp => dp
      pair := ⟨3, fun _ => "", fun _ => true, fun _ => true⟩ }
  s :=
    { drains := fun dp => ⟨dp = 2, 2, 3, 0, 5000⟩
      activeDpCount := 3
      stopped := fun dp => dp = 0
      adminHold := fun _ => false
      excluded := fun _ => false
      blend := ⟨false, 1, [], 0, 0⟩
      joins := fun _ => ⟨false, 0, 0, 0⟩ }
  egress := ⟨fun _ _ => ⟨16384, 0, by decide, by decide⟩, 0⟩
  table := ⟨true, fun _ _ => none, none, 0⟩
  now := 0
  profileIdx := 0
  flow := none

/-- The scheduler picks the draining WAN 2, and the stopped WAN 0 is returned in its place. -/
theorem pickForLocal_not_always_eligible :
    ¬ ∀ x : PickInput, ∀ dp, x.pickForLocal.2 = some dp → x.Eligible dp := by
  intro always
  have returned : sample.pickForLocal.2 = some 0 := by decide +kernel
  rcases (always sample 0 returned).ok with ok | ⟨wanCfg, picked, -, -, legacy⟩
  · exact absurd ok (by decide)
  · have chosen : sample.picked = some 2 := by decide +kernel
    rw [chosen] at picked
    cases picked
    have drained : sample.fwd.dpForLegacyCfg sample.s sample.now 2 = some 2 := by decide +kernel
    rw [drained] at legacy
    cases legacy

end PickInput

end NeEncryptor.Wan
