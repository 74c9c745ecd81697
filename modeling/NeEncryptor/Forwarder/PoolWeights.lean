import NeEncryptor.Forwarder.SwrrRounds
import NeEncryptor.Forwarder.WanReload
import NeEncryptor.Lib.EvenShares

/-!
# The weights of a pool

`fwd_wan_build_profile_pool` moves the weight of the WANs that it leaves out to those that it keeps,
and a blend moves the weight of a WAN from the old one to the new one.
-/

namespace NeEncryptor.Wan

open EvenShares

namespace Forwarder

variable (fwd : Forwarder) (s : Scheduler) (now : ℕ) (p : ProfileConfig)

/-- The blended weight of an entry of the profile. -/
def blended (w : ProfileWan) : ℤ := s.profileWanWeightBlended now p w.index w.weight

/-- The WAN takes new traffic, with a positive weight and no join ramp below 100 percent. -/
def serves (w : ProfileWan) : Bool :=
  decide (0 < blended s now p w) && (fwd.liveDpForCfg s w.index).isSome &&
    (s.joinRampPct now w.index).all fun ramp => decide (100 ≤ ramp)

/-- The entries of the profile that belong in the pool. -/
def serving : List ProfileWan := p.wans.filter (fwd.serves s now p)

/-- No join ramp of the profile is strictly between 0 and 100 percent. -/
def RampsSettled : Prop :=
  ∀ w ∈ p.wans, (s.joinRampPct now w.index).all (fun ramp => decide (ramp = 0 ∨ 100 ≤ ramp)) = true

instance : Decidable (RampsSettled s now p) := inferInstanceAs (Decidable (∀ w ∈ p.wans, _))

/-- No WAN drains. -/
def NoneDrains : Prop := ∀ dp < min fwd.wanCount maxInterfaces, (s.drains dp).active = false

instance : Decidable (fwd.NoneDrains s) := inferInstanceAs (Decidable (∀ dp < _, _))

/-- What a pool should be: the serving entries in their order, each with its own weight and an even
share of the rest, which add up to all positive weights of the profile. -/
structure Conserves (pool : List (ℤ × ℤ)) : Prop where
  members : pool.map Prod.fst = (fwd.serving s now p).map ProfileWan.index
  once : (p.wans.map ProfileWan.index).Nodup → (pool.map Prod.fst).Nodup
  shares : ∃ extra : ℕ → ℤ, (∀ i, 0 ≤ extra i) ∧ (∀ i j, extra i - extra j ≤ 1) ∧
    pool.map Prod.snd = (fwd.serving s now p).mapIdx fun i w => blended s now p w + extra i
  positive : ∀ entry ∈ pool, 0 < entry.2
  total : (pool.map Prod.snd).sum = ((p.wans.map (blended s now p)).filter (0 < ·)).sum

variable {fwd s now p}

/-- One round of the loop that collects the pool. -/
theorem collectStep_eq {acc : List (ℤ × ℤ) × ℤ} {w : ProfileWan}
    (room : acc.1.length < maxInterfaces)
    (ramps : (s.joinRampPct now w.index).all (fun r => decide (r = 0 ∨ 100 ≤ r)) = true) :
    fwd.collectStep s now p acc w =
      if fwd.serves s now p w then (acc.1 ++ [(w.index, blended s now p w)], acc.2)
      else (acc.1, acc.2 + Swrr.added (blended s now p w)) := by
  unfold collectStep
  dsimp only
  rw [if_neg (by omega)]
  change (if blended s now p w ≤ 0 then _ else _) = _
  by_cases positive : 0 < blended s now p w
  · rw [if_neg (by omega), Swrr.added, if_pos positive]
    cases live : fwd.liveDpForCfg s w.index with
    | none =>
      rw [if_pos rfl, if_neg]
      · rfl
      · rw [serves, live]
        simp
    | some dp =>
      rw [if_neg (by simp)]
      cases ramp : s.joinRampPct now w.index with
      | none =>
        rw [if_pos]
        · rfl
        · rw [serves, live, ramp]
          simp [positive]
      | some r =>
        rw [ramp, Option.all_some, decide_eq_true_eq] at ramps
        rcases ramps with rfl | done
        · rw [if_neg]
          · rfl
          · rw [serves, live, ramp]
            simp
        · obtain ⟨r, rfl⟩ : ∃ k, r = k + 1 := ⟨r - 1, by omega⟩
          have keeps : fwd.serves s now p w = true := by
            rw [serves, live, ramp]
            simp [positive, done]
          have whole : ¬r + 1 < 100 := by omega
          rw [if_pos keeps]
          exact congrArg (fun weight => (acc.1 ++ [(w.index, weight)], acc.2)) (if_neg whole)
  · rw [if_pos (by omega), if_neg, Swrr.added, if_neg positive, Int.add_zero]
    rw [serves]
    simp [positive]

theorem foldl_collectStep (ws : List ProfileWan) {acc : List (ℤ × ℤ) × ℤ}
    (room : acc.1.length + ws.length ≤ maxInterfaces)
    (ramps : ∀ w ∈ ws,
      (s.joinRampPct now w.index).all (fun r => decide (r = 0 ∨ 100 ≤ r)) = true) :
    ws.foldl (fwd.collectStep s now p) acc =
      (acc.1 ++ (ws.filter (fwd.serves s now p)).map (fun w => (w.index, blended s now p w)),
        acc.2 + ((ws.filter fun w => !fwd.serves s now p w).map fun w =>
          Swrr.added (blended s now p w)).sum) := by
  induction ws generalizing acc with
  | nil => simp
  | cons w ws ih =>
    rw [List.length_cons] at room
    have later := fun v mem => ramps v (List.mem_cons_of_mem w mem)
    rw [List.foldl_cons, collectStep_eq (by omega) (ramps w List.mem_cons_self)]
    by_cases serves : fwd.serves s now p w = true
    · rw [if_pos serves, ih (by rw [List.length_append, List.length_singleton]; omega) later,
        List.filter_cons_of_pos serves, List.filter_cons_of_neg (by simp [serves])]
      simp
    · rw [if_neg serves, ih (by dsimp only; omega) later, List.filter_cons_of_neg serves,
        List.filter_cons_of_pos (by simp [serves])]
      simp [Int.add_assoc]

/-- The positive weights are those of the entries that serve and of those that do not. -/
theorem sum_serving (ws : List ProfileWan) :
    ((ws.filter (fwd.serves s now p)).map (blended s now p)).sum +
        ((ws.filter fun w => !fwd.serves s now p w).map fun w =>
          Swrr.added (blended s now p w)).sum =
      ((ws.map (blended s now p)).filter (0 < ·)).sum := by
  rw [Swrr.sum_filter_pos, List.map_map]
  induction ws with
  | nil => rfl
  | cons w ws ih =>
    rw [List.map_cons, List.sum_cons, ← ih]
    by_cases serves : fwd.serves s now p w = true
    · have positive : 0 < blended s now p w := by
        rw [Forwarder.serves, Bool.and_eq_true, Bool.and_eq_true, decide_eq_true_eq] at serves
        exact serves.1.1
      rw [List.filter_cons_of_pos serves, List.filter_cons_of_neg (by simp [serves]), List.map_cons,
        List.sum_cons, Function.comp_apply, Swrr.added, if_pos positive]
      omega
    · rw [List.filter_cons_of_neg serves, List.filter_cons_of_pos (by simp [serves]),
        List.map_cons, List.sum_cons, Function.comp_apply]
      omega

/-- The weight left out is split into even shares. -/
theorem redistribute_eq (live : List (ℤ × ℤ)) {deadWeight : ℤ} (nonneg : 0 ≤ deadWeight) :
    redistribute live deadWeight =
      live.mapIdx fun i w => (w.1, w.2 + share deadWeight live.length i) := by
  unfold redistribute
  split
  · congr 1
    funext i w
    rw [share, Int.add_assoc]
  · rename_i idle
    rcases live with - | ⟨w, live⟩
    · rfl
    · have zero : deadWeight = 0 := by
        by_contra other
        exact idle ⟨List.cons_ne_nil w live, by omega⟩
      subst zero
      refine List.ext_getElem? fun i => ?_
      rw [List.getElem?_mapIdx]
      simp [share_zero]

theorem draining_eq_nil (none_drains : fwd.NoneDrains s) : fwd.draining s now = [] := by
  refine List.filterMap_eq_nil_iff.mpr fun dp inside => ?_
  exact if_pos (.inl (none_drains dp (List.mem_range.mp inside)))

theorem serves_pos {w : ProfileWan} (mem : w ∈ fwd.serving s now p) : 0 < blended s now p w := by
  have serves := (List.mem_filter.mp mem).2
  rw [Forwarder.serves, Bool.and_eq_true, Bool.and_eq_true, decide_eq_true_eq] at serves
  exact serves.1.1

/-- The weight that is left out. -/
def restWeight (fwd : Forwarder) (s : Scheduler) (now : ℕ) (p : ProfileConfig) : ℤ :=
  ((p.wans.filter fun w => !fwd.serves s now p w).map fun w => Swrr.added (blended s now p w)).sum

theorem restWeight_nonneg : 0 ≤ fwd.restWeight s now p := by
  refine List.sum_nonneg fun x mem => ?_
  obtain ⟨w, -, rfl⟩ := List.mem_map.mp mem
  rw [Swrr.added]
  split <;> omega

/-- Where nothing drains, the pool has the serving entries with their shares of the rest. -/
theorem buildProfilePool_eq {maxN : ℕ} (entries : p.wans.length ≤ maxInterfaces)
    (fits : p.wans.length ≤ maxN) (none_drains : fwd.NoneDrains s)
    (ramps : RampsSettled s now p) :
    fwd.buildProfilePool s now p maxN = (fwd.serving s now p).mapIdx fun i w =>
      (w.index, blended s now p w +
        share (fwd.restWeight s now p) (fwd.serving s now p).length i) := by
  have length : (fwd.serving s now p).length ≤ maxN := (List.length_filter_le _ _).trans fits
  unfold buildProfilePool
  dsimp only
  rw [foldl_collectStep p.wans (by simpa using entries) ramps, draining_eq_nil none_drains,
    List.append_nil, List.nil_append, Int.zero_add]
  change (redistribute ((fwd.serving s now p).map _) (fwd.restWeight s now p)).take maxN = _
  rw [redistribute_eq _ restWeight_nonneg, List.length_map, List.take_of_length_le (by simpa)]
  refine List.ext_getElem? fun i => ?_
  rw [List.getElem?_mapIdx, List.getElem?_mapIdx, List.getElem?_map, Option.map_map]
  rfl

theorem conserves_buildProfilePool {maxN : ℕ} (entries : p.wans.length ≤ maxInterfaces)
    (fits : p.wans.length ≤ maxN) (none_drains : fwd.NoneDrains s)
    (ramps : RampsSettled s now p) (some : fwd.serving s now p ≠ []) :
    fwd.Conserves s now p (fwd.buildProfilePool s now p maxN) := by
  have pool := buildProfilePool_eq entries fits none_drains ramps
  have members : (fwd.buildProfilePool s now p maxN).map Prod.fst =
      (fwd.serving s now p).map ProfileWan.index := by
    refine List.ext_getElem? fun i => ?_
    rw [pool, List.getElem?_map, List.getElem?_mapIdx, Option.map_map, List.getElem?_map]
    rfl
  have weights : (fwd.buildProfilePool s now p maxN).map Prod.snd =
      (fwd.serving s now p).mapIdx fun i w => blended s now p w +
        share (fwd.restWeight s now p) (fwd.serving s now p).length i := by
    refine List.ext_getElem? fun i => ?_
    rw [pool, List.getElem?_map, List.getElem?_mapIdx, Option.map_map, List.getElem?_mapIdx]
    rfl
  constructor
  · exact members
  · intro distinct
    rw [members]
    exact distinct.sublist (List.filter_sublist.map _)
  · exact ⟨_, share_nonneg restWeight_nonneg, share_sub_le _ _, weights⟩
  · intro entry mem
    rw [pool] at mem
    obtain ⟨i, inside, rfl⟩ := List.mem_mapIdx.mp mem
    have own := serves_pos (List.getElem_mem inside)
    have extra : 0 ≤ share (fwd.restWeight s now p) (fwd.serving s now p).length i :=
      share_nonneg restWeight_nonneg i
    dsimp only
    omega
  · rw [weights, sum_mapIdx_add, sum_share restWeight_nonneg (List.length_pos_iff.mpr some)]
    exact sum_serving p.wans

end Forwarder

/-! ## Blends -/

namespace Scheduler

variable {s : Scheduler} {now : ℕ}

theorem blendProgress_le (s : Scheduler) (now : ℕ) : s.blendProgress now ≤ 100 := by
  unfold blendProgress
  split
  · exact le_rfl
  split
  · exact le_rfl
  · rename_i running lasts
    refine Nat.div_le_of_le_mul ?_
    rw [Nat.mul_comm (s.blend.untilMs - s.blend.startMs)]
    exact (Nat.mul_comm ..).trans_le (Nat.mul_le_mul_left 100 (by omega))

/-- A weighted mean in whole numbers. -/
theorem mean_between {a b k : ℤ} (least : 0 ≤ k) (most : k ≤ 100)
    (positive : 0 < (a * (100 - k) + b * k).tdiv 100) :
    min a b ≤ (a * (100 - k) + b * k).tdiv 100 ∧ (a * (100 - k) + b * k).tdiv 100 ≤ max a b := by
  have low₁ := mul_le_mul_of_nonneg_right (min_le_left a b) (sub_nonneg.mpr most)
  have low₂ := mul_le_mul_of_nonneg_right (min_le_right a b) least
  have high₁ := mul_le_mul_of_nonneg_right (le_max_left a b) (sub_nonneg.mpr most)
  have high₂ := mul_le_mul_of_nonneg_right (le_max_right a b) least
  have low : min a b * (100 - k) + min a b * k = min a b * 100 := by ring
  have high : max a b * (100 - k) + max a b * k = max a b * 100 := by ring
  have nonneg : 0 ≤ a * (100 - k) + b * k := by
    by_contra negative
    have opposite : 0 ≤ (-(a * (100 - k) + b * k)).tdiv 100 :=
      Int.tdiv_nonneg (by omega) (by decide)
    rw [Int.neg_tdiv] at opposite
    omega
  rw [Int.tdiv_eq_ediv_of_nonneg nonneg] at positive ⊢
  omega

theorem blended_between {p : ProfileConfig} {cfgWan nominalWeight : ℤ} {b : BlendedWan}
    (nominal : 0 < nominalWeight ∨ nominalWeight = b.newW) (active : s.blend.active = true)
    (profile : s.blend.profileId = p.id)
    (found : (s.blend.wans.find? fun b => b.wanCfg = cfgWan) = some b) :
    min b.oldW b.newW ≤ s.profileWanWeightBlended now p cfgWan nominalWeight ∧
        s.profileWanWeightBlended now p cfgWan nominalWeight ≤ max b.oldW b.newW ∨
      s.profileWanWeightBlended now p cfgWan nominalWeight = 1 := by
  have progress := s.blendProgress_le now
  unfold profileWanWeightBlended
  split
  · rename_i off
    rcases nominal with positive | same
    · omega
    · subst same
      exact .inl ⟨min_le_right _ _, le_max_right _ _⟩
  · rw [if_neg (by simp [active, profile]), found]
    dsimp only
    split
    · rename_i positive
      exact .inl (mean_between (Int.natCast_nonneg _) (by omega) positive)
    · exact .inr rfl

end Scheduler

namespace WanState

/-- A blend has the weights of the two configurations for a WAN that is listed once. -/
theorem find_weightBlendBegin {w : WanState} {start : ℕ} {old cfg : AppConfig}
    {op np : ProfileConfig} {ops nps : List ProfileConfig} (olds : old.profiles = op :: ops)
    (news : cfg.profiles = np :: nps)
    (active : (w.weightBlendBegin start old cfg).s.blend.active = true)
    (distinct : (np.wans.map ProfileWan.index).Nodup) {i : ℕ} {o n : ProfileWan}
    (oldWan : op.wans[i]? = some o) (newWan : np.wans[i]? = some n) :
    (w.weightBlendBegin start old cfg).s.blend.profileId = np.id ∧
      ((w.weightBlendBegin start old cfg).s.blend.wans.find? fun b => b.wanCfg = n.index) =
        some ⟨n.index, o.weight, n.weight⟩ := by
  unfold weightBlendBegin at active ⊢
  rw [olds, news] at active ⊢
  dsimp only at active ⊢
  split at active
  · cases active
  rename_i begins
  rw [if_neg begins]
  refine ⟨rfl, ?_⟩
  dsimp only
  clear active begins olds news
  generalize op.wans = os at oldWan
  generalize np.wans = ns at newWan distinct
  induction ns generalizing os i with
  | nil => cases newWan
  | cons n' ns ih =>
    rcases os with - | ⟨o', os⟩
    · cases oldWan
    · rw [List.map_cons, List.nodup_cons] at distinct
      cases i with
      | zero =>
        cases oldWan
        cases newWan
        exact List.find?_cons_of_pos (decide_eq_true rfl)
      | succ i =>
        rw [List.getElem?_cons_succ] at oldWan newWan
        have other : n'.index ≠ n.index := fun same =>
          distinct.1 (same ▸ List.mem_map_of_mem (List.mem_of_getElem? newWan))
        rw [List.zipWith_cons_cons, List.find?_cons_of_neg (by simpa using other)]
        exact ih os oldWan newWan distinct.2

end WanState

/-- With a WAN that serves, without drains and without a join ramp on its way, the pool conserves
the weights of the profile; and while a blend runs, the weight of a WAN that the profile lists once
is between the old and the new one, or is 1. -/
theorem pool_conserves_weight (fwd : Forwarder) (s : Scheduler) (now : ℕ) (p : ProfileConfig)
    (entries : p.wans.length ≤ maxInterfaces) (none_drains : fwd.NoneDrains s)
    (ramps : Forwarder.RampsSettled s now p) (some : fwd.serving s now p ≠ []) :
    fwd.Conserves s now p (fwd.buildProfilePool s now p maxInterfaces) ∧
      ∀ (w : WanState) (start : ℕ) (old cfg : AppConfig) (op np : ProfileConfig)
        (ops nps : List ProfileConfig), old.profiles = op :: ops → cfg.profiles = np :: nps →
        s.blend = (w.weightBlendBegin start old cfg).s.blend → s.blend.active = true →
        (np.wans.map ProfileWan.index).Nodup →
        ∀ (i : ℕ) (o n : ProfileWan), op.wans[i]? = .some o → np.wans[i]? = .some n →
          min o.weight n.weight ≤ Forwarder.blended s now np n ∧
              Forwarder.blended s now np n ≤ max o.weight n.weight ∨
            Forwarder.blended s now np n = 1 := by
  refine ⟨Forwarder.conserves_buildProfilePool entries entries none_drains ramps some, ?_⟩
  intro w start old cfg op np ops nps olds news blend active distinct i o n oldWan newWan
  have began := blend ▸ active
  obtain ⟨profile, found⟩ :=
    WanState.find_weightBlendBegin olds news began distinct oldWan newWan
  rw [← blend] at profile found
  exact Scheduler.blended_between (.inr rfl) active profile found

/-! ## Two WANs -/

/-- Two WANs and the entries of the profile; the second WAN is excluded. -/
def sampleFailed (wans : List ProfileWan) : WanState :=
  .init ⟨["lan0"], [⟨"wan0", true⟩, ⟨"wan1", true⟩], [⟨1, wans⟩], by decide⟩ (fun dp => dp == 1)
    .initial

/-- The pool that the first profile of the sample gets. -/
def samplePool (wans : List ProfileWan) : List (ℤ × ℤ) :=
  (sampleFailed wans).fwd.buildProfilePool (sampleFailed wans).s 0 ⟨1, wans⟩ maxInterfaces

theorem pool_conserves_weight_failed :
    (samplePool [⟨0, 3⟩, ⟨1, 5⟩]).map Prod.snd = [8] ∧
      ((samplePool [⟨0, 3⟩, ⟨1, 5⟩]).map Prod.snd).sum = (([3, 5] : List ℤ).filter (0 < ·)).sum :=
  ⟨by decide +kernel, (pool_conserves_weight (sampleFailed [⟨0, 3⟩, ⟨1, 5⟩]).fwd
    (sampleFailed [⟨0, 3⟩, ⟨1, 5⟩]).s 0 ⟨1, [⟨0, 3⟩, ⟨1, 5⟩]⟩ (by decide) (by decide +kernel)
    (by decide +kernel) (by decide +kernel)).1.total⟩

/-- A WAN of weight 0 takes over nothing from the excluded one; and a WAN that the profile lists
twice is twice in the pool. -/
theorem weight_not_conserved :
    ((sampleFailed [⟨0, 0⟩, ⟨1, 5⟩]).fwd.NoneDrains (sampleFailed [⟨0, 0⟩, ⟨1, 5⟩]).s ∧
      Forwarder.RampsSettled (sampleFailed [⟨0, 0⟩, ⟨1, 5⟩]).s 0 ⟨1, [⟨0, 0⟩, ⟨1, 5⟩]⟩ ∧
      (sampleFailed [⟨0, 0⟩, ⟨1, 5⟩]).fwd.liveDpForCfg (sampleFailed [⟨0, 0⟩, ⟨1, 5⟩]).s 0 =
        some 0 ∧
      samplePool [⟨0, 0⟩, ⟨1, 5⟩] = [] ∧
      (([⟨0, 0⟩, ⟨1, 5⟩].map (Forwarder.blended (sampleFailed [⟨0, 0⟩, ⟨1, 5⟩]).s 0
        ⟨1, [⟨0, 0⟩, ⟨1, 5⟩]⟩)).filter (0 < ·)).sum = 5) ∧
    samplePool [⟨0, 3⟩, ⟨0, 5⟩] = [(0, 3), (0, 5)] := by
  decide +kernel

end NeEncryptor.Wan
