import NeEncryptor.Forwarder.WanReload

/-!
# The slot table

The slots of the forwarder as a list of configuration indices with interface names.  The live WANs
of a configuration are such a list too, and a reload that succeeds appends the WANs it attaches.
-/

namespace NeEncryptor.Wan

/-- The live WANs from index `i` on, with their names. -/
def liveRowsFrom (i : ℕ) : List WanConfig → List (ℕ × String)
  | [] => []
  | w :: ws => if w.dataplane then (i, w.ifname) :: liveRowsFrom (i + 1) ws
    else liveRowsFrom (i + 1) ws

/-- A live WAN stands at the place that counts the live ones before it. -/
theorem liveRowsFrom_of_live (i j : ℕ) (name : String) (ws : List WanConfig)
    (live : ws[j]? = some ⟨name, true⟩) :
    (liveRowsFrom i ws)[((ws.take j).filter WanConfig.dataplane).length]? = some (i + j, name) := by
  induction ws generalizing i j with
  | nil => cases live
  | cons w ws ih =>
    cases j with
    | zero =>
      cases live
      rfl
    | succ j =>
      have later := ih (i + 1) j live
      rw [show i + 1 + j = i + (j + 1) by omega] at later
      obtain ⟨ifname, dataplane⟩ := w
      cases dataplane with
      | true => simpa [liveRowsFrom] using later
      | false => simpa [liveRowsFrom] using later

/-- Every place of the list is that of a live WAN. -/
theorem live_of_liveRowsFrom (i k : ℕ) (row : ℕ × String) (ws : List WanConfig)
    (listed : (liveRowsFrom i ws)[k]? = some row) :
    ∃ j, row.1 = i + j ∧ ws[j]? = some ⟨row.2, true⟩ ∧
      ((ws.take j).filter WanConfig.dataplane).length = k := by
  induction ws generalizing i k with
  | nil => cases listed
  | cons w ws ih =>
    obtain ⟨ifname, dataplane⟩ := w
    cases dataplane with
    | false =>
      obtain ⟨j, index, live, count⟩ := ih (i + 1) k listed
      exact ⟨j + 1, by omega, live, by simpa using count⟩
    | true =>
      cases k with
      | zero =>
        cases listed
        exact ⟨0, rfl, rfl, rfl⟩
      | succ k =>
        obtain ⟨j, index, live, count⟩ := ih (i + 1) k listed
        exact ⟨j + 1, by omega, live, by simpa using count⟩

theorem length_liveRowsFrom (i : ℕ) (ws : List WanConfig) :
    (liveRowsFrom i ws).length = (ws.filter WanConfig.dataplane).length := by
  induction ws generalizing i with
  | nil => rfl
  | cons w ws ih =>
    unfold liveRowsFrom
    cases live : w.dataplane with
    | true => simp [live, ih]
    | false => simp [live, ih]

theorem dpToCfgFrom_eq (dpIdx i : ℕ) (ws : List WanConfig) :
    dpToCfgFrom dpIdx i ws = ((liveRowsFrom i ws)[dpIdx]?).map Prod.fst := by
  induction ws generalizing dpIdx i with
  | nil => rfl
  | cons w ws ih =>
    unfold dpToCfgFrom liveRowsFrom
    cases live : w.dataplane with
    | false => simpa [live] using ih dpIdx (i + 1)
    | true =>
      cases dpIdx with
      | zero => rfl
      | succ n => simpa [live] using ih n (i + 1)

theorem prefix_iff_getElem?_some {α : Type*} {l l' : List α} :
    l <+: l' ↔ ∀ (d : ℕ) a, l[d]? = some a → l'[d]? = some a := by
  rw [List.prefix_iff_getElem?]
  constructor
  · intro h d a listed
    obtain ⟨inside, same⟩ := List.getElem?_eq_some_iff.mp listed
    rw [h d inside, same]
  · intro h d inside
    exact h d _ (List.getElem?_eq_getElem inside)

namespace AppConfig

variable {cfg : AppConfig} {d : ℕ}

/-- The live WANs in configuration order. -/
def liveRows (cfg : AppConfig) : List (ℤ × String) :=
  (liveRowsFrom 0 cfg.wans).map fun row => ((row.1 : ℤ), row.2)

theorem wanLive_iff {ci : ℤ} :
    cfg.wanLive ci = true ↔ ∃ i : ℕ, ci = i ∧ ∃ name, cfg.wans[i]? = some ⟨name, true⟩ := by
  unfold wanLive
  cases ci with
  | negSucc n => simp
  | ofNat i =>
    constructor
    · intro live
      obtain ⟨⟨name, dataplane⟩, found, up⟩ := (Option.any_eq_true _ _).mp live
      cases up
      exact ⟨i, rfl, name, found⟩
    · rintro ⟨j, same, name, found⟩
      obtain rfl := Int.ofNat.inj same
      exact (Option.any_eq_true _ _).mpr ⟨_, found, rfl⟩

/-- The dataplane index of a live WAN is its place among the live rows. -/
theorem liveRows_getElem?_iff {ci : ℤ} {name : String} :
    cfg.liveRows[d]? = some (ci, name) ↔ cfg.wanCfgToDp ci = some d ∧ 0 ≤ ci ∧
      cfg.wans[ci.toNat]? = some ⟨name, true⟩ := by
  unfold liveRows wanCfgToDp
  rw [List.getElem?_map, Option.map_eq_some_iff]
  constructor
  · rintro ⟨row, listed, same⟩
    cases same
    obtain ⟨j, index, live, count⟩ := live_of_liveRowsFrom 0 d row cfg.wans listed
    rw [Nat.zero_add] at index
    rw [index, if_pos (wanLive_iff.mpr ⟨j, rfl, row.2, live⟩)]
    exact ⟨congrArg some count, by omega, live⟩
  · rintro ⟨place, positive, live⟩
    obtain ⟨j, rfl⟩ := Int.eq_ofNat_of_zero_le positive
    rw [if_pos (wanLive_iff.mpr ⟨j, rfl, name, live⟩)] at place
    obtain rfl := Option.some.inj place
    exact ⟨(j, name), by simpa using liveRowsFrom_of_live 0 j name cfg.wans live, rfl⟩

theorem liveRow (inside : d < cfg.liveRows.length) : ∃ (ci : ℕ) (name : String),
    cfg.liveRows[d]? = some ((ci : ℤ), name) ∧ cfg.wanCfgToDp ci = some d ∧
      cfg.wans[ci]? = some ⟨name, true⟩ := by
  rcases row : cfg.liveRows[d] with ⟨ci, name⟩
  have listed : cfg.liveRows[d]? = some (ci, name) := by rw [List.getElem?_eq_getElem inside, row]
  obtain ⟨place, positive, live⟩ := liveRows_getElem?_iff.mp listed
  obtain ⟨i, rfl⟩ := Int.eq_ofNat_of_zero_le positive
  exact ⟨i, name, listed, place, live⟩

theorem length_liveRows : cfg.liveRows.length = cfg.countDataplaneWans := by
  rw [liveRows, List.length_map, length_liveRowsFrom, countDataplaneWans]

theorem wanDpToCfg_eq (d : ℕ) :
    cfg.wanDpToCfg d = (cfg.liveRows[d]?).map fun row => row.1.toNat := by
  rw [wanDpToCfg, dpToCfgFrom_eq, liveRows, List.getElem?_map, Option.map_map]
  rfl

/-- The interface of a configured WAN is live. -/
theorem wanLive_of_wans {i : ℕ} {wan : WanConfig} (found : cfg.wans[i]? = some wan) :
    cfg.wanLive i = wan.dataplane := by
  simp [wanLive, found]

end AppConfig

namespace WanState

variable {w : WanState}

/-- The slots with the configuration index and the interface of each. -/
def plumbed (w : WanState) : List (ℤ × String) :=
  (List.range w.fwd.pair.wanCount).map fun d => (w.fwd.wanCfgIdx d, w.fwd.pair.ifname d)

/-- All slots are live. -/
structure AllLive (w : WanState) : Prop where
  count : w.fwd.wanCount = w.fwd.pair.wanCount
  fits : w.fwd.pair.wanCount ≤ maxInterfaces
  live : ∀ d < w.fwd.pair.wanCount, w.fwd.pair.wanLive d = true

theorem plumbed_getElem?_iff {d : ℕ} {row : ℤ × String} : w.plumbed[d]? = some row ↔
    d < w.fwd.pair.wanCount ∧ w.fwd.wanCfgIdx d = row.1 ∧ w.fwd.pair.ifname d = row.2 := by
  unfold plumbed
  rw [List.getElem?_map, Option.map_eq_some_iff]
  constructor
  · rintro ⟨e, found, rfl⟩
    obtain ⟨inside, same⟩ := List.getElem?_eq_some_iff.mp found
    rw [List.getElem_range] at same
    rw [List.length_range] at inside
    subst same
    exact ⟨inside, rfl, rfl⟩
  · rintro ⟨inside, index, name⟩
    exact ⟨d, List.getElem?_range inside, by rw [index, name]⟩

theorem length_plumbed : w.plumbed.length = w.fwd.pair.wanCount := by
  rw [plumbed, List.length_map, List.length_range]

theorem AllLive.pairWanLive (all : w.AllLive) (d : ℕ) :
    w.fwd.pair.pairWanLive d = decide (d < w.fwd.pair.wanCount) := by
  unfold Pair.pairWanLive
  by_cases inside : d < w.fwd.pair.wanCount
  · simp [inside, all.live d inside]
  · simp [inside]

/-- A name has a live slot when it is plumbed. -/
theorem AllLive.dpSlotLive_isSome_iff (all : w.AllLive) (name : String) :
    (w.fwd.pair.dpSlotLive name).isSome = true ↔ name ∈ w.plumbed.map Prod.snd := by
  rw [Pair.dpSlotLive, List.find?_isSome]
  simp only [all.pairWanLive, plumbed, List.map_map, List.mem_map, List.mem_range,
    Function.comp_apply, Bool.and_eq_true, decide_eq_true_eq]
  constructor
  · rintro ⟨d, inside, -, same⟩
    exact ⟨d, inside, same⟩
  · rintro ⟨d, inside, same⟩
    exact ⟨d, inside, inside, same⟩

/-- The next slot is the first one behind the live ones. -/
theorem AllLive.allocWanSlot (all : w.AllLive) : w.fwd.pair.allocWanSlot =
    if w.fwd.pair.wanCount < maxInterfaces then some w.fwd.pair.wanCount else none := by
  have none_free : (List.range w.fwd.pair.wanCount).find?
      (fun i => !w.fwd.pair.pairWanLive i) = none := by
    rw [List.find?_eq_none]
    intro d inside
    simp [all.pairWanLive, List.mem_range.mp inside]
  rw [Pair.allocWanSlot, none_free]

theorem foldl_count (c m : ℕ) :
    (List.range m).foldl (fun n i => if decide (i < c) then i + 1 else n) 0 = min m c := by
  induction m with
  | zero => simp
  | succ m ih =>
    rw [List.range_succ, List.foldl_append, ih]
    simp only [List.foldl_cons, List.foldl_nil, decide_eq_true_eq]
    split <;> omega

theorem AllLive.liveCount (all : w.AllLive) : w.fwd.pair.liveCount = w.fwd.pair.wanCount := by
  unfold Pair.liveCount
  simp only [all.pairWanLive]
  rw [foldl_count]
  exact min_eq_right all.fits

theorem AllLive.reconcileCounts (all : w.AllLive) : w.reconcileCounts = w := by
  rw [WanState.reconcileCounts, all.liveCount]
  obtain ⟨⟨cfg, wanCount, wanCfgIdx, pair⟩, s⟩ := w
  obtain rfl : wanCount = pair.wanCount := all.count
  rfl

/-- What attaching the WANs `rows` does: they get the next slots, and the others stay. -/
structure Attaches (rows : List (ℤ × String)) (w w' : WanState) : Prop where
  allLive : w'.AllLive
  plumbed : w'.plumbed = w.plumbed ++ rows
  cfg : w'.fwd.cfg = w.fwd.cfg
  drains : w'.s.drains = w.s.drains
  flags : w'.s.adminHold = w.s.adminHold ∧ w'.s.excluded = w.s.excluded ∧
    w'.s.activeDpCount = w.s.activeDpCount
  kept : ∀ d < w.fwd.pair.wanCount, w'.s.stopped d = w.s.stopped d ∧
    w'.fwd.pair.xdpWanOn d = w.fwd.pair.xdpWanOn d

theorem Attaches.refl (all : w.AllLive) : Attaches [] w w :=
  ⟨all, (List.append_nil _).symm, rfl, rfl, ⟨rfl, rfl, rfl⟩, fun _ _ => ⟨rfl, rfl⟩⟩

theorem Attaches.count {w' : WanState} {rows : List (ℤ × String)} (attaches : Attaches rows w w') :
    w'.fwd.pair.wanCount = w.fwd.pair.wanCount + rows.length := by
  rw [← length_plumbed, attaches.plumbed, List.length_append, length_plumbed]

theorem Attaches.trans {w' w'' : WanState} {rows rows' : List (ℤ × String)}
    (first : Attaches rows w w') (second : Attaches rows' w' w'') :
    Attaches (rows ++ rows') w w'' where
  allLive := second.allLive
  plumbed := by rw [second.plumbed, first.plumbed, List.append_assoc]
  cfg := second.cfg.trans first.cfg
  drains := second.drains.trans first.drains
  flags := ⟨second.flags.1.trans first.flags.1, second.flags.2.1.trans first.flags.2.1,
    second.flags.2.2.trans first.flags.2.2⟩
  kept := fun d inside => by
    have later := second.kept d (by rw [first.count]; omega)
    have earlier := first.kept d inside
    exact ⟨later.1.trans earlier.1, later.2.trans earlier.2⟩

theorem attaches_attachAt (all : w.AllLive) (room : w.fwd.pair.wanCount < maxInterfaces) (ci : ℕ)
    (name : String) :
    Attaches [((ci : ℤ), name)] w (w.attachAt w.fwd.pair.wanCount ci name) := by
  have count : (w.attachAt w.fwd.pair.wanCount ci name).fwd.pair.wanCount =
      w.fwd.pair.wanCount + 1 := by
    simp [attachAt, Pair.plumb]
  have other (d : ℕ) (inside : d < w.fwd.pair.wanCount) : d ≠ w.fwd.pair.wanCount := by omega
  constructor
  · refine ⟨rfl, by omega, fun d inside => ?_⟩
    rw [count] at inside
    by_cases here : d = w.fwd.pair.wanCount
    · simp [attachAt, Pair.plumb, here]
    · simp [attachAt, Pair.plumb, Function.update_of_ne here, all.live d (by omega)]
  · unfold plumbed
    rw [count, List.range_succ, List.map_append]
    congr 1
    · refine List.map_congr_left fun d inside => ?_
      have ne := other d (List.mem_range.mp inside)
      simp [attachAt, Pair.plumb, Function.update_of_ne ne]
    · simp [attachAt, Pair.plumb]
  · rfl
  · rfl
  · exact ⟨rfl, rfl, rfl⟩
  · intro d inside
    simp [attachAt, Function.update_of_ne (other d inside)]

/-- The WANs that a reload attaches, where the plumbed names are given. -/
def attachRows (cfg : AppConfig) : List String → List ProfileWan → List (ℤ × String)
  | _, [] => []
  | names, row :: rows =>
    if cfg.wanLive row.index = false then attachRows cfg names rows
    else
      match cfg.wans[row.index.toNat]? with
      | none => attachRows cfg names rows
      | some wan =>
        if wan.ifname ∈ names then attachRows cfg names rows
        else (((row.index.toNat : ℕ) : ℤ), wan.ifname) ::
          attachRows cfg (names ++ [wan.ifname]) rows

variable {env : String → AttachResult} {cfg : AppConfig}

theorem attachRow_failed {acc : WanState × AttachSession} (row : ProfileWan)
    (failed : acc.2.validateFailed = true) : attachRow env cfg acc row = acc := by
  rw [attachRow]
  exact if_pos failed

theorem foldl_attachRow_failed {acc : WanState × AttachSession} (rows : List ProfileWan)
    (failed : acc.2.validateFailed = true) : rows.foldl (attachRow env cfg) acc = acc := by
  induction rows with
  | nil => rfl
  | cons row rows ih => rw [List.foldl_cons, attachRow_failed row failed, ih]

/-- A round that does not fail skips the row, or it attaches the WAN to the next slot. -/
theorem attachRow_cases {acc : WanState × AttachSession} {row : ProfileWan} (all : acc.1.AllLive)
    (succeeds : (attachRow env cfg acc row).2.validateFailed = false) :
    attachRow env cfg acc row = acc ∧
        (∀ rows, attachRows cfg (acc.1.plumbed.map Prod.snd) (row :: rows) =
          attachRows cfg (acc.1.plumbed.map Prod.snd) rows) ∨
      ∃ ci name sess, attachRow env cfg acc row =
          (acc.1.attachAt acc.1.fwd.pair.wanCount ci name, sess) ∧
        acc.1.fwd.pair.wanCount < maxInterfaces ∧
        ∀ rows, attachRows cfg (acc.1.plumbed.map Prod.snd) (row :: rows) =
          ((ci : ℤ), name) :: attachRows cfg (acc.1.plumbed.map Prod.snd ++ [name]) rows := by
  have going : acc.2.validateFailed = false := by
    rw [Bool.eq_false_iff]
    intro failed
    rw [attachRow_failed row failed] at succeeds
    exact absurd (failed.symm.trans succeeds) (by decide)
  cases live : cfg.wanLive row.index with
  | false => exact .inl ⟨by simp [attachRow, going, live], fun rows => by simp [attachRows, live]⟩
  | true =>
    cases found : cfg.wans[row.index.toNat]? with
    | none =>
      exact .inl ⟨by simp [attachRow, going, live, found],
        fun rows => by simp [attachRows, live, found]⟩
    | some wan =>
      have slot_iff := all.dpSlotLive_isSome_iff wan.ifname
      by_cases missing : env wan.ifname = .noInterface
      · simp [attachRow, going, live, found, missing] at succeeds
      by_cases present : wan.ifname ∈ acc.1.plumbed.map Prod.snd
      · have has_slot := slot_iff.mpr present
        refine .inl ⟨by simp [attachRow, going, live, found, missing, has_slot], fun rows => ?_⟩
        simp only [attachRows, live, found, if_pos present]
        rfl
      have no_slot : (acc.1.fwd.pair.dpSlotLive wan.ifname).isSome = false := by
        rw [Bool.eq_false_iff]
        exact fun h => present (slot_iff.mp h)
      by_cases room : acc.1.fwd.pair.wanCount < maxInterfaces
      · have alloc : acc.1.fwd.pair.allocWanSlot = some acc.1.fwd.pair.wanCount := by
          rw [all.allocWanSlot, if_pos room]
        cases result : env wan.ifname with
        | noInterface => exact absurd result missing
        | noRings => simp [attachRow, going, live, found, no_slot, alloc, result] at succeeds
        | noPlumb => simp [attachRow, going, live, found, no_slot, alloc, result] at succeeds
        | noBind => simp [attachRow, going, live, found, no_slot, alloc, result] at succeeds
        | attached =>
          refine .inr ⟨row.index.toNat, wan.ifname,
            { acc.2 with wanAdded := acc.2.wanAdded ++ [acc.1.fwd.pair.wanCount] }, ?_, room,
            fun rows => ?_⟩
          · simp [attachRow, going, live, found, no_slot, alloc, result]
          · simp only [attachRows, live, found, if_neg present]
            rfl
      · have full : acc.1.fwd.pair.allocWanSlot = none := by
          rw [all.allocWanSlot, if_neg room]
        simp [attachRow, going, live, found, missing, no_slot, full] at succeeds

/-- The attachments of a profile, where none fails. -/
theorem foldl_attachRow (rows : List ProfileWan) (acc : WanState × AttachSession)
    (all : acc.1.AllLive)
    (succeeds : (rows.foldl (attachRow env cfg) acc).2.validateFailed = false) :
    Attaches (attachRows cfg (acc.1.plumbed.map Prod.snd) rows) acc.1
      (rows.foldl (attachRow env cfg) acc).1 := by
  induction rows generalizing acc with
  | nil => exact .refl all
  | cons row rows ih =>
    rw [List.foldl_cons] at succeeds ⊢
    have step : (attachRow env cfg acc row).2.validateFailed = false := by
      rw [Bool.eq_false_iff]
      intro failed
      rw [foldl_attachRow_failed rows failed] at succeeds
      exact absurd (failed.symm.trans succeeds) (by decide)
    rcases attachRow_cases all step with ⟨same, skips⟩ | ⟨ci, name, sess, attached, room, adds⟩
    · rw [same] at succeeds ⊢
      rw [skips]
      exact ih acc all succeeds
    · rw [attached] at succeeds ⊢
      have first := attaches_attachAt all room ci name
      have rest := ih _ first.allLive succeeds
      rw [first.plumbed, List.map_append] at rest
      rw [adds]
      exact first.trans rest

/-- Without a need to attach there is nothing to attach. -/
theorem attachRows_of_not_need {p : ProfileConfig} (all : w.AllLive)
    (none_needed : w.needAttach cfg p = false) :
    attachRows cfg (w.plumbed.map Prod.snd) p.wans = [] := by
  have skipped (rows : List ProfileWan)
      (none_needed : (rows.any fun row => cfg.wanLive row.index &&
        (cfg.wans[row.index.toNat]?).any fun wan =>
          (w.fwd.pair.dpSlotLive wan.ifname).isNone) = false) :
      attachRows cfg (w.plumbed.map Prod.snd) rows = [] := by
    induction rows with
    | nil => rfl
    | cons row rows ih =>
      rw [List.any_cons, Bool.or_eq_false_iff] at none_needed
      have rest := ih none_needed.2
      unfold attachRows
      cases live : cfg.wanLive row.index with
      | false => exact rest
      | true =>
        cases found : cfg.wans[row.index.toNat]? with
        | none => exact rest
        | some wan =>
          have has_slot := none_needed.1
          simp only [live, found, Bool.true_and, Option.any_some] at has_slot
          rw [Option.isNone_eq_false_iff] at has_slot
          have present := (all.dpSlotLive_isSome_iff wan.ifname).mp has_slot
          simp only [if_pos present]
          exact rest
  exact skipped p.wans none_needed

/-- The WANs that a reload attaches to the slots. -/
def reloadRows (w : WanState) (cfg : AppConfig) : List (ℤ × String) :=
  match cfg.profiles with
  | [] => []
  | p :: _ => attachRows cfg (w.plumbed.map Prod.snd) p.wans

theorem syncWanLive_attaches (all : w.AllLive) (succeeds : (w.syncWanLive env cfg).2 = true) :
    Attaches (w.reloadRows cfg) w (w.syncWanLive env cfg).1 := by
  unfold syncWanLive at succeeds
  unfold reloadRows syncWanLive
  cases profiles : cfg.profiles with
  | nil => exact .refl all
  | cons p rest =>
    rw [profiles] at succeeds
    dsimp only at succeeds ⊢
    cases need : w.needAttach cfg p with
    | false =>
      rw [attachRows_of_not_need all need]
      exact .refl all
    | true =>
      rw [need] at succeeds
      simp only [Bool.true_eq_false, if_false] at succeeds ⊢
      have attached : (p.wans.foldl (attachRow env cfg) (w, ⟨[], false⟩)).2.validateFailed = false →
          Attaches (attachRows cfg (w.plumbed.map Prod.snd) p.wans) w
            (p.wans.foldl (attachRow env cfg) (w, ⟨[], false⟩)).1 :=
        foldl_attachRow p.wans (w, ⟨[], false⟩) all
      generalize p.wans.foldl (attachRow env cfg) (w, ⟨[], false⟩) = final at *
      cases failed : final.2.validateFailed with
      | true => simp [failed] at succeeds
      | false =>
        have attached := attached failed
        rw [if_neg (by decide)]
        split
        · rw [attached.allLive.reconcileCounts]
          exact attached
        · exact attached

end WanState

end NeEncryptor.Wan
