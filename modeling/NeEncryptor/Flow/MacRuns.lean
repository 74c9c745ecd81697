import NeEncryptor.Flow.MacTable
import NeEncryptor.Lib.Transition

/-!
# Runs of the MAC table

What the table is meant to be (one entry for a MAC, one for a port, no MAC of the appliance, and an
index that finds every entry), which steps keep it, and the two that do not: a move onto a port that
has another client, and a line of the log that gives a port the MAC of another one.
-/

namespace NeEncryptor.Flow

open BucketChains Transition

/-- Distinct images, place by place. -/
theorem nodup_map_iff {α β : Type*} {l : List α} {f : α → β} :
    (l.map f).Nodup ↔
      ∀ (i j : ℕ) (a b : α), l[i]? = some a → l[j]? = some b → f a = f b → i = j := by
  constructor
  · intro nodup i j a b here there same
    have inside : i < (l.map f).length := by
      rw [List.length_map]
      exact (List.getElem?_eq_some_iff.mp here).1
    refine (List.getElem?_inj inside nodup).mp ?_
    rw [List.getElem?_map, List.getElem?_map, here, there]
    exact congrArg some same
  · intro injective
    refine List.nodup_iff_injective_getElem.mpr fun i j same => Fin.ext ?_
    have small (i : Fin (l.map f).length) : i.1 < l.length := by simpa using i.2
    exact injective i j _ _ (List.getElem?_eq_getElem (small i))
      (List.getElem?_eq_getElem (small j)) (by simpa using same)

/-- No MAC and no port in two entries. -/
structure Distinct (list : List MacLearnEntry) : Prop where
  macs : (list.map MacLearnEntry.mac).Nodup
  ports : (list.map MacLearnEntry.ifname).Nodup

/-- A MAC that may be listed. -/
structure Legit (ifaceMacs : List Mac) (mac : Mac) : Prop where
  nonzero : macIsZero mac = false
  unicast : macIsMulticast mac = false
  foreign : mac ∉ ifaceMacs

/-- What the table is meant to be. -/
structure MacLearnTable.Sound (t : MacLearnTable) : Prop where
  distinct : Distinct t.list
  legit : ∀ e ∈ t.list, Legit t.ifaceMacs e.mac
  found : ∀ i e, t.list[i]? = some e → t.findIdxByMacLocked e.mac = some i

/-- What the operations keep: the index enters the whole list. -/
structure MacLearnTable.Inv (t : MacLearnTable) : Prop where
  distinct : Distinct t.list
  legit : ∀ e ∈ t.list, Legit t.ifaceMacs e.mac
  small : t.list.length ≤ macLearnMaxEntries
  indexed : Indexes macHashKey MacLearnEntry.mac t.list t.list.length t.index

variable {t : MacLearnTable} {ifname : IfName} {mac : Mac}

theorem MacLearnTable.Inv.sound (inv : t.Inv) : t.Sound :=
  ⟨inv.distinct, inv.legit, fun i e here =>
    search_of_mem inv.indexed inv.distinct.macs (by rw [here]; rfl)⟩

theorem findIdxByMac_some {i : ℕ} (found : t.findIdxByMacLocked mac = some i) :
    ∃ e, t.list[i]? = some e ∧ e.mac = mac :=
  Option.map_eq_some_iff.mp (search_some found)

theorem findIdxByMac_none (inv : t.Inv) (absent : t.findIdxByMacLocked mac = none) :
    ∀ e ∈ t.list, e.mac ≠ mac := by
  intro e inside same
  obtain ⟨i, here⟩ := List.mem_iff_getElem?.mp inside
  have found := inv.sound.found i e here
  rw [same, absent] at found
  cases found

theorem findIdxByIfname_some {i : ℕ} (found : t.findIdxByIfname ifname = some i) :
    ∃ e, t.list[i]? = some e ∧ e.ifname = ifname := by
  rw [MacLearnTable.findIdxByIfname, List.findIdx?_eq_some_iff_getElem] at found
  obtain ⟨small, same, -⟩ := found
  exact ⟨_, List.getElem?_eq_getElem small, by simpa using same⟩

theorem findIdxByIfname_none (absent : t.findIdxByIfname ifname = none) :
    ∀ e ∈ t.list, e.ifname ≠ ifname := by
  rw [MacLearnTable.findIdxByIfname, List.findIdx?_eq_none_iff] at absent
  intro e inside same
  simpa [same] using absent e inside

/-! ### Changes of the list -/

section Lists

variable {list : List MacLearnEntry} {i : ℕ} {e : MacLearnEntry}

theorem Distinct.filter (distinct : Distinct list) (p : MacLearnEntry → Bool) :
    Distinct (list.filter p) :=
  ⟨distinct.macs.sublist (List.filter_sublist.map _),
    distinct.ports.sublist (List.filter_sublist.map _)⟩

theorem Distinct.append (distinct : Distinct list) (newMac : ∀ f ∈ list, f.mac ≠ e.mac)
    (newPort : ∀ f ∈ list, f.ifname ≠ e.ifname) : Distinct (list ++ [e]) := by
  constructor
  · rw [List.map_append, List.nodup_append]
    refine ⟨distinct.macs, List.nodup_singleton _, fun m inside m' here same => ?_⟩
    obtain ⟨f, mem, rfl⟩ := List.mem_map.mp inside
    rw [List.map_singleton, List.mem_singleton] at here
    exact newMac f mem (same.trans here)
  · rw [List.map_append, List.nodup_append]
    refine ⟨distinct.ports, List.nodup_singleton _, fun p inside p' here same => ?_⟩
    obtain ⟨f, mem, rfl⟩ := List.mem_map.mp inside
    rw [List.map_singleton, List.mem_singleton] at here
    exact newPort f mem (same.trans here)

/-- A field that only one entry changes stays distinct where no other entry has the new value. -/
theorem nodup_map_modify {α : Type*} {f : MacLearnEntry → α} {g : MacLearnEntry → MacLearnEntry}
    (nodup : (list.map f).Nodup) (here : list[i]? = some e)
    (fresh : ∀ j b, list[j]? = some b → f b = f (g e) → j = i) :
    ((list.modify i g).map f).Nodup := by
  rw [nodup_map_iff] at nodup ⊢
  have atI {a : MacLearnEntry} (isEntry : (list.modify i g)[i]? = some a) : a = g e := by
    rw [List.getElem?_modify, here] at isEntry
    simpa using isEntry.symm
  have elsewhere {j : ℕ} {a : MacLearnEntry} (other : i ≠ j)
      (isEntry : (list.modify i g)[j]? = some a) : list[j]? = some a := by
    rw [List.getElem?_modify] at isEntry
    simpa [if_neg other] using isEntry
  intro j k a b atJ atK same
  by_cases isJ : i = j
  · subst isJ
    by_cases isK : i = k
    · exact isK
    · exact (fresh k b (elsewhere isK atK) (by rw [← atI atJ, same])).symm
  · by_cases isK : i = k
    · subst isK
      exact fresh j a (elsewhere isJ atJ) (by rw [same, ← atI atK])
    · exact nodup j k a b (elsewhere isJ atJ) (elsewhere isK atK) same

theorem mem_modify {g : MacLearnEntry → MacLearnEntry} {f : MacLearnEntry}
    (here : list[i]? = some e) (inside : f ∈ list.modify i g) :
    f = g e ∨ ∃ j, j ≠ i ∧ list[j]? = some f := by
  obtain ⟨j, isEntry⟩ := List.mem_iff_getElem?.mp inside
  rw [List.getElem?_modify] at isEntry
  by_cases atI : i = j
  · subst atI
    rw [here] at isEntry
    exact .inl (by simpa using isEntry.symm)
  · exact .inr ⟨j, fun same => atI same.symm, by simpa [if_neg atI] using isEntry⟩

theorem map_modify_same {α : Type*} {f : MacLearnEntry → α} {g : MacLearnEntry → MacLearnEntry}
    (same : ∀ e, f (g e) = f e) : (list.modify i g).map f = list.map f := by
  refine List.ext_getElem? fun j => ?_
  rw [List.getElem?_map, List.getElem?_map, List.getElem?_modify]
  by_cases atI : i = j
  · simp [atI, Option.map_map, Function.comp_def, same]
  · simp [atI]

end Lists

/-! ### Learning -/

/-- The MAC is not listed on another port, or its new port has no entry. -/
def LearnFits (t : MacLearnTable) (ifname : IfName) (mac : Mac) : Prop :=
  ∀ e ∈ t.list, e.mac = mac → e.ifname ≠ ifname → ∀ f ∈ t.list, f.ifname ≠ ifname

instance (t : MacLearnTable) (ifname : IfName) (mac : Mac) : Decidable (LearnFits t ifname mac) :=
  inferInstanceAs (Decidable (∀ e ∈ t.list,
    e.mac = mac → e.ifname ≠ ifname → ∀ f ∈ t.list, f.ifname ≠ ifname))

theorem inv_rebuild (distinct : Distinct t.list) (legit : ∀ e ∈ t.list, Legit t.ifaceMacs e.mac)
    (small : t.list.length ≤ macLearnMaxEntries) : t.hashRebuildLocked.Inv :=
  ⟨distinct, legit, small, indexes_rebuild t.list⟩

theorem inv_tableInit : MacLearnTable.tableInit.Inv :=
  ⟨⟨List.nodup_nil, List.nodup_nil⟩, by simp [MacLearnTable.tableInit],
    Nat.zero_le _, indexes_empty []⟩

theorem legit_of_learns {src : MacLearnSrc} (learns : t.learns ifname mac src = true) :
    Legit t.ifaceMacs mac := by
  simp only [MacLearnTable.learns, MacLearnTable.macIsLocalIfaceLocked, Bool.and_eq_true,
    Bool.not_eq_true', List.contains_eq_mem, decide_eq_false_iff_not] at learns
  exact ⟨learns.1.1.2, learns.1.2, learns.2⟩

/-- An entry at another place than that of a MAC has another MAC. -/
theorem Distinct.mac_ne {list : List MacLearnEntry} (distinct : Distinct list) {i j : ℕ}
    {e f : MacLearnEntry} (atI : list[i]? = some e) (atJ : list[j]? = some f) (other : j ≠ i) :
    f.mac ≠ e.mac :=
  fun same => other (nodup_map_iff.mp distinct.macs j i f e atJ atI same)

/-- What an upsert leaves: the new pair, and the entries of the other MACs. -/
theorem upsert_entries (inv : t.Inv) {f : MacLearnEntry}
    (inside : f ∈ (t.upsertLocked ifname mac).list) :
    f = ⟨mac, ifname⟩ ∨ (f ∈ t.list ∧ f.mac ≠ mac) := by
  unfold MacLearnTable.upsertLocked at inside
  split at inside
  case h_1 i found =>
    obtain ⟨e, here, rfl⟩ := findIdxByMac_some found
    split at inside
    case isTrue same =>
      rw [here, Option.map_some, Option.some.injEq] at same
      obtain ⟨j, atJ⟩ := List.mem_iff_getElem?.mp inside
      by_cases atI : j = i
      · rw [atI, here] at atJ
        exact .inl (by rw [← Option.some.inj atJ, ← same])
      · exact .inr ⟨inside, inv.distinct.mac_ne here atJ atI⟩
    case isFalse =>
      rcases mem_modify here inside with rfl | ⟨j, other, atJ⟩
      · exact .inl rfl
      · exact .inr ⟨List.mem_of_getElem? atJ, inv.distinct.mac_ne here atJ other⟩
  case h_2 absent =>
    have newMac := findIdxByMac_none inv absent
    split at inside
    case h_1 i found =>
      obtain ⟨e, here, rfl⟩ := findIdxByIfname_some found
      rcases mem_modify here inside with rfl | ⟨j, other, atJ⟩
      · exact .inl rfl
      · exact .inr ⟨List.mem_of_getElem? atJ, newMac f (List.mem_of_getElem? atJ)⟩
    case h_2 =>
      split at inside
      · exact .inr ⟨inside, newMac f inside⟩
      · rcases List.mem_append.mp inside with old | new
        · exact .inr ⟨old, newMac f old⟩
        · exact .inl (List.mem_singleton.mp new)

@[simp] theorem upsert_ifaceMacs : (t.upsertLocked ifname mac).ifaceMacs = t.ifaceMacs := by
  unfold MacLearnTable.upsertLocked
  split <;> split <;> try rfl
  split <;> rfl

/-- An upsert that fits keeps the table. -/
theorem MacLearnTable.Inv.upsert (inv : t.Inv) (legit : Legit t.ifaceMacs mac)
    (fits : LearnFits t ifname mac) : (t.upsertLocked ifname mac).Inv := by
  have allLegit : ∀ f ∈ (t.upsertLocked ifname mac).list, Legit t.ifaceMacs f.mac := by
    intro f inside
    rcases upsert_entries inv inside with rfl | ⟨old, -⟩
    · exact legit
    · exact inv.legit f old
  unfold MacLearnTable.upsertLocked at allLegit ⊢
  split
  case h_1 i found =>
    simp only [found] at allLegit
    obtain ⟨e, here, rfl⟩ := findIdxByMac_some found
    split
    case isTrue => exact inv
    case isFalse elsewhere =>
      rw [if_neg elsewhere] at allLegit
      have moved : e.ifname ≠ ifname := fun same => elsewhere (by rw [here, Option.map_some, same])
      have noOther := fits e (List.mem_of_getElem? here) rfl moved
      have sameMacs : (t.list.modify i fun e => { e with ifname }).map MacLearnEntry.mac =
          t.list.map MacLearnEntry.mac := map_modify_same fun _ => rfl
      refine ⟨⟨by rw [sameMacs]; exact inv.distinct.macs, ?_⟩, allLegit, ?_, ?_⟩
      · exact nodup_map_modify inv.distinct.ports here fun j f atJ same =>
          absurd same (noOther f (List.mem_of_getElem? atJ))
      · rw [List.length_modify]
        exact inv.small
      · rw [List.length_modify]
        exact inv.indexed.congr sameMacs
  case h_2 absent =>
    simp only [absent] at allLegit
    have newMac := findIdxByMac_none inv absent
    split
    case h_1 i found =>
      simp only [found] at allLegit
      obtain ⟨e, here, -⟩ := findIdxByIfname_some found
      have samePorts : (t.list.modify i fun e => { e with mac }).map MacLearnEntry.ifname =
          t.list.map MacLearnEntry.ifname := map_modify_same fun _ => rfl
      refine inv_rebuild ⟨?_, ?_⟩ allLegit (by rw [List.length_modify]; exact inv.small)
      · exact nodup_map_modify inv.distinct.macs here fun j f atJ same =>
          absurd same (newMac f (List.mem_of_getElem? atJ))
      · exact samePorts.symm ▸ inv.distinct.ports
    case h_2 none =>
      simp only [none] at allLegit
      split
      case isTrue => exact inv
      case isFalse room =>
        rw [if_neg room] at allLegit
        refine inv_rebuild (inv.distinct.append newMac (findIdxByIfname_none none)) allLegit ?_
        rw [List.length_append, List.length_singleton]
        omega

/-! ### Purges -/

theorem MacLearnTable.Inv.keep (distinct : Distinct t.list)
    (small : t.list.length ≤ macLearnMaxEntries)
    (indexed : Indexes macHashKey MacLearnEntry.mac t.list t.list.length t.index)
    {wanted : MacLearnEntry → Bool}
    (legit : ∀ e ∈ t.list, wanted e = true → Legit t.ifaceMacs e.mac) : (t.keep wanted).Inv := by
  have kept : ∀ e ∈ t.list.filter wanted, Legit t.ifaceMacs e.mac := fun e inside =>
    legit e (List.mem_filter.mp inside).1 (List.mem_filter.mp inside).2
  unfold MacLearnTable.keep
  dsimp only
  split
  case isTrue =>
    exact inv_rebuild (distinct.filter wanted) kept
      (Nat.le_trans (List.length_filter_le wanted t.list) small)
  case isFalse all =>
    have same : t.list.filter wanted = t.list :=
      List.length_filter_eq_length_iff.mp (not_not.mp all) |> List.filter_eq_self.mpr
    exact ⟨distinct, same ▸ kept, small, indexed⟩

theorem keep_entries {wanted : MacLearnEntry → Bool} {e : MacLearnEntry}
    (inside : e ∈ (t.keep wanted).list) : e ∈ t.list := by
  unfold MacLearnTable.keep at inside
  dsimp only at inside
  split at inside
  · exact (List.mem_filter.mp inside).1
  · exact inside

/-- A purge of the appliance's MACs makes every entry legitimate again. -/
theorem MacLearnTable.Inv.purgeLocalIfaceMacs (distinct : Distinct t.list)
    (small : t.list.length ≤ macLearnMaxEntries)
    (indexed : Indexes macHashKey MacLearnEntry.mac t.list t.list.length t.index)
    (unicast : ∀ e ∈ t.list, macIsZero e.mac = false ∧ macIsMulticast e.mac = false) :
    t.purgeLocalIfaceMacsLocked.Inv :=
  MacLearnTable.Inv.keep distinct small indexed fun e inside foreign =>
    ⟨(unicast e inside).1, (unicast e inside).2, by
      simpa [MacLearnTable.macIsLocalIfaceLocked] using foreign⟩

/-- With distinct ports there is nothing to collapse. -/
theorem onePerIfname_eq {rest tmp : List MacLearnEntry}
    (ports : ((tmp ++ rest).map MacLearnEntry.ifname).Nodup)
    (small : (tmp ++ rest).length ≤ macLearnMaxEntries) :
    MacLearnTable.onePerIfname tmp rest = tmp ++ rest := by
  induction rest generalizing tmp with
  | nil => rw [MacLearnTable.onePerIfname, List.append_nil]
  | cons e rest ih =>
    rw [List.append_cons] at ports small
    have fresh : (tmp.findIdx? fun f => f.ifname = e.ifname) = none := by
      rw [List.findIdx?_eq_none_iff]
      intro f inside
      have nodup := (List.nodup_append.mp (List.map_append ▸ ports)).1
      rw [List.map_append] at nodup
      have apart := (List.nodup_append.mp nodup).2.2 f.ifname (List.mem_map_of_mem inside)
        e.ifname (by simp)
      simpa using apart
    have room : tmp.length < macLearnMaxEntries := by
      simp only [List.length_append, List.length_singleton] at small
      omega
    rw [MacLearnTable.onePerIfname]
    simp only [fresh, if_pos room]
    rw [ih ports small, List.append_assoc, List.singleton_append]

theorem enforceOneMacPerIfname_eq (ports : (t.list.map MacLearnEntry.ifname).Nodup)
    (small : t.list.length ≤ macLearnMaxEntries) : t.enforceOneMacPerIfnameLocked = t := by
  unfold MacLearnTable.enforceOneMacPerIfnameLocked
  have all : MacLearnTable.onePerIfname [] t.list = t.list :=
    onePerIfname_eq (by simpa using ports) (by simpa using small)
  simp only [all, ne_eq, not_true_eq_false, if_false]

/-! ### Loading the log -/

/-- No line gives a port a MAC that another port has at that line. -/
def LinesFit (env : Env) (t : MacLearnTable) : List MacLine → Prop
  | [] => True
  | line :: lines =>
    match t.loadLine env line with
    | .skip => LinesFit env t lines
    | .stop => True
    | .store t' e =>
      (∀ f ∈ t.list, f.mac = e.mac → f.ifname = e.ifname) ∧ LinesFit env t' lines

/-- Whether the lines fit is found line by line. -/
instance LinesFit.decidable (env : Env) :
    ∀ (t : MacLearnTable) (lines : List MacLine), Decidable (LinesFit env t lines)
  | _, [] => .isTrue trivial
  | t, line :: lines =>
    match effect : t.loadLine env line with
    | .skip =>
      have := LinesFit.decidable env t lines
      decidable_of_iff (LinesFit env t lines) (by rw [LinesFit, effect])
    | .stop => .isTrue (by rw [LinesFit, effect]; trivial)
    | .store t' e =>
      have := LinesFit.decidable env t' lines
      decidable_of_iff ((∀ f ∈ t.list, f.mac = e.mac → f.ifname = e.ifname) ∧ LinesFit env t' lines)
        (by rw [LinesFit, effect])

/-- The port that each MAC was last learned on, once some pairs are learned. -/
def noted (lastPort : Mac → Option IfName) (learned : List MacLearnEntry) : Mac → Option IfName :=
  learned.foldl (fun last e => Function.update last e.mac (some e.ifname)) lastPort

/-- The table without its index. -/
structure Consistent (t : MacLearnTable) (lastPort : Mac → Option IfName) : Prop where
  distinct : Distinct t.list
  legit : ∀ e ∈ t.list, Legit t.ifaceMacs e.mac
  small : t.list.length ≤ macLearnMaxEntries
  last : ∀ e ∈ t.list, lastPort e.mac = some e.ifname

variable {env : Env} {lastPort : Mac → Option IfName}

/-- The pair that was stored is the last one, and the other MACs are where they were. -/
theorem last_stored {list list' : List MacLearnEntry} {e : MacLearnEntry}
    (last : ∀ f ∈ list, lastPort f.mac = some f.ifname)
    (entries : ∀ f ∈ list', f = e ∨ (f ∈ list ∧ f.mac ≠ e.mac)) :
    ∀ f ∈ list', Function.update lastPort e.mac (some e.ifname) f.mac = some f.ifname := by
  intro f inside
  rcases entries f inside with rfl | ⟨old, other⟩
  · exact Function.update_self ..
  · rw [Function.update_of_ne other]
    exact last f old

theorem legit_stored {ifaceMacs : List Mac} {list list' : List MacLearnEntry} {e : MacLearnEntry}
    (legit : ∀ f ∈ list, Legit ifaceMacs f.mac) (new : Legit ifaceMacs e.mac)
    (entries : ∀ f ∈ list', f = e ∨ (f ∈ list ∧ f.mac ≠ e.mac)) :
    ∀ f ∈ list', Legit ifaceMacs f.mac := by
  intro f inside
  rcases entries f inside with rfl | ⟨old, -⟩
  · exact new
  · exact legit f old

/-- A port's entry takes a MAC that no other port has. -/
theorem Consistent.replace (consistent : Consistent t lastPort) (legit : Legit t.ifaceMacs mac)
    {i : ℕ} (found : t.findIdxByIfname ifname = some i)
    (fits : ∀ f ∈ t.list, f.mac = mac → f.ifname = ifname) :
    Consistent { t with list := t.list.modify i fun e => { e with mac } }
      (Function.update lastPort mac (some ifname)) := by
  obtain ⟨e, here, rfl⟩ := findIdxByIfname_some found
  have only : ∀ j f, t.list[j]? = some f → f.mac = mac → j = i := fun j f atJ same =>
    nodup_map_iff.mp consistent.distinct.ports j i f e atJ here
      (fits f (List.mem_of_getElem? atJ) same)
  have entries : ∀ f ∈ t.list.modify i fun e => { e with mac },
      f = ⟨mac, e.ifname⟩ ∨ (f ∈ t.list ∧ f.mac ≠ mac) := by
    intro f inside
    rcases mem_modify here inside with rfl | ⟨j, other, atJ⟩
    · exact .inl rfl
    · exact .inr ⟨List.mem_of_getElem? atJ, fun same => other (only j f atJ same)⟩
  have samePorts : (t.list.modify i fun e => { e with mac }).map MacLearnEntry.ifname =
      t.list.map MacLearnEntry.ifname := map_modify_same fun _ => rfl
  exact {
    distinct := ⟨nodup_map_modify consistent.distinct.macs here only,
      samePorts.symm ▸ consistent.distinct.ports⟩
    legit := legit_stored consistent.legit legit entries
    small := by rw [List.length_modify]; exact consistent.small
    last := last_stored consistent.last entries }

/-- A port without an entry gets one, with a MAC that no other port has. -/
theorem Consistent.append (consistent : Consistent t lastPort) (legit : Legit t.ifaceMacs mac)
    (absent : t.findIdxByIfname ifname = none) (room : t.list.length < macLearnMaxEntries)
    (fits : ∀ f ∈ t.list, f.mac = mac → f.ifname = ifname) :
    Consistent { t with list := t.list ++ [⟨mac, ifname⟩] }
      (Function.update lastPort mac (some ifname)) := by
  have newPort := findIdxByIfname_none absent
  have newMac : ∀ f ∈ t.list, f.mac ≠ mac := fun f inside same =>
    newPort f inside (fits f inside same)
  have entries : ∀ f ∈ t.list ++ [⟨mac, ifname⟩],
      f = ⟨mac, ifname⟩ ∨ (f ∈ t.list ∧ f.mac ≠ mac) := by
    intro f inside
    rcases List.mem_append.mp inside with old | new
    · exact .inr ⟨old, newMac f old⟩
    · exact .inl (List.mem_singleton.mp new)
  exact {
    distinct := consistent.distinct.append newMac newPort
    legit := legit_stored consistent.legit legit entries
    small := by rw [List.length_append, List.length_singleton]; exact room
    last := last_stored consistent.last entries }

/-- What a line stores keeps the table, where the line fits. -/
theorem Consistent.loadLine (consistent : Consistent t lastPort) {line : MacLine}
    {t' : MacLearnTable} {e : MacLearnEntry} (stores : t.loadLine env line = .store t' e)
    (fits : ∀ f ∈ t.list, f.mac = e.mac → f.ifname = e.ifname) :
    Consistent t' (Function.update lastPort e.mac (some e.ifname)) := by
  unfold MacLearnTable.loadLine at stores
  split at stores
  case h_2 => cases stores
  case h_1 ifname mac =>
    split at stores
    · cases stores
    split at stores
    · cases stores
    split at stores
    · cases stores
    rename_i unicast foreign
    have legit : Legit t.ifaceMacs mac := by
      simp only [Bool.or_eq_true, not_or, Bool.not_eq_true] at unicast
      exact ⟨unicast.1, unicast.2, by
        simpa [MacLearnTable.macIsLocalIfaceLocked] using foreign⟩
    split at stores
    case h_1 i found =>
      cases stores
      exact consistent.replace legit found fits
    case h_2 absent =>
      split at stores
      · cases stores
      split at stores
      · cases stores
      rename_i room
      cases stores
      exact consistent.append legit absent (Nat.lt_of_not_le room) fits

theorem Consistent.loadLines (consistent : Consistent t lastPort) {lines : List MacLine}
    (fits : LinesFit env t lines) :
    Consistent (MacLearnTable.loadLines env t lines).1
      (noted lastPort (MacLearnTable.loadLines env t lines).2) := by
  induction lines generalizing t lastPort with
  | nil => exact consistent
  | cons line lines ih =>
    rw [LinesFit] at fits
    rw [MacLearnTable.loadLines]
    cases effect : t.loadLine env line with
    | skip =>
      rw [effect] at fits
      exact ih consistent fits
    | stop => exact consistent
    | store t' e =>
      rw [effect] at fits
      exact ih (consistent.loadLine effect fits.1) fits.2

/-- Where no line is stored, the table is as it was. -/
theorem loadLines_none {lines : List MacLine}
    (none : (MacLearnTable.loadLines env t lines).2 = []) :
    (MacLearnTable.loadLines env t lines).1 = t := by
  induction lines with
  | nil => rfl
  | cons line lines ih =>
    rw [MacLearnTable.loadLines] at none ⊢
    cases effect : t.loadLine env line with
    | skip =>
      rw [effect] at none
      exact ih none
    | stop => rfl
    | store t' e =>
      rw [effect] at none
      cases none

/-! ### Runs -/

/-- The table, with the port that each MAC was last learned on. -/
structure Fdb where
  table : MacLearnTable
  lastPort : Mac → Option IfName

/-- What happens to the table. -/
inductive MacOp
  | learn (ifname : IfName) (mac : Mac) (src : MacLearnSrc)
  | maintain (env : Env)
  | refresh (env : Env)
  | restore (env : Env) (lines : List MacLine)

namespace Fdb

/-- The table at the start. -/
def init : Fdb := ⟨.tableInit, fun _ => none⟩

/-- One operation.  The restore is the part behind the refresh, which is a step of its own. -/
def step (s : Fdb) : MacOp → Option Fdb
  | .learn ifname mac src =>
    some ⟨s.table.tableLearn ifname mac src,
      if s.table.learns ifname mac src then Function.update s.lastPort mac (some ifname)
      else s.lastPort⟩
  | .maintain env => some { s with table := s.table.tablePurgeOrphanLocked env }
  | .refresh env => some { s with table := s.table.macLearnRefreshIfaceMacs env }
  | .restore env lines =>
    some ⟨s.table.macLearnRestore env lines,
      noted s.lastPort (MacLearnTable.loadLines env s.table lines).2⟩

/-- No MAC moves onto a port that has another entry, and no line gives a port the MAC of another. -/
def Fits (s : Fdb) : MacOp → Prop
  | .learn ifname mac src => s.table.learns ifname mac src = true → LearnFits s.table ifname mac
  | .restore env lines => LinesFit env s.table lines
  | _ => True

instance : ∀ (s : Fdb) (op : MacOp), Decidable (s.Fits op)
  | s, .learn ifname mac src =>
    inferInstanceAs (Decidable
      (s.table.learns ifname mac src = true → LearnFits s.table ifname mac))
  | s, .restore env lines => LinesFit.decidable env s.table lines
  | _, .maintain _ => .isTrue trivial
  | _, .refresh _ => .isTrue trivial

/-- The table is kept up, and every entry has the port that its MAC was last learned on. -/
structure Good (s : Fdb) : Prop where
  inv : s.table.Inv
  last : ∀ e ∈ s.table.list, s.lastPort e.mac = some e.ifname

/-- A lookup finds every listed MAC, and answers with the port that it was last learned on. -/
structure Answers (s : Fdb) : Prop where
  listed : ∀ e ∈ s.table.list, s.table.tableLookup e.mac = some e.ifname
  last : ∀ mac ifname, s.table.tableLookup mac = some ifname → s.lastPort mac = some ifname

variable {s : Fdb}

theorem Good.consistent (good : s.Good) : Consistent s.table s.lastPort :=
  ⟨good.inv.distinct, good.inv.legit, good.inv.small, good.last⟩

theorem Good.answers (good : s.Good) : s.Answers := by
  constructor
  · intro e inside
    obtain ⟨i, here⟩ := List.mem_iff_getElem?.mp inside
    rw [MacLearnTable.tableLookup, good.inv.sound.found i e here, Option.bind_some, here,
      Option.map_some]
  · intro mac ifname answer
    obtain ⟨i, found, isPort⟩ := Option.bind_eq_some_iff.mp answer
    obtain ⟨e, here, rfl⟩ := findIdxByMac_some found
    rw [here, Option.map_some, Option.some.injEq] at isPort
    rw [good.last e (List.mem_of_getElem? here), isPort]

theorem Good.keep (good : s.Good) (wanted : MacLearnEntry → Bool) :
    ({ s with table := s.table.keep wanted } : Fdb).Good :=
  ⟨MacLearnTable.Inv.keep good.inv.distinct good.inv.small good.inv.indexed fun e inside _ =>
      good.inv.legit e inside,
    fun e inside => good.last e (keep_entries inside)⟩

theorem Good.learn (good : s.Good) {ifname : IfName} {mac : Mac} {src : MacLearnSrc} {s' : Fdb}
    (fits : s.Fits (.learn ifname mac src)) (taken : s.step (.learn ifname mac src) = some s') :
    s'.Good := by
  cases taken
  by_cases learns : s.table.learns ifname mac src = true
  · simp only [MacLearnTable.tableLearn, if_pos learns]
    exact ⟨good.inv.upsert (legit_of_learns learns) (fits learns),
      last_stored good.last (e := ⟨mac, ifname⟩) fun f inside => upsert_entries good.inv inside⟩
  · simp only [MacLearnTable.tableLearn, if_neg learns]
    exact good

theorem Good.refresh (good : s.Good) (env : Env) :
    ({ s with table := s.table.macLearnRefreshIfaceMacs env } : Fdb).Good :=
  ⟨MacLearnTable.Inv.purgeLocalIfaceMacs good.inv.distinct good.inv.small good.inv.indexed
      fun e inside => ⟨(good.inv.legit e inside).nonzero, (good.inv.legit e inside).unicast⟩,
    fun e inside =>
      good.last e (keep_entries (t := s.table.refreshIfaceMacsLocked env) inside)⟩

/-- A log that fits is loaded. -/
theorem Good.load (good : s.Good) {env : Env} {lines : List MacLine}
    (fits : LinesFit env s.table lines) :
    Good ⟨s.table.macFdbPersistLoadLocked env lines,
      noted s.lastPort (MacLearnTable.loadLines env s.table lines).2⟩ := by
  have loaded := good.consistent.loadLines fits
  by_cases none : (MacLearnTable.loadLines env s.table lines).2 = []
  · simp only [MacLearnTable.macFdbPersistLoadLocked, none, loadLines_none none]
    exact good
  · simp only [MacLearnTable.macFdbPersistLoadLocked, if_neg none]
    rw [enforceOneMacPerIfname_eq loaded.distinct.ports loaded.small]
    exact ⟨inv_rebuild loaded.distinct loaded.legit loaded.small, loaded.last⟩

theorem Good.restore (good : s.Good) {env : Env} {lines : List MacLine}
    (fits : LinesFit env s.table lines) :
    Good ⟨s.table.macLearnRestore env lines,
      noted s.lastPort (MacLearnTable.loadLines env s.table lines).2⟩ := by
  have purged := (good.load fits).keep
    fun e => !(s.table.macFdbPersistLoadLocked env lines).macIsLocalIfaceLocked e.mac
  have same : s.table.macLearnRestore env lines = _ :=
    enforceOneMacPerIfname_eq purged.inv.distinct.ports purged.inv.small
  rw [same]
  exact purged

theorem good_init : init.Good := ⟨inv_tableInit, by simp [init, MacLearnTable.tableInit]⟩

/-- In a run whose steps all fit, the table is kept up. -/
theorem good_of_reached (reached : ReachableWith step Fits init s) : s.Good := by
  refine reached.invariant good_init fun s op s' good fits taken => ?_
  cases op with
  | learn ifname mac src => exact good.learn fits taken
  | maintain env =>
    cases taken
    exact good.keep _
  | refresh env =>
    cases taken
    exact good.refresh env
  | restore env lines =>
    cases taken
    exact good.restore fits

end Fdb

/-- An upsert of a learned pair keeps the table only where it fits. -/
theorem tableLearn_sound_iff (inv : t.Inv) {src : MacLearnSrc}
    (learns : t.learns ifname mac src = true) :
    (t.tableLearn ifname mac src).Sound ↔ LearnFits t ifname mac := by
  rw [MacLearnTable.tableLearn, if_pos learns]
  refine ⟨fun sound e inside isMac moved f there isPort => ?_,
    fun fits => (inv.upsert (legit_of_learns learns) fits).sound⟩
  obtain ⟨i, here⟩ := List.mem_iff_getElem?.mp inside
  obtain ⟨j, atJ⟩ := List.mem_iff_getElem?.mp there
  have found := inv.sound.found i e here
  rw [isMac] at found
  have other : i ≠ j := by
    rintro rfl
    rw [here, Option.some.injEq] at atJ
    exact moved (atJ ▸ isPort)
  have ports := sound.distinct.ports
  simp only [MacLearnTable.upsertLocked, found, here, Option.map_some, Option.some.injEq,
    if_neg moved] at ports
  have moveHere : (t.list.modify i fun e => { e with ifname })[i]? = some { e with ifname } := by
    simp [here]
  have stays : (t.list.modify i fun e => { e with ifname })[j]? = some f := by
    simp [atJ, other]
  exact other (nodup_map_iff.mp ports i j _ f moveHere stays isPort.symm)

/-! ### What the table answers -/

/-- In every run in which no MAC moves onto a port that has another entry and no line of the log
gives a port the MAC of another one, the table is what it is meant to be, and a lookup answers with
the port that the MAC was last learned on. -/
theorem macTable_runs {s : Fdb} (reached : ReachableWith Fdb.step Fdb.Fits Fdb.init s) :
    s.table.Sound ∧ s.Answers :=
  ⟨(Fdb.good_of_reached reached).inv.sound, (Fdb.good_of_reached reached).answers⟩

/-- A LAN port. -/
def lanPort (digit : Char) : IfName := ⟨['l', 'a', 'n', digit], Nat.le_of_ble_eq_true rfl⟩

/-- The MAC of a client. -/
def clientMac (last : UInt8) : Mac := #v[2, 0, 0, 0, 0].push last

/-- An appliance with two LAN ports. -/
def twoPorts : Env where
  locals := [lanPort '1', lanPort '2']
  cfgLocals := [lanPort '1', lanPort '2']
  sock := true
  hwaddr := fun _ => none

/-- A client that takes the place of another one on its port, moves to a free port, and is read back
from the log. -/
def replaceMove : List MacOp :=
  [.refresh twoPorts, .learn (lanPort '1') (clientMac 9) .arp,
    .learn (lanPort '1') (clientMac 1) .arp, .learn (lanPort '2') (clientMac 1) .arp,
    .restore twoPorts [.comment, .fields (lanPort '2') (some (clientMac 1))], .maintain twoPorts]

theorem macTable_runs_replaceMove :
    ∃ s : Fdb, s.table.list = [⟨clientMac 1, lanPort '2'⟩] ∧ s.table.Sound ∧ s.Answers := by
  have ends : (runWith Fdb.step Fdb.Fits Fdb.init replaceMove).any
      (fun s => s.table.list = [⟨clientMac 1, lanPort '2'⟩]) = true := by decide +kernel
  obtain ⟨s, reached, listed⟩ := (Option.any_eq_true _ _).mp ends
  exact ⟨s, of_decide_eq_true listed, macTable_runs (.of_runWith replaceMove reached)⟩

/-- A client that moves onto the port of another one leaves that port with two entries; and a log
that names a MAC on two ports leaves the MAC with two entries. -/
theorem macTable_fails :
    (∃ s, Reachable Fdb.step Fdb.init s ∧
      s.table.list = [⟨clientMac 1, lanPort '2'⟩, ⟨clientMac 2, lanPort '2'⟩]) ∧
    (∃ s, Reachable Fdb.step Fdb.init s ∧
      s.table.list = [⟨clientMac 1, lanPort '1'⟩, ⟨clientMac 1, lanPort '2'⟩]) ∧
    ¬ ∀ s, Reachable Fdb.step Fdb.init s → s.table.Sound := by
  have move : (run Fdb.step Fdb.init
      [.learn (lanPort '1') (clientMac 1) .arp, .learn (lanPort '2') (clientMac 2) .arp,
        .learn (lanPort '2') (clientMac 1) .arp]).any
      (fun s => s.table.list =
        [⟨clientMac 1, lanPort '2'⟩, ⟨clientMac 2, lanPort '2'⟩]) = true := by
    decide +kernel
  have log : (run Fdb.step Fdb.init
      [.restore twoPorts [.fields (lanPort '1') (some (clientMac 1)),
        .fields (lanPort '2') (some (clientMac 1))]]).any
      (fun s => s.table.list =
        [⟨clientMac 1, lanPort '1'⟩, ⟨clientMac 1, lanPort '2'⟩]) = true := by
    decide +kernel
  obtain ⟨s, reached, listed⟩ := exists_reachable_of_run _ move
  obtain ⟨s', reached', listed'⟩ := exists_reachable_of_run _ log
  refine ⟨⟨s, reached, of_decide_eq_true listed⟩, ⟨s', reached', of_decide_eq_true listed'⟩, ?_⟩
  intro always
  have ports := (always s reached).distinct.ports
  rw [of_decide_eq_true listed] at ports
  exact absurd ports (by decide)

end NeEncryptor.Flow
