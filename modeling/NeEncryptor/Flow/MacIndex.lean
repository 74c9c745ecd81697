import NeEncryptor.Flow.MacRuns

/-!
# The index of the MAC table in every run

MACs move between ports, and a log may name one twice, so the list can hold several entries of a MAC
or of a port.  The index follows the list all the same: in every run a lookup answers with the last
entry of the MAC, and misses only a MAC without an entry.
-/

namespace NeEncryptor.Flow

open BucketChains Transition

variable {t : MacLearnTable} {ifname : IfName} {mac : Mac}

/-- Legitimate entries, no more than the table has room for. -/
structure MacLearnTable.Listed (t : MacLearnTable) : Prop where
  legit : ∀ e ∈ t.list, Legit t.ifaceMacs e.mac
  small : t.list.length ≤ macLearnMaxEntries

/-- And the index enters the whole list. -/
structure MacLearnTable.Kept (t : MacLearnTable) : Prop extends t.Listed where
  indexed : Indexes macHashKey MacLearnEntry.mac t.list t.list.length t.index

theorem MacLearnTable.Listed.rebuild (listed : t.Listed) : t.hashRebuildLocked.Kept :=
  ⟨⟨listed.legit, listed.small⟩, indexes_rebuild t.list⟩

/-- A port's entry takes another MAC. -/
theorem MacLearnTable.Listed.setMac (listed : t.Listed) (legit : Legit t.ifaceMacs mac) (i : ℕ) :
    MacLearnTable.Listed { t with list := t.list.modify i fun e => { e with mac } } where
  legit := by
    intro e inside
    obtain ⟨j, isEntry⟩ := List.mem_iff_getElem?.mp inside
    rw [List.getElem?_modify] at isEntry
    obtain ⟨f, here, same⟩ := Option.map_eq_some_iff.mp isEntry
    by_cases atI : i = j
    · rw [if_pos atI] at same
      rw [← same]
      exact legit
    · rw [if_neg atI] at same
      exact same ▸ listed.legit f (List.mem_of_getElem? here)
  small := by
    rw [List.length_modify]
    exact listed.small

theorem MacLearnTable.Listed.append (listed : t.Listed) (legit : Legit t.ifaceMacs mac)
    (room : ¬ macLearnMaxEntries ≤ t.list.length) :
    MacLearnTable.Listed { t with list := t.list ++ [⟨mac, ifname⟩] } where
  legit := by
    intro e inside
    rcases List.mem_append.mp inside with old | new
    · exact listed.legit e old
    · rw [List.mem_singleton.mp new]
      exact legit
  small := by
    rw [List.length_append, List.length_singleton]
    omega

/-- A MAC that moves keeps its place, so the index stays as it is. -/
theorem MacLearnTable.Kept.upsert (kept : t.Kept) (legit : Legit t.ifaceMacs mac) :
    (t.upsertLocked ifname mac).Kept := by
  unfold MacLearnTable.upsertLocked
  split
  · rename_i i found
    split
    · exact kept
    · have macs : (t.list.modify i fun e => { e with ifname }).map MacLearnEntry.mac =
          t.list.map MacLearnEntry.mac :=
        map_modify_same fun _ => rfl
      refine ⟨⟨fun e inside => ?_, ?_⟩, ?_⟩
      · have mem := List.mem_map_of_mem (f := MacLearnEntry.mac) inside
        rw [macs] at mem
        obtain ⟨f, old, same⟩ := List.mem_map.mp mem
        exact same ▸ kept.legit f old
      · rw [List.length_modify]
        exact kept.small
      · rw [List.length_modify]
        exact kept.indexed.congr macs
  · split
    · rename_i i found
      exact (kept.toListed.setMac legit i).rebuild
    · split
      · exact kept
      · rename_i room
        exact (kept.toListed.append legit room).rebuild

theorem MacLearnTable.Kept.keep {wanted : MacLearnEntry → Bool}
    (small : t.list.length ≤ macLearnMaxEntries)
    (indexed : Indexes macHashKey MacLearnEntry.mac t.list t.list.length t.index)
    (legit : ∀ e ∈ t.list, wanted e = true → Legit t.ifaceMacs e.mac) : (t.keep wanted).Kept := by
  have kept : ∀ e ∈ t.list.filter wanted, Legit t.ifaceMacs e.mac := fun e inside =>
    legit e (List.mem_filter.mp inside).1 (List.mem_filter.mp inside).2
  unfold MacLearnTable.keep
  dsimp only
  split
  case isTrue =>
    exact MacLearnTable.Listed.rebuild
      ⟨kept, Nat.le_trans (List.length_filter_le wanted t.list) small⟩
  case isFalse all =>
    have same : t.list.filter wanted = t.list :=
      List.length_filter_eq_length_iff.mp (not_not.mp all) |> List.filter_eq_self.mpr
    exact ⟨⟨same ▸ kept, small⟩, indexed⟩

theorem mem_onePerIfname {rest tmp : List MacLearnEntry} {e : MacLearnEntry}
    (inside : e ∈ MacLearnTable.onePerIfname tmp rest) : e ∈ tmp ∨ e ∈ rest := by
  induction rest generalizing tmp with
  | nil => exact .inl inside
  | cons f rest ih =>
    rw [MacLearnTable.onePerIfname] at inside
    split at inside
    · rcases ih inside with old | later
      · rcases List.mem_or_eq_of_mem_set old with old | rfl
        · exact .inl old
        · exact .inr List.mem_cons_self
      · exact .inr (List.mem_cons_of_mem f later)
    · split at inside
      · rcases ih inside with old | later
        · rcases List.mem_append.mp old with old | new
          · exact .inl old
          · exact .inr (List.mem_singleton.mp new ▸ List.mem_cons_self)
        · exact .inr (List.mem_cons_of_mem f later)
      · exact (ih inside).imp_right (List.mem_cons_of_mem f)

theorem length_onePerIfname {rest tmp : List MacLearnEntry}
    (small : tmp.length ≤ macLearnMaxEntries) :
    (MacLearnTable.onePerIfname tmp rest).length ≤ macLearnMaxEntries := by
  induction rest generalizing tmp with
  | nil => exact small
  | cons e rest ih =>
    rw [MacLearnTable.onePerIfname]
    split
    · exact ih (by rw [List.length_set]; exact small)
    · split
      · rename_i room
        exact ih (by rw [List.length_append, List.length_singleton]; exact room)
      · exact ih small

/-- Collapsing the ports drops entries and builds the index anew, or changes nothing. -/
theorem MacLearnTable.Listed.enforce (listed : t.Listed) : t.enforceOneMacPerIfnameLocked.Listed := by
  have fewer : MacLearnTable.Listed { t with list := MacLearnTable.onePerIfname [] t.list } := by
    refine ⟨fun e inside => ?_, length_onePerIfname (Nat.zero_le _)⟩
    rcases mem_onePerIfname inside with none | old
    · exact absurd none List.not_mem_nil
    · exact listed.legit e old
  unfold MacLearnTable.enforceOneMacPerIfnameLocked
  dsimp only
  split
  · exact fewer.rebuild.toListed
  · exact listed

theorem MacLearnTable.Kept.enforce (kept : t.Kept) : t.enforceOneMacPerIfnameLocked.Kept := by
  have listed := kept.toListed.enforce
  unfold MacLearnTable.enforceOneMacPerIfnameLocked at listed ⊢
  dsimp only at listed ⊢
  split
  · rename_i collapsed
    rw [if_pos collapsed] at listed
    exact ⟨listed, indexes_rebuild _⟩
  · exact kept

/-- What a line stores is legitimate, even where the index does not know of it. -/
theorem MacLearnTable.Listed.loadLine (listed : t.Listed) {env : Env} {line : MacLine}
    {t' : MacLearnTable} {e : MacLearnEntry} (stored : t.loadLine env line = .store t' e) :
    t'.Listed ∧ t'.ifaceMacs = t.ifaceMacs := by
  unfold MacLearnTable.loadLine at stored
  split at stored
  · rename_i port mac'
    split at stored
    · cases stored
    split at stored
    · cases stored
    rename_i unicast
    split at stored
    · cases stored
    rename_i foreign
    have legit : Legit t.ifaceMacs mac' := by
      rw [Bool.or_eq_true, not_or] at unicast
      refine ⟨Bool.eq_false_iff.mpr unicast.1, Bool.eq_false_iff.mpr unicast.2, ?_⟩
      simpa [MacLearnTable.macIsLocalIfaceLocked] using foreign
    split at stored
    · rename_i i found
      cases stored
      exact ⟨listed.setMac legit i, rfl⟩
    · split at stored
      · cases stored
      · split at stored
        · cases stored
        · rename_i room
          cases stored
          exact ⟨listed.append legit room, rfl⟩
  · cases stored

theorem MacLearnTable.Listed.loadLines (listed : t.Listed) (env : Env) (lines : List MacLine) :
    (MacLearnTable.loadLines env t lines).1.Listed := by
  induction lines generalizing t with
  | nil => exact listed
  | cons line lines ih =>
    unfold MacLearnTable.loadLines
    split
    · exact ih listed
    · exact listed
    · rename_i t' e stored
      exact ih (listed.loadLine stored).1

theorem MacLearnTable.Kept.load (kept : t.Kept) (env : Env) (lines : List MacLine) :
    (t.macFdbPersistLoadLocked env lines).Kept := by
  have loaded := kept.toListed.loadLines env lines
  unfold MacLearnTable.macFdbPersistLoadLocked
  dsimp only
  split
  · rename_i none
    rw [loadLines_none none]
    exact kept
  · exact loaded.enforce.rebuild

namespace Fdb

variable {s : Fdb}

theorem kept_of_reached (reached : Reachable step init s) : s.table.Kept := by
  have start : init.table.Kept :=
    ⟨⟨fun _ inside => absurd inside List.not_mem_nil, Nat.zero_le _⟩, indexes_empty []⟩
  refine reached.invariant (I := fun s => s.table.Kept) start fun s op s' kept _ taken => ?_
  have purged {u : MacLearnTable} (kept : u.Kept) (wanted : MacLearnEntry → Bool) :
      (u.keep wanted).Kept :=
    MacLearnTable.Kept.keep kept.small kept.indexed fun e inside _ => kept.legit e inside
  cases op with
  | learn ifname mac src =>
    cases taken
    change (s.table.tableLearn ifname mac src).Kept
    unfold MacLearnTable.tableLearn
    split
    · rename_i learns
      exact kept.upsert (legit_of_learns learns)
    · exact kept
  | maintain env =>
    cases taken
    exact purged kept _
  | refresh env =>
    cases taken
    refine MacLearnTable.Kept.keep kept.small kept.indexed fun e inside foreign => ?_
    have legit := kept.legit e inside
    exact ⟨legit.nonzero, legit.unicast, by
      simpa [MacLearnTable.macIsLocalIfaceLocked] using foreign⟩
  | restore env lines =>
    cases taken
    exact (purged (kept.load env lines) _).enforce

end Fdb

/-- In every run, whatever clients move and whatever the log says: the table has no more entries
than its room and no MAC of the appliance, and a lookup answers with the last entry of the MAC, or
with nothing where the MAC has no entry. -/
theorem lookup_last_entry {s : Fdb} (reached : Reachable Fdb.step Fdb.init s) :
    s.table.list.length ≤ macLearnMaxEntries ∧
      (∀ e ∈ s.table.list, Legit s.table.ifaceMacs e.mac) ∧
      ∀ mac, s.table.tableLookup mac =
        (s.table.list.reverse.find? fun e => e.mac = mac).map MacLearnEntry.ifname := by
  have kept := Fdb.kept_of_reached reached
  refine ⟨kept.small, kept.legit, fun mac => ?_⟩
  rw [← search_eq kept.indexed]
  unfold MacLearnTable.tableLookup MacLearnTable.findIdxByMacLocked
  rw [Option.map_bind]
  rfl

/-- Two clients on one port after a move, and a MAC that a log names twice. -/
theorem lookup_last_entry_moved :
    ∃ s : Fdb, s.table.list = [⟨clientMac 1, lanPort '2'⟩, ⟨clientMac 2, lanPort '2'⟩] ∧
      s.table.tableLookup (clientMac 1) =
        (s.table.list.reverse.find? fun e => e.mac = clientMac 1).map MacLearnEntry.ifname := by
  have move : (run Fdb.step Fdb.init
      [.learn (lanPort '1') (clientMac 1) .arp, .learn (lanPort '2') (clientMac 2) .arp,
        .learn (lanPort '2') (clientMac 1) .arp]).any
      (fun s => s.table.list =
        [⟨clientMac 1, lanPort '2'⟩, ⟨clientMac 2, lanPort '2'⟩]) = true := by
    decide +kernel
  obtain ⟨s, reached, listed⟩ := exists_reachable_of_run _ move
  exact ⟨s, of_decide_eq_true listed, (lookup_last_entry reached).2.2 _⟩

end NeEncryptor.Flow
