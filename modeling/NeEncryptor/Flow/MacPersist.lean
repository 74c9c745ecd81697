import Mathlib.Data.List.Perm.Subperm
import NeEncryptor.Flow.MacLog
import NeEncryptor.Flow.MacRuns

/-!
# Saving the MAC table

`mac_fdb_persist_save_locked` merges the log with the table in an array of 256 entries: the first
entries of the log, then those of the table.
-/

namespace NeEncryptor.Flow

open BucketChains CText

namespace MacLearnTable

variable (t : MacLearnTable)

/-- The entry that the seed of the merge takes from a line. -/
def seedEntry (line : MacLine) : Option MacLearnEntry :=
  line.entry.filter fun e =>
    !(macIsZero e.mac || macIsMulticast e.mac) && !t.macIsLocalIfaceLocked e.mac

/-- The loop that seeds the merge from the log. -/
def seedMerge (merged : List MacLearnEntry) : List MacLine → List MacLearnEntry
  | [] => merged
  | line :: lines =>
    if macLearnMaxEntries ≤ merged.length then merged
    else
      match t.seedEntry line with
      | none => seedMerge merged lines
      | some e =>
        if merged.any fun f => f.mac == e.mac then seedMerge merged lines
        else seedMerge (merged ++ [e]) lines

/-- One round of the loop that overlays the table. -/
def overlayEntry (merged : List MacLearnEntry) (e : MacLearnEntry) : List MacLearnEntry :=
  match merged.findIdx? fun f => f.mac == e.mac with
  | some idx => merged.modify idx fun f => { f with ifname := e.ifname }
  | none => if merged.length < macLearnMaxEntries then merged ++ [e] else merged

/-- What is kept of the merge: the entries of the table, and those of ports that have left the
configuration. -/
def keptInLog (env : Env) (e : MacLearnEntry) : Bool :=
  (t.list.any fun f => f.mac == e.mac) || !env.ifnameInConfiguredLocals e.ifname

/-- The entries that `mac_fdb_persist_save_locked` writes. -/
def mergedEntries (env : Env) (lines : List MacLine) : List MacLearnEntry :=
  (t.list.foldl overlayEntry (t.seedMerge [] lines)).filter (t.keptInLog env)

/-- `mac_fdb_log_has_entries`. -/
def macFdbLogHasEntries (lines : List MacLine) : ℕ :=
  lines.countP fun
    | .fields _ _ => true
    | _ => false

/-- `mac_fdb_persist_save_locked`, where every file operation succeeds: the new file, or `none`
where the old one is left alone. -/
def macFdbPersistSaveLocked (env : Env) (file : List Char) : Option (List Char) :=
  if t.list = [] ∧ 0 < macFdbLogHasEntries (readLog file) then none
  else some (logText (t.mergedEntries env (readLog file)))

end MacLearnTable

/-! ## What the save should do -/

/-- The entries of a file that count: no local, zero or multicast MAC. -/
def earlierEntries (t : MacLearnTable) (file : List Char) : List MacLearnEntry :=
  (readLog file).filterMap t.seedEntry

/-- A table that is empty but for the MACs of the interfaces. -/
def freshTable (env : Env) : MacLearnTable := MacLearnTable.tableInit.macLearnRefreshIfaceMacs env

/-- Nothing is lost: neither an entry of the table nor an earlier one whose port has left the
configuration, every MAC has one line, and a restart gets the entries of the configured ports. -/
structure Persists (t : MacLearnTable) (env : Env) (file saved : List Char) : Prop where
  ram : ∀ e ∈ t.list, e ∈ logEntries saved
  orphans : ∀ e ∈ earlierEntries t file, env.ifnameInConfiguredLocals e.ifname = false →
    e ∈ logEntries saved
  once : ((logEntries saved).map MacLearnEntry.mac).Nodup
  restored : ∀ (mac : Mac) (ifname : IfName),
    ((freshTable env).macLearnRestore env (readLog saved)).tableLookup mac = some ifname ↔
      ⟨mac, ifname⟩ ∈ t.list ∧ env.ifnameInConfiguredLocals ifname = true

/-- The first entry of each MAC. -/
def firsts : List MacLearnEntry → List MacLearnEntry
  | [] => []
  | e :: es => e :: (firsts es).filter fun f => f.mac ≠ e.mac

/-- The entries of the first 256 MACs of a file. -/
def front (t : MacLearnTable) (file : List Char) : List MacLearnEntry :=
  (firsts (earlierEntries t file)).take macLearnMaxEntries

/-- The MAC is among those of some entries. -/
def Lists (list : List MacLearnEntry) (mac : Mac) : Prop := mac ∈ list.map MacLearnEntry.mac

instance (list : List MacLearnEntry) (mac : Mac) : Decidable (Lists list mac) :=
  inferInstanceAs (Decidable (_ ∈ _))

/-- When nothing is lost. -/
structure Keeps (t : MacLearnTable) (env : Env) (file : List Char) : Prop where
  named : ∀ e ∈ t.list, e.ifname.Readable
  fits : (front t file).length +
    (t.list.filter fun e => ¬Lists (front t file) e.mac).length ≤ macLearnMaxEntries
  orphans : ∀ e ∈ earlierEntries t file, env.ifnameInConfiguredLocals e.ifname = false →
    e ∈ t.list ∨ e.ifname.Readable ∧ e ∈ front t file ∧ ¬Lists t.list e.mac
  legit : ∀ e ∈ t.list, env.ifnameInConfiguredLocals e.ifname = true →
    Legit (freshTable env).ifaceMacs e.mac

variable {t : MacLearnTable} {env : Env} {file saved : List Char}

/-! ## The seed -/

theorem seedMerge_eq {merged : List MacLearnEntry} {lines : List MacLine}
    (small : merged.length ≤ macLearnMaxEntries) :
    t.seedMerge merged lines =
      (merged ++ (firsts (lines.filterMap t.seedEntry)).filter fun e =>
        ¬Lists merged e.mac).take macLearnMaxEntries := by
  induction lines generalizing merged with
  | nil =>
    simp only [MacLearnTable.seedMerge, List.filterMap_nil, firsts, List.filter_nil,
      List.append_nil]
    rw [List.take_of_length_le small]
  | cons line lines ih =>
    unfold MacLearnTable.seedMerge
    split
    · rename_i full
      rw [List.take_append_of_le_length (by omega), List.take_of_length_le small]
    · rename_i room
      cases found : t.seedEntry line with
      | none =>
        rw [List.filterMap_cons_none found]
        exact ih small
      | some e =>
        rw [List.filterMap_cons_some found, firsts]
        dsimp only
        have known : (merged.any fun f => f.mac == e.mac) = true ↔ Lists merged e.mac := by
          simp only [Lists, List.any_eq_true, beq_iff_eq, List.mem_map]
        by_cases listed : Lists merged e.mac
        · rw [if_pos (known.mpr listed), ih small, List.filter_cons_of_neg (by simpa using listed),
            List.filter_filter]
          congr 2
          refine List.filter_congr fun f _ => ?_
          by_cases same : f.mac = e.mac
          · simp [same, listed]
          · simp [same]
        · rw [if_neg (fun known' => listed (known.mp known')), ih (by
            rw [List.length_append, List.length_singleton]
            omega), List.filter_cons_of_pos (by simpa using listed), List.filter_filter,
            List.append_assoc, List.singleton_append]
          congr 3
          refine List.filter_congr fun f _ => ?_
          simp [Lists, not_or, and_comm, Bool.and_comm]

theorem seedMerge_front : t.seedMerge [] (readLog file) = front t file := by
  rw [seedMerge_eq (Nat.zero_le _), List.nil_append]
  congr 1
  refine List.filter_eq_self.mpr fun e _ => ?_
  simp [Lists]

theorem nodup_firsts (es : List MacLearnEntry) : ((firsts es).map MacLearnEntry.mac).Nodup := by
  induction es with
  | nil => exact List.nodup_nil
  | cons e es ih =>
    rw [firsts, List.map_cons, List.nodup_cons]
    refine ⟨fun mem => ?_, ih.sublist (List.filter_sublist.map _)⟩
    obtain ⟨f, inside, same⟩ := List.mem_map.mp mem
    simpa [same] using (List.mem_filter.mp inside).2

theorem nodup_front : ((front t file).map MacLearnEntry.mac).Nodup :=
  (nodup_firsts _).sublist ((List.take_sublist ..).map _)

theorem mem_of_front {e : MacLearnEntry} (mem : e ∈ front t file) :
    e ∈ earlierEntries t file := by
  have subset (es : List MacLearnEntry) : ∀ f ∈ firsts es, f ∈ es := by
    induction es with
    | nil => exact fun f mem => mem
    | cons e es ih =>
      intro f mem
      rcases List.mem_cons.mp mem with rfl | later
      · exact List.mem_cons_self
      · exact List.mem_cons_of_mem e (ih f (List.mem_filter.mp later).1)
  exact subset _ e (List.mem_of_mem_take mem)

/-! ## The overlay -/

/-- An entry of the merge when the table was laid over it. -/
def overlaid (ram : List MacLearnEntry) (m : MacLearnEntry) : MacLearnEntry :=
  (ram.find? fun e => e.mac == m.mac).getD m

theorem overlaid_of_not_lists {ram : List MacLearnEntry} {m : MacLearnEntry}
    (absent : ¬Lists ram m.mac) : overlaid ram m = m := by
  rw [overlaid, List.find?_eq_none.mpr, Option.getD_none]
  intro e mem same
  exact absent (List.mem_map.mpr ⟨e, mem, by simpa using same⟩)

theorem overlaid_of_mem {ram : List MacLearnEntry} (distinct : (ram.map MacLearnEntry.mac).Nodup)
    {e m : MacLearnEntry} (mem : e ∈ ram) (same : e.mac = m.mac) : overlaid ram m = e := by
  cases found : ram.find? fun f => f.mac == m.mac with
  | none =>
    have absent := List.find?_eq_none.mp found e mem
    simp [same] at absent
  | some f =>
    rw [overlaid, found, Option.getD_some]
    have equal : f.mac = m.mac := by simpa using List.find?_some found
    exact List.inj_on_of_nodup_map distinct (List.mem_of_find?_eq_some found) mem
      (equal.trans same.symm)

theorem mac_overlaid (ram : List MacLearnEntry) (m : MacLearnEntry) :
    (overlaid ram m).mac = m.mac := by
  cases found : ram.find? fun e => e.mac == m.mac with
  | none => rw [overlaid, found, Option.getD_none]
  | some e =>
    rw [overlaid, found, Option.getD_some]
    simpa using List.find?_some found

theorem overlayEntry_listed {merged : List MacLearnEntry} {e : MacLearnEntry}
    (distinct : (merged.map MacLearnEntry.mac).Nodup) (listed : Lists merged e.mac) :
    MacLearnTable.overlayEntry merged e = merged.map fun m => if m.mac = e.mac then e else m := by
  unfold MacLearnTable.overlayEntry
  cases found : merged.findIdx? fun f => f.mac == e.mac with
  | none =>
    obtain ⟨m, mem, same⟩ := List.mem_map.mp listed
    have absent := List.findIdx?_eq_none_iff.mp found m mem
    simp [same] at absent
  | some idx =>
    obtain ⟨inside, at_idx, -⟩ := List.findIdx?_eq_some_iff_getElem.mp found
    have here : merged[idx].mac = e.mac := by simpa using at_idx
    refine List.ext_getElem? fun i => ?_
    dsimp only
    rw [List.getElem?_modify, List.getElem?_map]
    cases entry : merged[i]? with
    | none => simp
    | some m =>
      by_cases same : idx = i
      · subst same
        rw [List.getElem?_eq_getElem inside] at entry
        obtain rfl := Option.some.inj entry
        rw [Option.map_some, if_pos here]
        change some (if idx = idx then MacLearnEntry.mk merged[idx].mac e.ifname
          else merged[idx]) = some e
        rw [if_pos rfl, here]
      · have other : m.mac ≠ e.mac := fun equal =>
          same (nodup_map_iff.mp distinct idx i _ m (List.getElem?_eq_getElem inside) entry
            (here.trans equal.symm))
        simp [same, other]

theorem overlayEntry_absent {merged : List MacLearnEntry} {e : MacLearnEntry}
    (absent : ¬Lists merged e.mac) : MacLearnTable.overlayEntry merged e =
      if merged.length < macLearnMaxEntries then merged ++ [e] else merged := by
  unfold MacLearnTable.overlayEntry
  rw [List.findIdx?_eq_none_iff.mpr]
  intro m mem
  have other : m.mac ≠ e.mac := fun same => absent (List.mem_map.mpr ⟨m, mem, same⟩)
  simpa using other

/-- The whole overlay: the entries of the merge in their places, then what is new, while there is
room. -/
theorem foldl_overlay {ram merged : List MacLearnEntry}
    (distinct : (ram.map MacLearnEntry.mac).Nodup)
    (one : (merged.map MacLearnEntry.mac).Nodup) :
    ram.foldl MacLearnTable.overlayEntry merged = merged.map (overlaid ram) ++
      (ram.filter fun e => ¬Lists merged e.mac).take (macLearnMaxEntries - merged.length) := by
  induction ram generalizing merged with
  | nil =>
    have same : overlaid [] = id := rfl
    simp [same]
  | cons e ram ih =>
    rw [List.map_cons, List.nodup_cons] at distinct
    obtain ⟨new, distinct⟩ := distinct
    have later (m : MacLearnEntry) (other : m.mac ≠ e.mac) :
        overlaid (e :: ram) m = overlaid ram m := by
      rw [overlaid, overlaid, List.find?_cons_of_neg (by simpa using other.symm)]
    have first (m : MacLearnEntry) (same : m.mac = e.mac) : overlaid (e :: ram) m = e := by
      rw [overlaid, List.find?_cons_of_pos (by simp [same])]
      rfl
    have self : overlaid ram e = e := overlaid_of_not_lists new
    rw [List.foldl_cons]
    by_cases listed : Lists merged e.mac
    · have macs : (merged.map fun m => if m.mac = e.mac then e else m).map MacLearnEntry.mac =
          merged.map MacLearnEntry.mac := by
        rw [List.map_map]
        refine List.map_congr_left fun m _ => ?_
        by_cases same : m.mac = e.mac
        · simp [same]
        · simp [same]
      rw [overlayEntry_listed one listed, ih distinct (macs.symm ▸ one), List.length_map,
        List.map_map, List.filter_cons_of_neg (by simpa using listed)]
      congr 1
      · refine List.map_congr_left fun m _ => ?_
        by_cases same : m.mac = e.mac
        · rw [Function.comp_apply, if_pos same, self, first m same]
        · rw [Function.comp_apply, if_neg same, later m same]
      · congr 1
        refine List.filter_congr fun f _ => decide_eq_decide.mpr ?_
        simp only [Lists, macs]
    · have others : merged.map (overlaid (e :: ram)) = merged.map (overlaid ram) := by
        refine List.map_congr_left fun m mem => later m fun same => ?_
        exact listed (List.mem_map.mpr ⟨m, mem, same⟩)
      rw [overlayEntry_absent listed, List.filter_cons_of_pos (by simpa using listed), others]
      split
      · rename_i room
        obtain ⟨k, count⟩ : ∃ k, macLearnMaxEntries - merged.length = k + 1 :=
          ⟨macLearnMaxEntries - merged.length - 1, by omega⟩
        have nodup : ((merged ++ [e]).map MacLearnEntry.mac).Nodup := by
          rw [List.map_append, List.nodup_append]
          refine ⟨one, List.nodup_singleton _, fun a mem b last same => ?_⟩
          rw [List.map_singleton, List.mem_singleton] at last
          exact listed (last ▸ same ▸ mem)
        have rest : macLearnMaxEntries - (merged ++ [e]).length = k := by
          rw [List.length_append, List.length_singleton]
          omega
        have same_new : (ram.filter fun f => ¬Lists (merged ++ [e]) f.mac) =
            ram.filter fun f => ¬Lists merged f.mac := by
          refine List.filter_congr fun f mem => ?_
          have other : f.mac ≠ e.mac := fun same => new (same ▸ List.mem_map_of_mem mem)
          simp [Lists, other]
        rw [ih distinct nodup, rest, same_new, count, List.take_succ_cons, List.map_append,
          List.map_singleton, self, List.append_assoc, List.singleton_append]
      · rename_i full
        have none_left : macLearnMaxEntries - merged.length = 0 := by omega
        rw [ih distinct one, none_left, List.take_zero, List.take_zero]

/-! ## What is written -/

section Written

variable (t env file) in
/-- The merge before the stale entries are dropped. -/
def merge : List MacLearnEntry :=
  (front t file).map (overlaid t.list) ++ (t.list.filter fun e => ¬Lists (front t file) e.mac).take
    (macLearnMaxEntries - (front t file).length)

theorem mergedEntries_eq (distinct : Distinct t.list) :
    t.mergedEntries env (readLog file) = (merge t file).filter (t.keptInLog env) := by
  rw [MacLearnTable.mergedEntries, seedMerge_front, foldl_overlay distinct.macs nodup_front, merge]

theorem length_merge : (merge t file).length ≤ macLearnMaxEntries := by
  have seed : (front t file).length ≤ macLearnMaxEntries := List.length_take_le ..
  have new := List.length_take_le (macLearnMaxEntries - (front t file).length)
    (t.list.filter fun e => ¬Lists (front t file) e.mac)
  rw [merge, List.length_append, List.length_map]
  omega

theorem macs_overlaid (ram merged : List MacLearnEntry) :
    (merged.map (overlaid ram)).map MacLearnEntry.mac = merged.map MacLearnEntry.mac := by
  rw [List.map_map]
  exact List.map_congr_left fun m _ => mac_overlaid ram m

theorem nodup_merge (distinct : Distinct t.list) :
    ((merge t file).map MacLearnEntry.mac).Nodup := by
  rw [merge, List.map_append, macs_overlaid, List.nodup_append]
  refine ⟨nodup_front,
    distinct.macs.sublist (((List.take_sublist ..).trans List.filter_sublist).map _), ?_⟩
  intro a first b second same
  subst same
  obtain ⟨e, mem, rfl⟩ := List.mem_map.mp second
  have absent := (List.mem_filter.mp (List.mem_of_mem_take mem)).2
  exact of_decide_eq_true absent first

/-- An entry of the merge is one of the table, or an earlier one whose MAC the table does not
list. -/
theorem mem_of_merge {e : MacLearnEntry} (distinct : Distinct t.list) (mem : e ∈ merge t file) :
    e ∈ t.list ∨ e ∈ front t file ∧ ¬Lists t.list e.mac := by
  rcases List.mem_append.mp mem with first | second
  · obtain ⟨m, inside, rfl⟩ := List.mem_map.mp first
    by_cases listed : Lists t.list m.mac
    · obtain ⟨f, here, same⟩ := List.mem_map.mp listed
      rw [overlaid_of_mem distinct.macs here same]
      exact .inl here
    · rw [overlaid_of_not_lists listed]
      exact .inr ⟨inside, listed⟩
  · exact .inl (List.mem_filter.mp (List.mem_of_mem_take second)).1

theorem mem_merge_of_front {e : MacLearnEntry} (mem : e ∈ front t file)
    (absent : ¬Lists t.list e.mac) : e ∈ merge t file :=
  List.mem_append_left _ (List.mem_map.mpr ⟨e, mem, overlaid_of_not_lists absent⟩)

/-- The whole table gets into the merge just when there is room for what is new. -/
theorem subset_merge_iff (distinct : Distinct t.list) : (∀ e ∈ t.list, e ∈ merge t file) ↔
    (front t file).length + (t.list.filter fun e => ¬Lists (front t file) e.mac).length ≤
      macLearnMaxEntries := by
  have seed : (front t file).length ≤ macLearnMaxEntries := List.length_take_le ..
  constructor
  · intro all
    have nodup : (t.list.filter fun e => ¬Lists (front t file) e.mac).Nodup :=
      (List.Nodup.of_map _ distinct.macs).filter _
    have subset : (t.list.filter fun e => ¬Lists (front t file) e.mac) ⊆
        (t.list.filter fun e => ¬Lists (front t file) e.mac).take
          (macLearnMaxEntries - (front t file).length) := by
      intro e mem
      obtain ⟨inside, absent⟩ := List.mem_filter.mp mem
      rcases List.mem_append.mp (all e inside) with first | second
      · have listed := List.mem_map_of_mem (f := MacLearnEntry.mac) first
        rw [macs_overlaid] at listed
        exact absurd listed (of_decide_eq_true absent)
      · exact second
    have length := (List.subperm_of_subset nodup subset).length_le
    have most := List.length_take_le (macLearnMaxEntries - (front t file).length)
      (t.list.filter fun e => ¬Lists (front t file) e.mac)
    omega
  · intro fits e mem
    by_cases listed : Lists (front t file) e.mac
    · obtain ⟨m, inside, same⟩ := List.mem_map.mp listed
      exact List.mem_append_left _ (List.mem_map.mpr ⟨m, inside,
        overlaid_of_mem distinct.macs mem same.symm⟩)
    · refine List.mem_append_right _ ?_
      rw [List.take_of_length_le (by omega)]
      exact List.mem_filter.mpr ⟨mem, decide_eq_true listed⟩

theorem keptInLog_iff {e : MacLearnEntry} : t.keptInLog env e = true ↔
    Lists t.list e.mac ∨ env.ifnameInConfiguredLocals e.ifname = false := by
  simp only [MacLearnTable.keptInLog, Lists, Bool.or_eq_true, List.any_eq_true, beq_iff_eq,
    Bool.not_eq_true', List.mem_map]

theorem lists_of_mem {list : List MacLearnEntry} {e : MacLearnEntry} (mem : e ∈ list) :
    Lists list e.mac := List.mem_map_of_mem mem

/-- A written entry of a configured port is one of the table. -/
theorem mem_ram_of_written {e : MacLearnEntry} (distinct : Distinct t.list)
    (mem : e ∈ t.mergedEntries env (readLog file))
    (configured : env.ifnameInConfiguredLocals e.ifname = true) : e ∈ t.list := by
  rw [mergedEntries_eq distinct] at mem
  obtain ⟨inside, kept⟩ := List.mem_filter.mp mem
  rcases mem_of_merge distinct inside with ram | ⟨-, absent⟩
  · exact ram
  · rcases keptInLog_iff.mp kept with listed | orphan
    · exact absurd listed absent
    · rw [configured] at orphan
      cases orphan

theorem plain_written (distinct : Distinct t.list) (plain : ∀ e ∈ t.list, e.ifname.Plain) :
    ∀ e ∈ t.mergedEntries env (readLog file), e.ifname.Plain := by
  intro e mem
  rw [mergedEntries_eq distinct] at mem
  rcases mem_of_merge distinct (List.mem_filter.mp mem).1 with ram | ⟨earlier, -⟩
  · exact plain e ram
  · obtain ⟨line, inside, seeded⟩ := List.mem_filterMap.mp (mem_of_front earlier)
    exact plain_of_logEntries (List.mem_filterMap.mpr
      ⟨line, inside, (Option.filter_eq_some_iff.mp seeded).1⟩)

end Written

/-! ## What is loaded -/

/-- What a load takes of the entries that were written. -/
def loads (t : MacLearnTable) (env : Env) (e : MacLearnEntry) : Bool :=
  e.ifname.chars.head? != some '#' && env.ifnameInConfiguredLocals e.ifname &&
    !(macIsZero e.mac || macIsMulticast e.mac) && !t.macIsLocalIfaceLocked e.mac

theorem search_empty (list : List MacLearnEntry) (mac : Mac) :
    search macHashKey MacLearnEntry.mac list Index.empty mac = none := by
  rw [search]
  cases list.length <;> rfl

theorem loadLines_written {es : List MacLearnEntry} (index : t.index = .empty)
    (room : t.list.length + es.length ≤ macLearnMaxEntries)
    (ports : ((t.list ++ es.filter (loads t env)).map MacLearnEntry.ifname).Nodup) :
    MacLearnTable.loadLines env t (es.map fun e =>
      if e.ifname.chars.head? = some '#' then .comment else .fields e.ifname (some e.mac)) =
        ({ t with list := t.list ++ es.filter (loads t env) }, es.filter (loads t env)) := by
  induction es generalizing t with
  | nil => simp [MacLearnTable.loadLines]
  | cons e es ih =>
    rw [List.length_cons] at room
    rw [List.map_cons, MacLearnTable.loadLines]
    by_cases takes : loads t env e = true
    · have parts := takes
      simp only [loads, Bool.and_eq_true, bne_iff_ne, ne_eq, Bool.not_eq_true'] at parts
      obtain ⟨⟨⟨noComment, configured⟩, unicast⟩, foreign⟩ := parts
      rw [List.filter_cons_of_pos takes] at ports ⊢
      have fresh : t.findIdxByIfname e.ifname = none := by
        refine List.findIdx?_eq_none_iff.mpr fun f mem => ?_
        rw [List.map_append, List.nodup_append] at ports
        have apart := ports.2.2 f.ifname (List.mem_map_of_mem mem) e.ifname (by simp)
        simpa using apart
      have stores : t.loadLine env (.fields e.ifname (some e.mac)) =
          .store { t with list := t.list ++ [e] } e := by
        unfold MacLearnTable.loadLine
        dsimp only
        rw [configured, unicast, foreign, fresh, MacLearnTable.findIdxByMacLocked, index,
          search_empty]
        dsimp only
        rw [if_neg (by decide), if_neg (by decide), if_neg (by decide), if_neg (by decide),
          if_neg (by omega)]
      rw [List.append_cons] at ports
      rw [if_neg noComment, stores]
      dsimp only
      have later := ih (t := { t with list := t.list ++ [e] }) index
        (by rw [List.length_append, List.length_singleton]; omega) ports
      rw [later, List.append_assoc, List.singleton_append]
      rfl
    · rw [List.filter_cons_of_neg takes] at ports ⊢
      have skips : t.loadLine env (if e.ifname.chars.head? = some '#' then .comment
          else .fields e.ifname (some e.mac)) = .skip := by
        split
        · rfl
        · rename_i noComment
          unfold MacLearnTable.loadLine
          dsimp only
          split
          · rfl
          split
          · rfl
          split
          · rfl
          · rename_i configured unicast foreign
            refine absurd ?_ takes
            simp only [loads, Bool.and_eq_true, bne_iff_ne, ne_eq, Bool.not_eq_true']
            exact ⟨⟨⟨noComment, by simpa using configured⟩, by simpa using unicast⟩,
              by simpa using foreign⟩
      rw [skips]
      exact ih index (by omega) ports

theorem keep_eq_self {wanted : MacLearnEntry → Bool} (all : ∀ e ∈ t.list, wanted e = true) :
    t.keep wanted = t := by
  unfold MacLearnTable.keep
  dsimp only
  rw [List.filter_eq_self.mpr all, if_neg (not_not.mpr rfl)]

/-- A table that is kept up answers with what it lists. -/
theorem tableLookup_eq_some_iff (inv : t.Inv) {mac : Mac} {ifname : IfName} :
    t.tableLookup mac = some ifname ↔ ⟨mac, ifname⟩ ∈ t.list := by
  constructor
  · intro answer
    obtain ⟨i, found, isPort⟩ := Option.bind_eq_some_iff.mp answer
    obtain ⟨e, here, rfl⟩ := findIdxByMac_some found
    rw [here, Option.map_some, Option.some.injEq] at isPort
    exact isPort ▸ List.mem_of_getElem? here
  · intro mem
    obtain ⟨i, here⟩ := List.mem_iff_getElem?.mp mem
    rw [MacLearnTable.tableLookup, inv.sound.found i _ here, Option.bind_some, here,
      Option.map_some]

theorem legit_of_loads {e : MacLearnEntry} (taken : loads t env e = true) :
    Legit t.ifaceMacs e.mac := by
  simp only [loads, Bool.and_eq_true, Bool.not_eq_true', Bool.or_eq_false_iff] at taken
  exact ⟨taken.1.2.1, taken.1.2.2, by
    simpa [MacLearnTable.macIsLocalIfaceLocked] using taken.2⟩

/-- What a restart makes of a file that was written. -/
theorem macLearnRestore_written (env : Env) {es : List MacLearnEntry}
    (plain : ∀ e ∈ es, e.ifname.Plain) (room : es.length ≤ macLearnMaxEntries)
    (distinct : Distinct (es.filter (loads (freshTable env) env))) :
    ((freshTable env).macLearnRestore env (readLog (logText es))).Inv ∧
      ((freshTable env).macLearnRestore env (readLog (logText es))).list =
        es.filter (loads (freshTable env) env) := by
  have lines := readLog_logText plain
  have loaded : MacLearnTable.loadLines env (freshTable env) (readLog (logText es)) =
      ({ freshTable env with list := es.filter (loads (freshTable env) env) },
        es.filter (loads (freshTable env) env)) := by
    rw [lines]
    exact loadLines_written (t := freshTable env) rfl ((Nat.zero_add _).trans_le room)
      distinct.ports
  have small : (es.filter (loads (freshTable env) env)).length ≤ macLearnMaxEntries :=
    (List.length_filter_le ..).trans room
  have legit : ∀ e ∈ es.filter (loads (freshTable env) env),
      Legit (freshTable env).ifaceMacs e.mac := fun e mem =>
    legit_of_loads (List.mem_filter.mp mem).2
  have inv : ((freshTable env).macFdbPersistLoadLocked env (readLog (logText es))).Inv ∧
      ((freshTable env).macFdbPersistLoadLocked env (readLog (logText es))).list =
        es.filter (loads (freshTable env) env) ∧
      ((freshTable env).macFdbPersistLoadLocked env (readLog (logText es))).ifaceMacs =
        (freshTable env).ifaceMacs := by
    unfold MacLearnTable.macFdbPersistLoadLocked
    rw [loaded]
    dsimp only
    split
    · rename_i none
      rw [none]
      exact ⟨⟨⟨List.nodup_nil, List.nodup_nil⟩, nofun, Nat.zero_le _, indexes_empty []⟩, rfl, rfl⟩
    · rw [enforceOneMacPerIfname_eq distinct.ports small]
      exact ⟨inv_rebuild distinct legit small, rfl, rfl⟩
  obtain ⟨inv, list, macs⟩ := inv
  have purged : ((freshTable env).macFdbPersistLoadLocked env
      (readLog (logText es))).purgeLocalIfaceMacsLocked =
        (freshTable env).macFdbPersistLoadLocked env (readLog (logText es)) := by
    refine keep_eq_self fun e mem => ?_
    have foreign := (inv.legit e mem).foreign
    simpa [MacLearnTable.macIsLocalIfaceLocked] using foreign
  rw [MacLearnTable.macLearnRestore, purged,
    enforceOneMacPerIfname_eq inv.distinct.ports inv.small]
  exact ⟨inv, list⟩

/-! ## When nothing is lost -/

theorem distinct_loaded (distinct : Distinct t.list) :
    Distinct ((t.mergedEntries env (readLog file)).filter (loads (freshTable env) env)) := by
  have macs : ((t.mergedEntries env (readLog file)).map MacLearnEntry.mac).Nodup := by
    rw [mergedEntries_eq distinct]
    exact (nodup_merge distinct).sublist (List.filter_sublist.map _)
  have kept := macs.sublist
    (List.filter_sublist (p := loads (freshTable env) env) |>.map MacLearnEntry.mac)
  refine ⟨kept, List.Nodup.map_on ?_ (List.Nodup.of_map _ kept)⟩
  have ram {e : MacLearnEntry} (mem : e ∈ (t.mergedEntries env (readLog file)).filter
      (loads (freshTable env) env)) : e ∈ t.list := by
    obtain ⟨inside, taken⟩ := List.mem_filter.mp mem
    simp only [loads, Bool.and_eq_true] at taken
    exact mem_ram_of_written distinct inside taken.1.1.2
  intro e here f there same
  exact List.inj_on_of_nodup_map distinct.ports (ram here) (ram there) same

theorem length_written (distinct : Distinct t.list) :
    (t.mergedEntries env (readLog file)).length ≤ macLearnMaxEntries := by
  rw [mergedEntries_eq distinct]
  exact (List.length_filter_le ..).trans length_merge

/-- The saved entries, as a reader of the file finds them. -/
theorem mem_logEntries_written_iff (env : Env) (file : List Char) (distinct : Distinct t.list)
    (plain : ∀ e ∈ t.list, e.ifname.Plain) (e : MacLearnEntry) :
    e ∈ logEntries (logText (t.mergedEntries env (readLog file))) ↔
      (e ∈ merge t file ∧
        (Lists t.list e.mac ∨ env.ifnameInConfiguredLocals e.ifname = false)) ∧
        e.ifname.chars.head? ≠ some '#' := by
  rw [logEntries_logText (plain_written distinct plain), List.mem_filter, mergedEntries_eq distinct,
    List.mem_filter, keptInLog_iff, decide_eq_true_eq]

/-- Nothing is lost just when every name can be read back, the table fits beside the first 256 MACs
of the log, each earlier entry that is to stay is among these and not the table's, and the table has
only MACs that a load takes. -/
theorem persists_iff (distinct : Distinct t.list)
    (succeeds : t.macFdbPersistSaveLocked env file = some saved) :
    Persists t env file saved ↔ Keeps t env file := by
  have text : saved = logText (t.mergedEntries env (readLog file)) := by
    unfold MacLearnTable.macFdbPersistSaveLocked at succeeds
    split at succeeds
    · cases succeeds
    · exact (Option.some.inj succeeds).symm
  subst text
  constructor
  · intro persists
    have plain : ∀ e ∈ t.list, e.ifname.Plain := fun e mem =>
      plain_of_logEntries (persists.ram e mem)
    have held := mem_logEntries_written_iff env file distinct plain
    constructor
    · exact fun e mem => ⟨plain e mem, ((held e).mp (persists.ram e mem)).2⟩
    · exact (subset_merge_iff distinct).mp fun e mem =>
        ((held e).mp (persists.ram e mem)).1.1
    · intro e mem orphan
      have found := (held e).mp (persists.orphans e mem orphan)
      refine (mem_of_merge distinct found.1.1).imp id fun earlier => ⟨⟨?_, found.2⟩, earlier⟩
      exact plain_of_logEntries (persists.orphans e mem orphan)
    · intro e mem configured
      obtain ⟨inv, list⟩ := macLearnRestore_written env (plain_written distinct plain)
        (length_written distinct) (distinct_loaded distinct)
      have answer := (persists.restored e.mac e.ifname).mpr ⟨mem, configured⟩
      rw [tableLookup_eq_some_iff inv, list] at answer
      exact legit_of_loads (List.mem_filter.mp answer).2
  · intro keeps
    have plain : ∀ e ∈ t.list, e.ifname.Plain := fun e mem => (keeps.named e mem).toPlain
    have held := mem_logEntries_written_iff env file distinct plain
    have ram (e : MacLearnEntry) (mem : e ∈ t.list) : e ∈ merge t file :=
      (subset_merge_iff distinct).mpr keeps.fits e mem
    have listed (e : MacLearnEntry) (mem : e ∈ t.list) :
        e ∈ logEntries (logText (t.mergedEntries env (readLog file))) :=
      (held e).mpr ⟨⟨ram e mem, .inl (lists_of_mem mem)⟩, (keeps.named e mem).noComment⟩
    constructor
    · exact listed
    · intro e mem orphan
      rcases keeps.orphans e mem orphan with own | ⟨readable, first, absent⟩
      · exact listed e own
      · exact (held e).mpr ⟨⟨mem_merge_of_front first absent, .inr orphan⟩, readable.noComment⟩
    · rw [logEntries_logText (plain_written distinct plain), mergedEntries_eq distinct]
      exact (nodup_merge distinct).sublist ((List.filter_sublist.trans List.filter_sublist).map _)
    · intro mac ifname
      obtain ⟨inv, list⟩ := macLearnRestore_written env (plain_written distinct plain)
        (length_written distinct) (distinct_loaded distinct)
      rw [tableLookup_eq_some_iff inv, list, List.mem_filter]
      constructor
      · rintro ⟨mem, taken⟩
        have configured : env.ifnameInConfiguredLocals ifname = true := by
          simp only [loads, Bool.and_eq_true] at taken
          exact taken.1.1.2
        exact ⟨mem_ram_of_written distinct mem configured, configured⟩
      · rintro ⟨mem, configured⟩
        have legit := keeps.legit _ mem configured
        refine ⟨?_, ?_⟩
        · rw [mergedEntries_eq distinct]
          exact List.mem_filter.mpr ⟨ram _ mem, keptInLog_iff.mpr (.inl (lists_of_mem mem))⟩
        · have foreign := legit.foreign
          have noComment := (keeps.named _ mem).noComment
          simp [loads, configured, legit.nonzero, legit.unicast,
            MacLearnTable.macIsLocalIfaceLocked, foreign, noComment]

/-! ## A full log -/

theorem firsts_of_nodup {es : List MacLearnEntry} (distinct : (es.map MacLearnEntry.mac).Nodup) :
    firsts es = es := by
  induction es with
  | nil => rfl
  | cons e es ih =>
    rw [List.map_cons, List.nodup_cons] at distinct
    rw [firsts, ih distinct.2, List.filter_eq_self.mpr]
    intro f mem
    have other : f.mac ≠ e.mac := fun same => distinct.1 (same ▸ List.mem_map_of_mem mem)
    simpa using other

/-- What a log was written with is there, where all of it counts. -/
theorem earlierEntries_logText {es : List MacLearnEntry} (readable : ∀ e ∈ es, e.ifname.Readable)
    (counts : ∀ e ∈ es, t.seedEntry (.fields e.ifname (some e.mac)) = some e) :
    earlierEntries t (logText es) = es := by
  have whole : ∀ e ∈ es, (t.seedEntry ∘ fun e : MacLearnEntry =>
      if e.ifname.chars.head? = some '#' then MacLine.comment
      else .fields e.ifname (some e.mac)) e = some e := by
    intro e mem
    rw [Function.comp_apply, if_neg (readable e mem).noComment]
    exact counts e mem
  rw [earlierEntries, readLog_logText fun e mem => (readable e mem).toPlain,
    List.filterMap_cons_none rfl, List.filterMap_map, List.filterMap_congr whole]
  exact List.filterMap_some

theorem front_logText {es : List MacLearnEntry} (readable : ∀ e ∈ es, e.ifname.Readable)
    (counts : ∀ e ∈ es, t.seedEntry (.fields e.ifname (some e.mac)) = some e)
    (distinct : (es.map MacLearnEntry.mac).Nodup) :
    front t (logText es) = es.take macLearnMaxEntries := by
  rw [front, earlierEntries_logText readable counts, firsts_of_nodup distinct]

/-- A client on the first port. -/
def oneClient : MacLearnTable :=
  MacLearnTable.tableInit.upsertLocked (lanPort '1') (clientMac 1)

theorem oneClient_list : oneClient.list = [⟨clientMac 1, lanPort '1'⟩] := rfl

theorem distinct_oneClient : Distinct oneClient.list :=
  ⟨List.nodup_singleton _, List.nodup_singleton _⟩

theorem readable_lanPort {digit : Char} (solid : isSpace digit = false) (whole : digit ≠ '\x00') :
    (lanPort digit).Readable := by
  refine ⟨⟨⟨List.cons_ne_nil _ _, fun c mem => ?_⟩, fun mem => ?_⟩, nofun⟩
  · simp only [lanPort, List.mem_cons, List.not_mem_nil, or_false] at mem
    rcases mem with rfl | rfl | rfl | rfl
    · rfl
    · rfl
    · rfl
    · exact solid
  · simp only [lanPort, List.mem_cons, List.not_mem_nil, or_false] at mem
    rcases mem with h | h | h | h
    · cases h
    · cases h
    · cases h
    · exact whole h.symm

/-- A client that was on a port which has left the configuration stays in the log. -/
theorem persists_iff_orphan :
    ∃ saved, oneClient.macFdbPersistSaveLocked twoPorts
        (logText [⟨clientMac 9, lanPort '9'⟩]) = some saved ∧
      Persists oneClient twoPorts (logText [⟨clientMac 9, lanPort '9'⟩]) saved := by
  have readable : ∀ e ∈ [(⟨clientMac 9, lanPort '9'⟩ : MacLearnEntry)], e.ifname.Readable := by
    intro e mem
    rw [List.mem_singleton.mp mem]
    exact readable_lanPort rfl (by decide)
  have counts : ∀ e ∈ [(⟨clientMac 9, lanPort '9'⟩ : MacLearnEntry)],
      oneClient.seedEntry (.fields e.ifname (some e.mac)) = some e := by decide
  have first := front_logText readable counts (List.nodup_singleton _)
  refine ⟨_, rfl, (persists_iff distinct_oneClient rfl).mpr ⟨fun e mem => ?_, ?_,
    fun e mem _ => .inr ?_, fun e mem _ => ?_⟩⟩
  · rw [oneClient_list, List.mem_singleton] at mem
    exact mem ▸ readable_lanPort rfl (by decide)
  · rw [first, oneClient_list]
    decide
  · rw [earlierEntries_logText readable counts, List.mem_singleton] at mem
    rw [mem, first]
    exact ⟨readable_lanPort rfl (by decide), List.mem_singleton.mpr rfl, by decide⟩
  · rw [oneClient_list, List.mem_singleton] at mem
    rw [mem]
    exact ⟨rfl, rfl, by decide⟩

/-- 256 clients that were on a port which has left the configuration. -/
def goneClients : List MacLearnEntry :=
  (List.range 256).map fun i => ⟨⟨#[2, 0, 0, 0, 1, .ofNat i], rfl⟩, lanPort '9'⟩

/-- A log with 256 such clients leaves no room for the one client of the table. -/
theorem full_log_loses :
    Distinct oneClient.list ∧ ∃ saved,
      oneClient.macFdbPersistSaveLocked twoPorts (logText goneClients) = some saved ∧
        ¬Persists oneClient twoPorts (logText goneClients) saved := by
  have readable : ∀ e ∈ goneClients, e.ifname.Readable := by
    intro e mem
    obtain ⟨i, -, rfl⟩ := List.mem_map.mp mem
    exact readable_lanPort rfl (by decide)
  have counts : ∀ e ∈ goneClients,
      oneClient.seedEntry (.fields e.ifname (some e.mac)) = some e := by decide +kernel
  have distinct : (goneClients.map MacLearnEntry.mac).Nodup := by
    rw [goneClients, List.map_map]
    refine List.Nodup.map_on (fun i hi j hj same => ?_) List.nodup_range
    have last := congrArg (fun mac : Mac => mac[5].toNat) same
    have small (k : ℕ) : (UInt8.ofNat k).toNat = k % 256 := UInt8.toNat_ofNat'
    have hi := List.mem_range.mp hi
    have hj := List.mem_range.mp hj
    change (UInt8.ofNat i).toNat = (UInt8.ofNat j).toNat at last
    rw [small, small] at last
    omega
  have first := front_logText readable counts distinct
  refine ⟨distinct_oneClient, _, rfl, fun persists => ?_⟩
  have fits := ((persists_iff distinct_oneClient rfl).mp persists).fits
  have length : goneClients.length = macLearnMaxEntries := by
    rw [goneClients, List.length_map, List.length_range]
    rfl
  rw [first, List.take_of_length_le length.le, oneClient_list, length] at fits
  revert fits
  decide +kernel

end NeEncryptor.Flow
