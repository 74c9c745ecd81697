import NeEncryptor.Lib.BucketChains
import NeEncryptor.Lib.Ways

/-!
# The MAC table

`mac_learn.c`: the table of the client MACs that were learned on the LAN ports, a list with a hash
index over it, and the operations that change it.  Every operation runs under the table's lock.
-/

namespace NeEncryptor.Flow

open BucketChains

/-- A MAC address, first byte first. -/
abbrev Mac := Vector UInt8 6

/-- A name of at most `IF_NAMESIZE - 1` bytes. -/
structure IfName where
  chars : List Char
  short : chars.length ≤ 15
  deriving DecidableEq

/-- `struct mac_learn_entry`. -/
structure MacLearnEntry where
  mac : Mac
  ifname : IfName
  deriving DecidableEq

/-- `struct mac_learn_table`. -/
structure MacLearnTable where
  list : List MacLearnEntry
  index : Index UInt8
  ifaceMacs : List Mac

/-- `MAC_LEARN_MAX_ENTRIES`. -/
def macLearnMaxEntries : ℕ := 256

/-- `MAX_INTERFACES`. -/
def maxInterfaces : ℕ := 16

/-- `enum mac_learn_src`. -/
inductive MacLearnSrc
  | traffic
  | arp
  deriving DecidableEq

/-- `mac_hash_key`. -/
def macHashKey (mac : Mac) : UInt8 := mac[5]

/-- `mac_is_zero`. -/
def macIsZero (mac : Mac) : Bool := mac == Vector.replicate 6 0

/-- `mac_is_multicast`. -/
def macIsMulticast (mac : Mac) : Bool := mac[0] &&& 0x01 != 0

/-- The interfaces that a call sees: the names of the LAN ports of the forwarder and of its
configuration, and what `SIOCGIFHWADDR` says of a name; `sock` is `false` where `socket` fails. -/
structure Env where
  locals : List IfName
  cfgLocals : List IfName
  sock : Bool
  hwaddr : IfName → Option Mac

/-- `ifname_in_configured_locals`. -/
def Env.ifnameInConfiguredLocals (env : Env) (ifname : IfName) : Bool :=
  !ifname.chars.isEmpty && (env.locals.contains ifname || env.cfgLocals.contains ifname)

/-- `refresh_iface_macs_add`. -/
def refreshIfaceMacsAdd (env : Env) (macs : List Mac) (ifname : IfName) : List Mac :=
  if ifname.chars = [] ∨ maxInterfaces ≤ macs.length then macs
  else
    match env.hwaddr ifname with
    | none => macs
    | some hw =>
      if macIsZero hw || macIsMulticast hw then macs
      else if macs.contains hw then macs
      else macs ++ [hw]

/-- A line of the log, as `sscanf` and `parse_mac_colon` read it: a comment, a line without two
words, or a port with what its second word says. -/
inductive MacLine
  | comment
  | short
  | fields (ifname : IfName) (mac : Option Mac)

namespace MacLearnTable

variable (t : MacLearnTable)

/-- `table_init`. -/
def tableInit : MacLearnTable := ⟨[], .empty, []⟩

/-- `hash_rebuild_locked`. -/
def hashRebuildLocked : MacLearnTable :=
  { t with index := rebuild macHashKey MacLearnEntry.mac t.list }

/-- `find_idx_by_mac_locked`. -/
def findIdxByMacLocked (mac : Mac) : Option ℕ :=
  search macHashKey MacLearnEntry.mac t.list t.index mac

/-- The first entry of a port. -/
def findIdxByIfname (ifname : IfName) : Option ℕ :=
  t.list.findIdx? fun e => e.ifname = ifname

/-- `mac_is_local_iface_locked`. -/
def macIsLocalIfaceLocked (mac : Mac) : Bool := t.ifaceMacs.contains mac

/-- `upsert_locked`. -/
def upsertLocked (ifname : IfName) (mac : Mac) : MacLearnTable :=
  match t.findIdxByMacLocked mac with
  | some i =>
    if (t.list[i]?.map MacLearnEntry.ifname) = some ifname then t
    else { t with list := t.list.modify i fun e => { e with ifname } }
  | none =>
    match t.findIdxByIfname ifname with
    | some i => hashRebuildLocked { t with list := t.list.modify i fun e => { e with mac } }
    | none =>
      if macLearnMaxEntries ≤ t.list.length then t
      else hashRebuildLocked { t with list := t.list ++ [⟨mac, ifname⟩] }

/-- What `table_learn` learns. -/
def learns (ifname : IfName) (mac : Mac) (src : MacLearnSrc) : Bool :=
  !ifname.chars.isEmpty && src == .arp && !macIsZero mac && !macIsMulticast mac &&
    !t.macIsLocalIfaceLocked mac

/-- `table_learn`. -/
def tableLearn (ifname : IfName) (mac : Mac) (src : MacLearnSrc) : MacLearnTable :=
  if t.learns ifname mac src then t.upsertLocked ifname mac else t

/-- `table_lookup`. -/
def tableLookup (mac : Mac) : Option IfName :=
  (t.findIdxByMacLocked mac).bind fun i => t.list[i]?.map MacLearnEntry.ifname

/-- Keeps the entries that are wanted; the index is built anew where one is dropped. -/
def keep (wanted : MacLearnEntry → Bool) : MacLearnTable :=
  let kept := t.list.filter wanted
  if kept.length ≠ t.list.length then hashRebuildLocked { t with list := kept } else t

/-- `purge_local_iface_macs_locked`. -/
def purgeLocalIfaceMacsLocked : MacLearnTable := t.keep fun e => !t.macIsLocalIfaceLocked e.mac

/-- `table_purge_orphan_locked`. -/
def tablePurgeOrphanLocked (env : Env) : MacLearnTable :=
  t.keep fun e => env.ifnameInConfiguredLocals e.ifname

/-- `refresh_iface_macs_locked`. -/
def refreshIfaceMacsLocked (env : Env) : MacLearnTable :=
  { t with
    ifaceMacs :=
      if env.sock then (env.locals ++ env.cfgLocals).foldl (refreshIfaceMacsAdd env) [] else [] }

/-- `mac_learn_refresh_iface_macs`. -/
def macLearnRefreshIfaceMacs (env : Env) : MacLearnTable :=
  (t.refreshIfaceMacsLocked env).purgeLocalIfaceMacsLocked

/-- The copies that `enforce_one_mac_per_ifname_locked` makes: the last entry of a port wins. -/
def onePerIfname (tmp : List MacLearnEntry) : List MacLearnEntry → List MacLearnEntry
  | [] => tmp
  | e :: rest =>
    match tmp.findIdx? fun f => f.ifname = e.ifname with
    | some idx => onePerIfname (tmp.set idx e) rest
    | none =>
      if tmp.length < macLearnMaxEntries then onePerIfname (tmp ++ [e]) rest
      else onePerIfname tmp rest

/-- `enforce_one_mac_per_ifname_locked`. -/
def enforceOneMacPerIfnameLocked : MacLearnTable :=
  let tmp := onePerIfname [] t.list
  if tmp.length ≠ t.list.length then hashRebuildLocked { t with list := tmp } else t

/-- What one line of the log does to the table. -/
inductive LineEffect
  | skip
  | stop
  | store (t' : MacLearnTable) (e : MacLearnEntry)

/-- The body of the loop of `mac_fdb_persist_load_locked`; the index is not kept up. -/
def loadLine (env : Env) : MacLine → LineEffect
  | .fields ifname (some mac) =>
    if !env.ifnameInConfiguredLocals ifname then .skip
    else if macIsZero mac || macIsMulticast mac then .skip
    else if t.macIsLocalIfaceLocked mac then .skip
    else
      match t.findIdxByIfname ifname with
      | some i => .store { t with list := t.list.modify i fun e => { e with mac } } ⟨mac, ifname⟩
      | none =>
        if (t.findIdxByMacLocked mac).isSome then .skip
        else if macLearnMaxEntries ≤ t.list.length then .stop
        else .store { t with list := t.list ++ [⟨mac, ifname⟩] } ⟨mac, ifname⟩
  | _ => .skip

/-- The loop of `mac_fdb_persist_load_locked`, with what it has stored. -/
def loadLines (env : Env) (t : MacLearnTable) : List MacLine → MacLearnTable × List MacLearnEntry
  | [] => (t, [])
  | line :: lines =>
    match t.loadLine env line with
    | .skip => loadLines env t lines
    | .stop => (t, [])
    | .store t' e =>
      let loaded := loadLines env t' lines
      (loaded.1, e :: loaded.2)

/-- `mac_fdb_persist_load_locked`. -/
def macFdbPersistLoadLocked (env : Env) (lines : List MacLine) : MacLearnTable :=
  let loaded := loadLines env t lines
  if loaded.2 = [] then loaded.1 else loaded.1.enforceOneMacPerIfnameLocked.hashRebuildLocked

/-- `mac_learn_restore`, behind its call of `mac_learn_refresh_iface_macs`. -/
def macLearnRestore (env : Env) (lines : List MacLine) : MacLearnTable :=
  (t.macFdbPersistLoadLocked env lines).purgeLocalIfaceMacsLocked.enforceOneMacPerIfnameLocked

end MacLearnTable

end NeEncryptor.Flow
