import NeEncryptor.Db.Config
import NeEncryptor.Lib.Ways

/-!
# Flow routes and transmit numbers

The route table of the dataplane and the tables it falls back to (`crypto_route.c`).  A set of the
route table is filled but never emptied; the flows that find no room in it are numbered by a small
table of their thread, whose ways are overwritten.
-/

namespace NeEncryptor.Route

/-- A frame, with the flow that `dp_parse_flow` finds in it, the addresses in host order. -/
structure Packet where
  bytes : List (BitVec 8)
  flow : Option FiveTuple
  deriving DecidableEq, Repr

/-- `dp_flow_hash_mix`. -/
def dpFlowHashMix (srcIp dstIp : BitVec 32) (srcPort dstPort : BitVec 16) (protocol : BitVec 8) :
    BitVec 32 :=
  let hash := srcIp ^^^ dstIp
  let hash := hash ^^^ ((srcPort.setWidth 32 <<< 16) ||| dstPort.setWidth 32)
  let hash := hash ^^^ protocol.setWidth 32
  let hash := hash ^^^ (hash >>> 16)
  let hash := hash * 0x85ebca6b
  let hash := hash ^^^ (hash >>> 13)
  let hash := hash * 0xc2b2ae35
  hash ^^^ (hash >>> 16)

/-- `dp_hash_to_n`. -/
def dpHashToN (hash : BitVec 32) (n : ℕ) : ℕ :=
  if n = 0 then 0
  else if n &&& (n - 1) = 0 then hash.toNat &&& (n - 1)
  else hash.toNat % n

/-- `dp_pkt_flow_hash`. -/
def dpPktFlowHash (pkt : Packet) : BitVec 32 :=
  let len := BitVec.ofNat 32 pkt.bytes.length
  if pkt.bytes.length < 14 then 0
  else
    match pkt.flow with
    | none =>
      let hash := (pkt.bytes.take 14).foldl (fun h b => h * 31 + b.setWidth 32) len
      dpFlowHashMix hash (hash >>> 16) (len.setWidth 16) 0 0
    | some f => dpFlowHashMix f.srcIp f.dstIp f.srcPort f.dstPort f.protocol

/-- `struct dp_route_key`. -/
structure Key where
  ipA : BitVec 32
  ipB : BitVec 32
  portA : BitVec 16
  portB : BitVec 16
  protocol : BitVec 8
  deriving DecidableEq, Repr

/-- `dp_route_key_parse_direction`; direction 1 is `true`. -/
def dpRouteKeyParseDirection (pkt : Packet) : Option (Key × Bool) :=
  match pkt.flow with
  | none => none
  | some f =>
    if f.protocol ≠ 6 ∧ f.protocol ≠ 17 then none
    else if f.dstIp < f.srcIp ∨ f.srcIp = f.dstIp ∧ f.dstPort < f.srcPort then
      some (⟨f.dstIp, f.srcIp, f.dstPort, f.srcPort, f.protocol⟩, true)
    else some (⟨f.srcIp, f.dstIp, f.srcPort, f.dstPort, f.protocol⟩, false)

/-- `dp_route_key_hash`. -/
def dpRouteKeyHash (key : Key) : BitVec 32 :=
  dpFlowHashMix key.ipA key.ipB key.portA key.portB key.protocol

/-- A valid `struct dp_route_entry`; `uint_fast32_t` has 64 bits. -/
structure Entry where
  key : Key
  udpTxSeq : Bool → BitVec 64
  workerIdx : ℕ
  txSlot : ℕ

/-- A valid `struct dp_udp_seq_fallback`. -/
structure Fallback where
  key : Key
  nextSeq : Bool → BitVec 32
  stamp : BitVec 32

/-- `NE_CRYPTO_WORKERS`. -/
def cryptoWorkers : ℕ := 6

/-- `NE_TX_SLOTS`. -/
def txSlots : ℕ := 4

/-- The set of a key, of `DP_ROUTE_SET_COUNT` ones. -/
def routeSetOf (key : Key) : Fin 8192 := Fin.ofNat 8192 (dpRouteKeyHash key).toNat

/-- The set of a key, of `DP_UDP_SEQ_FALLBACK_SETS` ones. -/
def fallbackSetOf (key : Key) : Fin 256 := Fin.ofNat 256 (dpRouteKeyHash key).toNat

/-- The route table with the connection counts and the cursors over them. -/
structure Table where
  routes : Fin 8192 → Fin 8 → Option Entry
  workerCount : ℕ → BitVec 64
  txCount : ℕ → BitVec 64
  workerRr : BitVec 32
  txRr : BitVec 32
  activeTxSlots : BitVec 32

/-- `struct dp_flow_route`. -/
structure FlowRoute where
  workerIdx : ℕ
  txSlot : ℕ

/-- `dp_route_least_loaded`: the least count, of those from the cursor on. -/
def dpRouteLeastLoaded (counts : ℕ → BitVec 64) (count : ℕ) (cursor : BitVec 32) : ℕ :=
  let visit := fun (best : BitVec 64 × ℕ) (off : ℕ) =>
    let idx := (cursor + BitVec.ofNat 32 off).toNat % count
    if counts idx < best.1 then (counts idx, idx) else best
  ((List.range count).foldl visit (BitVec.allOnes 64, 0)).2

namespace Table

/-- The table of a new process. -/
def init : Table :=
  ⟨fun _ _ => none, fun _ => 0, fun _ => 0, 0, 0, BitVec.ofNat 32 txSlots⟩

/-- `dp_active_tx_slots`. -/
def dpActiveTxSlots (table : Table) : ℕ :=
  let slots := table.activeTxSlots.toNat
  if 0 < slots ∧ slots ≤ txSlots then slots else 1

/-- `dp_route_set_active_tx_slots`. -/
def dpRouteSetActiveTxSlots (table : Table) (slots : BitVec 32) : Table :=
  let slots := if slots = 0 then 1 else slots
  let slots := if txSlots < slots.toNat then BitVec.ofNat 32 txSlots else slots
  { table with activeTxSlots := slots }

/-- The set of a key. -/
def setOf (table : Table) (key : Key) : Fin 8 → Option Entry := table.routes (routeSetOf key)

/-- The scan of a set for the key. -/
def findWay (table : Table) (key : Key) : Option (Fin 8) := Ways.find Entry.key (table.setOf key) key

/-- The entry that lookups of the key find. -/
def entry (table : Table) (key : Key) : Option Entry := Ways.entry Entry.key (table.setOf key) key

/-- The first free way of the key's set. -/
def emptyWay (table : Table) (key : Key) : Option (Fin 8) :=
  (List.finRange 8).find? fun way => (table.setOf key way).isNone

/-- Writes one way of the key's set. -/
def write (table : Table) (key : Key) (way : Fin 8) (e : Entry) : Table :=
  { table with
    routes := Function.update table.routes (routeSetOf key)
      (Function.update (table.setOf key) way (some e)) }

/-- `dp_flow_route_get`.  The look before the lock finds nothing that the one under it does not. -/
def dpFlowRouteGet (table : Table) (pkt : Packet) (workerHint : ℤ) : Table × FlowRoute :=
  let canonical := fun hash =>
    FlowRoute.mk (dpHashToN hash cryptoWorkers) (dpHashToN hash table.dpActiveTxSlots)
  match dpRouteKeyParseDirection pkt with
  | none => (table, canonical (dpPktFlowHash pkt))
  | some (key, _) =>
    match table.entry key with
    | some e => (table, ⟨e.workerIdx, e.txSlot⟩)
    | none =>
      match table.emptyWay key with
      -- A saturated set: no entry is evicted.
      | none => (table, canonical (dpRouteKeyHash key))
      | some way =>
        let hinted := 0 ≤ workerHint ∧ workerHint < cryptoWorkers
        let workerIdx := if hinted then workerHint.toNat
          else dpRouteLeastLoaded table.workerCount cryptoWorkers table.workerRr
        let txSlot := dpRouteLeastLoaded table.txCount table.dpActiveTxSlots table.txRr
        ({ table.write key way ⟨key, fun _ => 0, workerIdx, txSlot⟩ with
            workerCount := Function.update table.workerCount workerIdx
              (table.workerCount workerIdx + 1)
            txCount := Function.update table.txCount txSlot (table.txCount txSlot + 1)
            workerRr := if hinted then table.workerRr else table.workerRr + 1
            txRr := table.txRr + 1 },
          ⟨workerIdx, txSlot⟩)

/-- The scan of `dp_udp_next_tx_seq`: the number it takes from the entry of the key. -/
def takeSeq (table : Table) (key : Key) (direction : Bool) : Option (Table × BitVec 32) :=
  (table.findWay key).bind fun way => (table.setOf key way).map fun e =>
    let seq := e.udpTxSeq direction
    (table.write key way { e with udpTxSeq := Function.update e.udpTxSeq direction (seq + 1) },
      seq.setWidth 32)

end Table

/-- `tls_udp_seq_fallback` and `tls_udp_seq_stamp` of a thread. -/
structure Local where
  fallback : Fin 256 → Fin 4 → Option Fallback
  stamp : BitVec 32

namespace Local

/-- The tables of a new thread. -/
def init : Local := ⟨fun _ _ => none, 0⟩

/-- The set of a key. -/
def setOf (l : Local) (key : Key) : Fin 4 → Option Fallback := l.fallback (fallbackSetOf key)

/-- The stamp of a way; a free way was never stamped. -/
def stampAt (l : Local) (key : Key) (way : Fin 4) : BitVec 32 :=
  ((l.setOf key way).map Fallback.stamp).getD 0

/-- The scan of a fallback set: the way with the key, or else the way to overwrite. -/
def scan (l : Local) (key : Key) : Fin 4 → List (Fin 4) → Fin 4 ⊕ Fin 4
  | victim, [] => .inr victim
  | victim, way :: ways =>
    match l.setOf key way with
    | none => l.scan key way ways
    | some f =>
      if f.key = key then .inl way
      else if f.stamp < l.stampAt key victim then l.scan key way ways
      else l.scan key victim ways

/-- Writes one way of the key's set, with the next stamp. -/
def write (l : Local) (key : Key) (way : Fin 4) (nextSeq : Bool → BitVec 32) : Local :=
  { fallback := Function.update l.fallback (fallbackSetOf key)
      (Function.update (l.setOf key) way (some ⟨key, nextSeq, l.stamp + 1⟩))
    stamp := l.stamp + 1 }

/-- The end of `dp_udp_next_tx_seq`: the number a flow gets without an entry in the route table. -/
def fallbackSeq (l : Local) (key : Key) (direction : Bool) : Local × BitVec 32 :=
  match l.scan key 0 (List.finRange 4) with
  | .inl way =>
    let nextSeq := ((l.setOf key way).map Fallback.nextSeq).getD fun _ => 0
    (l.write key way (Function.update nextSeq direction (nextSeq direction + 1)),
      nextSeq direction)
  | .inr victim => (l.write key victim (Function.update (fun _ => 0) direction 1), 0)

end Local

end NeEncryptor.Route
