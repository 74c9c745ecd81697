import Mathlib.Logic.Function.Basic
import NeEncryptor.Crypto.L2Udp

/-!
# Reassembly of split packets

The table of `pqc_l2_option.c` in which an opened fragment waits for the other one.
-/

namespace NeEncryptor

open Buffer

/-- `struct opt_entry`. -/
structure OptEntry where
  ids : UdpMeta
  firstLen : ℕ
  secondLen : ℕ
  timestampNs : BitVec 64
  ethHdr : Bytes
  ethLen : ℕ
  gotFirst : Bool
  gotSecond : Bool
  first : Bytes
  second : Bytes
  deriving DecidableEq, Repr

/-- `opt_clear_entry`: the bytes stay, and their lengths go. -/
def OptEntry.clear (e : OptEntry) : OptEntry :=
  { e with
    ids := ⟨0, 0, 0⟩
    firstLen := 0
    secondLen := 0
    timestampNs := 0
    ethLen := 0
    gotFirst := false
    gotSecond := false }

/-- An entry of a table that `calloc` returned. -/
def OptEntry.zero : OptEntry where
  ids := ⟨0, 0, 0⟩
  firstLen := 0
  secondLen := 0
  timestampNs := 0
  ethHdr := .replicate 18 0
  ethLen := 0
  gotFirst := false
  gotSecond := false
  first := .replicate 1600 0
  second := .replicate 1600 0

/-- `OPT_FRAG_TABLE_SIZE`. -/
def optFragTableSize : ℕ := 4096

/-- `OPT_FRAG_TIMEOUT_NS`. -/
def optFragTimeoutNs : ℕ := 200 * 1000000

/-- `NE_FRAME`. -/
def neFrame : ℕ := 2048

/-- `ETH_HEADER_SIZE`. -/
def ethHeaderSize : ℕ := 14

/-- The entries of a table. -/
abbrev OptTable := ℕ → OptEntry

namespace OptEntry

variable (e : OptEntry)

def occupied : Bool := e.gotFirst || e.gotSecond

def expired (now : BitVec 64) : Bool := decide (optFragTimeoutNs < (now - e.timestampNs).toNat)

/-- The entry is of the datagram. -/
def holds (epoch datagramId : BitVec 32) : Bool :=
  e.ids.epoch == epoch && e.ids.datagramId == datagramId

/-- `opt_prepare_entry`. -/
def prepare (ids : UdpMeta) (now : BitVec 64) : OptEntry :=
  let e := if e.ids ≠ ids ∨ (e.occupied && e.expired now) then e.clear else e
  { e with ids := ids, timestampNs := now }

/-- `opt_store_first`. -/
def storeFirst (ids : UdpMeta) (eth data : Bytes) (now : BitVec 64) : Option OptEntry :=
  if data.length > 1600 then none
  else if eth.length = 0 ∨ eth.length > 18 then none
  else
    let e := e.prepare ids now
    some { e with
      firstLen := data.length
      first := blit e.first 0 data
      ethHdr := blit e.ethHdr 0 eth
      ethLen := eth.length
      gotFirst := true }

/-- `opt_store_second`. -/
def storeSecond (ids : UdpMeta) (data : Bytes) (now : BitVec 64) : Option OptEntry :=
  if data.length > 1600 then none
  else
    let e := e.prepare ids now
    some { e with secondLen := data.length, second := blit e.second 0 data, gotSecond := true }

end OptEntry

/-- What a fragment comes to. -/
inductive ReasmResult
  | failed
  | held
  | joined (frame : Bytes)
  deriving DecidableEq, Repr

/-- `opt_emit_join`, with the entry that it leaves. -/
def optEmitJoin (e : OptEntry) : OptEntry × ReasmResult :=
  let ethLen := if e.ethLen ≠ 0 then e.ethLen else ethHeaderSize
  if !e.gotFirst || !e.gotSecond then (e, .held)
  else if e.firstLen + e.secondLen + ethLen > neFrame then (e.clear, .failed)
  else
    let out := e.ethHdr.take ethLen ++ e.first.take e.firstLen ++ e.second.take e.secondLen
    (e.clear, .joined (if 2 ≤ ethLen then cryptoEthSetIpv4Et out (ethLen - 2) else out))

namespace OptTable

/-- The loop of `opt_pick_slot` over the indices to probe, with the empty and the oldest slot that it
has passed. -/
def pickFrom (epoch datagramId : BitVec 32) (now : BitVec 64) (base : ℕ) (ft : OptTable)
    (emptyIdx oldestIdx : Option ℕ) (oldestAge : ℕ) : List ℕ → OptTable × ℕ
  | [] => (ft, (emptyIdx.or oldestIdx).getD base)
  | idx :: rest =>
    let e := ft idx
    if e.occupied && !e.expired now then
      if e.holds epoch datagramId then (ft, idx)
      else
        let age := (now - e.timestampNs).toNat
        if oldestIdx.isNone || decide (oldestAge < age) then
          pickFrom epoch datagramId now base ft emptyIdx (some idx) age rest
        else pickFrom epoch datagramId now base ft emptyIdx oldestIdx oldestAge rest
    else
      let ft := if e.occupied then Function.update ft idx e.clear else ft
      pickFrom epoch datagramId now base ft (emptyIdx.or (some idx)) oldestIdx oldestAge rest

/-- The slot of a datagram where the table is empty. -/
def baseOf (epoch datagramId : BitVec 32) : ℕ :=
  (datagramId ^^^ (epoch * 0x9e3779b9#32)).toNat % optFragTableSize

/-- The slots that a datagram may have. -/
def probes (epoch datagramId : BitVec 32) : List ℕ :=
  (List.range 8).map fun i => (baseOf epoch datagramId + i) % optFragTableSize

/-- `opt_pick_slot`. -/
def optPickSlot (ft : OptTable) (epoch datagramId : BitVec 32) (now : BitVec 64) :
    OptTable × ℕ :=
  pickFrom epoch datagramId now (baseOf epoch datagramId) ft none none 0 (probes epoch datagramId)

/-- `l2_reassemble`. -/
def l2Reassemble (ft : OptTable) (p : OpenedUdp) (now : BitVec 64) : OptTable × ReasmResult :=
  match cryptoEthInnerEtOff p.packet p.packet.length with
  | none => (ft, .failed)
  | some etOff =>
    let wireEth := etOff + 2
    if wireEth > 18 ∨ p.packet.length < wireEth then (ft, .failed)
    else
      let inner := p.packet.drop wireEth
      let (ft, idx) := optPickSlot ft p.ids.epoch p.ids.datagramId now
      match p.kind with
      | .frag0 =>
        let ipHdrLen := (inner.getD 0 0).toNat % 16 * 4
        if inner.length < 20 ∨ (inner.getD 0 0).toNat / 16 ≠ 4 then (ft, .failed)
        else if ipHdrLen < 20 ∨ inner.length < ipHdrLen then (ft, .failed)
        else
          match (ft idx).storeFirst p.ids (p.packet.take wireEth) inner now with
          | none => (ft, .failed)
          | some e => (Function.update ft idx (optEmitJoin e).1, (optEmitJoin e).2)
      | .frag1 =>
        let e := ft idx
        let e := if e.occupied && e.holds p.ids.epoch p.ids.datagramId && e.expired now then
            e.clear
          else e
        match e.storeSecond p.ids inner now with
        | none => (Function.update ft idx e, .failed)
        | some e => (Function.update ft idx (optEmitJoin e).1, (optEmitJoin e).2)
      | .full => (ft, .failed)

end OptTable

end NeEncryptor
