import Mathlib.Data.BitVec
import Mathlib.Data.Int.Basic

/-!
# Configuration

`struct app_config` as far as the crypto path reads it, the match of a policy against a 5-tuple, the
selection of a policy and the compact table of the inbound gate.
-/

namespace NeEncryptor

/-- An IPv4 address or mask; the numeric order of its bytes does not matter for matching. -/
abbrev Ipv4 := BitVec 32

/-- `enum policy_action`. -/
inductive PolicyAction
  | bypass
  | encryptL2
  deriving DecidableEq, Repr

/-- `struct crypto_policy`; `id` is the wire id. -/
structure CryptoPolicy where
  id : ℤ
  dbId : ℤ
  priority : ℤ
  action : PolicyAction
  protocol : BitVec 8
  srcPortFrom : ℤ
  srcPortTo : ℤ
  dstPortFrom : ℤ
  dstPortTo : ℤ
  srcAny : Bool
  dstAny : Bool
  srcNegate : Bool
  dstNegate : Bool
  srcNet : Ipv4
  srcMask : Ipv4
  dstNet : Ipv4
  dstMask : Ipv4
  deriving DecidableEq, Repr

/-- `crypto_policy_is_encrypt`. -/
def CryptoPolicy.isEncrypt (cp : CryptoPolicy) : Bool := cp.action == .encryptL2

/-- `MAX_CRYPTO_POLICIES`. -/
def maxCryptoPolicies : ℕ := 128

/-- `struct profile_config`: its database id and the indices of its policies. -/
structure ProfileConfig where
  id : ℤ
  policyIndices : List ℕ
  policyInAny : Bool
  deriving DecidableEq, Repr

/-- `struct app_config`. -/
structure AppConfig where
  cryptoEnabled : Bool
  profiles : List ProfileConfig
  policies : List CryptoPolicy
  deriving DecidableEq, Repr

/-- What a policy is matched against. -/
structure FiveTuple where
  srcIp : Ipv4
  dstIp : Ipv4
  srcPort : BitVec 16
  dstPort : BitVec 16
  protocol : BitVec 8
  deriving DecidableEq, Repr

/-- The 5-tuple of the opposite direction. -/
def FiveTuple.reversed (t : FiveTuple) : FiveTuple :=
  ⟨t.dstIp, t.srcIp, t.dstPort, t.srcPort, t.protocol⟩

/-- `POLICY_PROTO_ANY`. -/
def policyProtoAny : BitVec 8 := 0

/-- `POLICY_PROTO_TCP_UDP`. -/
def policyProtoTcpUdp : BitVec 8 := 254

/-- The protocol test of `crypto_policy_match_packet`. -/
def protocolMatches (policy packet : BitVec 8) : Bool :=
  if policy = policyProtoTcpUdp then packet == 6 || packet == 17
  else policy == policyProtoAny || policy == packet

/-- `cidr_match_with_negate`. -/
def cidrMatchWithNegate (any negate : Bool) (ip net mask : Ipv4) : Bool :=
  any || (negate != ((ip &&& mask) == (net &&& mask)))

/-- The port test of `crypto_policy_match_packet`; a negative bound stands for any port. -/
def portMatches (lo hi : ℤ) (port : BitVec 16) : Bool :=
  if 0 ≤ lo ∧ 0 ≤ hi then lo ≤ port.toNat && port.toNat ≤ hi else true

/-- `crypto_policy_match_packet`. -/
def cryptoPolicyMatchPacket (cp : CryptoPolicy) (t : FiveTuple) : Bool :=
  protocolMatches cp.protocol t.protocol &&
    cidrMatchWithNegate cp.srcAny cp.srcNegate t.srcIp cp.srcNet cp.srcMask &&
    cidrMatchWithNegate cp.dstAny cp.dstNegate t.dstIp cp.dstNet cp.dstMask &&
    portMatches cp.srcPortFrom cp.srcPortTo t.srcPort &&
    portMatches cp.dstPortFrom cp.dstPortTo t.dstPort

/-- `cp` wins over the best policy found so far. -/
def betterThan (cp best : CryptoPolicy) : Bool :=
  cp.priority < best.priority || (cp.priority == best.priority && cp.id < best.id)

/-- One round of the loop of `config_select_crypto_policy`. -/
def selectStep (t : FiveTuple) (best : Option CryptoPolicy) (cp : CryptoPolicy) :
    Option CryptoPolicy :=
  if cryptoPolicyMatchPacket cp t then
    match best with
    | none => some cp
    | some b => if betterThan cp b then some cp else some b
  else best

/-- The policies a profile lists, in its order. -/
def AppConfig.listed (cfg : AppConfig) (p : ProfileConfig) : List CryptoPolicy :=
  p.policyIndices.filterMap fun pi => cfg.policies[pi]?

/-- `config_select_crypto_policy`. -/
def configSelectCryptoPolicy (cfg : AppConfig) (profileIdx : ℕ) (t : FiveTuple) :
    Option CryptoPolicy :=
  match cfg.profiles[profileIdx]? with
  | none => none
  | some p => (cfg.listed p).foldl (selectStep t) none

/-- `policy_port_is_any`. -/
def policyPortIsAny (lo hi : ℤ) : Bool :=
  if lo < 0 ∨ hi < 0 then true else lo ≤ 0 && 65535 ≤ hi

/-- `crypto_policy_is_catchall`. -/
def cryptoPolicyIsCatchall (cp : CryptoPolicy) : Bool :=
  cp.srcAny && cp.dstAny && cp.protocol == policyProtoAny &&
    policyPortIsAny cp.srcPortFrom cp.srcPortTo && policyPortIsAny cp.dstPortFrom cp.dstPortTo

/-- `struct pol_in_match`: source and destination are those of a packet from the WAN. -/
structure PolInMatch where
  srcNet : Ipv4
  srcMask : Ipv4
  dstNet : Ipv4
  dstMask : Ipv4
  sportLo : ℤ
  sportHi : ℤ
  dportLo : ℤ
  dportHi : ℤ
  proto : BitVec 8
  srcNeg : Bool
  dstNeg : Bool
  deriving DecidableEq, Repr

/-- `pol_in_port_range`. -/
def polInPortRange (lo hi : ℤ) : ℤ × ℤ :=
  if lo < 0 ∨ hi < 0 then (0, 65535)
  else
    let lo := min lo 65535
    let hi := min hi 65535
    if hi < lo then (hi, lo) else (lo, hi)

/-- `pol_in_fill`. -/
def polInFill (cp : CryptoPolicy) : PolInMatch :=
  let sport := polInPortRange cp.dstPortFrom cp.dstPortTo
  let dport := polInPortRange cp.srcPortFrom cp.srcPortTo
  { srcNet := if cp.dstAny then 0 else cp.dstNet &&& cp.dstMask
    srcMask := if cp.dstAny then 0 else cp.dstMask
    srcNeg := !cp.dstAny && cp.dstNegate
    dstNet := if cp.srcAny then 0 else cp.srcNet &&& cp.srcMask
    dstMask := if cp.srcAny then 0 else cp.srcMask
    dstNeg := !cp.srcAny && cp.srcNegate
    sportLo := sport.1
    sportHi := sport.2
    dportLo := dport.1
    dportHi := dport.2
    proto := cp.protocol }

/-- The rules `config_refresh_policy_in_any` leaves for profile 0, and the catch-all flag. -/
def configRefreshPolicyInAny (cfg : AppConfig) : Bool × List PolInMatch :=
  match cfg.profiles with
  | [] => (false, [])
  | p :: _ =>
    let skip := (cfg.listed p).any cryptoPolicyIsCatchall
    (skip, if skip then [] else (cfg.listed p).map polInFill)

/-- The test of one rule in `config_policy_in_ok`. -/
def polInMatches (e : PolInMatch) (t : FiveTuple) : Bool :=
  protocolMatches e.proto t.protocol &&
    (e.srcNeg != ((t.srcIp &&& e.srcMask) == e.srcNet)) &&
    (e.dstNeg != ((t.dstIp &&& e.dstMask) == e.dstNet)) &&
    (e.sportLo ≤ t.srcPort.toNat && t.srcPort.toNat ≤ e.sportHi) &&
    (e.dportLo ≤ t.dstPort.toNat && t.dstPort.toNat ≤ e.dportHi)

/-- `config_policy_in_ok` for profile 0. -/
def configPolicyInOk (rules : List PolInMatch) (t : FiveTuple) : Bool :=
  rules.any (polInMatches · t)

end NeEncryptor
