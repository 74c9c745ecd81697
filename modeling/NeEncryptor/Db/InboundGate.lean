import NeEncryptor.Db.Config

/-!
# The inbound gate

The compact table that `config_refresh_policy_in_any` builds admits a packet from the WAN where a
policy of profile 0 matches its opposite direction, for port ranges as the loader stores them.
-/

namespace NeEncryptor

/-- A port range that is unset, or whose bounds are in order and begin with a port. -/
def OrderlyPorts (lo hi : ℤ) : Prop := 0 ≤ lo → 0 ≤ hi → lo ≤ hi ∧ lo ≤ 65535

instance (lo hi : ℤ) : Decidable (OrderlyPorts lo hi) :=
  inferInstanceAs (Decidable (0 ≤ lo → 0 ≤ hi → lo ≤ hi ∧ lo ≤ 65535))

/-- Both port ranges of a policy are as the loader stores them. -/
def CryptoPolicy.Orderly (cp : CryptoPolicy) : Prop :=
  OrderlyPorts cp.srcPortFrom cp.srcPortTo ∧ OrderlyPorts cp.dstPortFrom cp.dstPortTo

/-- `config_refresh_policy_in_any`, and then the test of `policy_in_any` and
`config_policy_in_ok`. -/
def inboundGate (cfg : AppConfig) (t : FiveTuple) : Bool :=
  let (policyInAny, rules) := configRefreshPolicyInAny cfg
  policyInAny || configPolicyInOk rules t

/-- The policies of profile 0. -/
def AppConfig.firstListed (cfg : AppConfig) : List CryptoPolicy :=
  match cfg.profiles with
  | [] => []
  | p :: _ => cfg.listed p

section Rule

variable {cp : CryptoPolicy} {t : FiveTuple} {lo hi : ℤ}

theorem policyPortIsAny_matches (port : BitVec 16) (any : policyPortIsAny lo hi = true) :
    portMatches lo hi port = true := by
  have bound := port.isLt
  unfold policyPortIsAny at any
  unfold portMatches
  split
  · rw [if_neg (by omega)] at any
    simp only [Bool.and_eq_true, decide_eq_true_eq] at any ⊢
    omega
  · rfl

/-- A catch-all policy matches every packet. -/
theorem catchall_matches (any : cryptoPolicyIsCatchall cp = true) (t : FiveTuple) :
    cryptoPolicyMatchPacket cp t = true := by
  simp only [cryptoPolicyIsCatchall, Bool.and_eq_true, beq_iff_eq] at any
  obtain ⟨⟨⟨⟨srcAny, dstAny⟩, proto⟩, sport⟩, dport⟩ := any
  have protocol : protocolMatches cp.protocol t.protocol = true := by
    rw [proto, protocolMatches, if_neg (by decide)]
    rfl
  have addresses (negate : Bool) (ip net mask : Ipv4) :
      cidrMatchWithNegate true negate ip net mask = true := rfl
  rw [cryptoPolicyMatchPacket, protocol, srcAny, dstAny, addresses, addresses,
    policyPortIsAny_matches t.srcPort sport, policyPortIsAny_matches t.dstPort dport]
  rfl

/-- The range that is stored for `lo` and `hi` admits the ports that they match. -/
theorem polInPortRange_matches (orderly : OrderlyPorts lo hi) (port : BitVec 16) :
    (decide ((polInPortRange lo hi).1 ≤ port.toNat) &&
      decide ((port.toNat : ℤ) ≤ (polInPortRange lo hi).2)) = portMatches lo hi port := by
  have bound := port.isLt
  have small : (port.toNat : ℤ) ≤ 65535 := by omega
  unfold polInPortRange portMatches
  by_cases unset : lo < 0 ∨ hi < 0
  · rw [if_pos unset, if_neg (by omega)]
    simp [small]
  · obtain ⟨ordered, first⟩ := orderly (by omega) (by omega)
    have kept : ¬ min hi 65535 < min lo 65535 := by omega
    have set : 0 ≤ lo ∧ 0 ≤ hi := by omega
    dsimp only
    rw [if_neg unset, if_neg kept, if_pos set, min_eq_left first]
    simp [small]

/-- A negated test of an address is the same before and after the network is masked. -/
theorem cidrMatch_fill (any negate : Bool) (ip net mask : Ipv4) :
    ((!any && negate) != ((ip &&& if any then 0 else mask) == if any then 0 else net &&& mask)) =
      cidrMatchWithNegate any negate ip net mask := by
  cases any with
  | true => simp [cidrMatchWithNegate]
  | false => rfl

/-- A stored rule matches the packets whose opposite direction its policy matches. -/
theorem polInMatches_fill (orderly : cp.Orderly) (t : FiveTuple) :
    polInMatches (polInFill cp) t = cryptoPolicyMatchPacket cp t.reversed := by
  unfold polInMatches polInFill cryptoPolicyMatchPacket FiveTuple.reversed
  dsimp only
  rw [cidrMatch_fill, cidrMatch_fill, polInPortRange_matches orderly.1,
    polInPortRange_matches orderly.2]
  simp only [Bool.and_left_comm, Bool.and_comm]

end Rule

/-- The gate admits a packet if and only if a policy of profile 0 matches its opposite direction. -/
theorem inboundGate_iff (cfg : AppConfig) (t : FiveTuple)
    (orderly : ∀ cp ∈ cfg.firstListed, cp.Orderly) :
    inboundGate cfg t = true ↔
      ∃ cp ∈ cfg.firstListed, cryptoPolicyMatchPacket cp t.reversed = true := by
  unfold inboundGate configRefreshPolicyInAny AppConfig.firstListed at *
  cases profiles : cfg.profiles with
  | nil => simp [configPolicyInOk]
  | cons p ps =>
    simp only [profiles] at orderly
    dsimp only
    cases skip : (cfg.listed p).any cryptoPolicyIsCatchall with
    | true =>
      obtain ⟨cp, mem, any⟩ := List.any_eq_true.mp skip
      simp only [Bool.true_or, true_iff]
      exact ⟨cp, mem, catchall_matches any _⟩
    | false =>
      simp only [Bool.false_or, Bool.false_eq_true, if_false, configPolicyInOk, List.any_map,
        List.any_eq_true, Function.comp_apply]
      refine exists_congr fun cp => and_congr_right fun mem => ?_
      rw [polInMatches_fill (orderly cp mem)]

/-- One encrypting policy for the LAN 10.0.0.0/8 and the ports `lo` to `hi` of any server. -/
def gateConfig (lo hi : ℤ) : AppConfig where
  cryptoEnabled := true
  profiles := [⟨1, [0], false⟩]
  policies := [{
    id := 1
    dbId := 7
    priority := 0
    action := .encryptL2
    protocol := 6
    srcPortFrom := -1
    srcPortTo := -1
    dstPortFrom := lo
    dstPortTo := hi
    srcAny := false
    dstAny := true
    srcNegate := false
    dstNegate := false
    srcNet := 0x0A000000
    srcMask := 0xFF000000
    dstNet := 0
    dstMask := 0 }]

/-- The answer of a server at port 443. -/
def sampleAnswer : FiveTuple := ⟨0x08080808, 0x0A000005, 443, 50000, 6⟩

theorem inboundGate_sample :
    inboundGate (gateConfig 80 443) sampleAnswer = true ↔
      ∃ cp ∈ (gateConfig 80 443).firstListed,
        cryptoPolicyMatchPacket cp sampleAnswer.reversed = true := by
  refine inboundGate_iff (gateConfig 80 443) sampleAnswer fun cp mem => ?_
  obtain rfl := List.mem_singleton.mp mem
  exact ⟨by decide, by decide⟩

/-- A range whose bounds are swapped admits answers, and its policy matches nothing. -/
theorem inboundGate_swapped :
    ¬ (inboundGate (gateConfig 443 80) sampleAnswer = true ↔
      ∃ cp ∈ (gateConfig 443 80).firstListed,
        cryptoPolicyMatchPacket cp sampleAnswer.reversed = true) := by
  decide

end NeEncryptor
