import NeEncryptor.Db.MalformedItems
import NeEncryptor.Lib.Edges

/-!
# Malformed rules

A loaded policy matches no packet beyond what the well-formed items of its row say exactly where the
protocol is well-formed, and the well-formed items of each list say what all its items are taken for;
or where an address list lets nothing through.
-/

namespace NeEncryptor

open CText Edges

variable {joined proto : Option Text} {text item s : Text} {invert : Bool} {mask net : Ipv4}
  {rule : AddressRule}

/-! ## Where items begin and end -/

theorem contiguous_of_check (checked : ipv4MaskBeIsContiguous mask = true) : Contiguous mask := by
  rw [ipv4MaskBeIsContiguous, Bool.or_eq_true, beq_iff_eq, beq_iff_eq] at checked
  rcases checked with rfl | low
  · exact contiguous_of_and_eq_zero (by decide)
  · exact contiguous_of_and_eq_zero low

theorem contiguous_maskOf (read : maskOf s = some mask) : Contiguous mask := by
  unfold maskOf at read
  split at read
  · exact contiguous_of_check (Option.filter_eq_some_iff.mp read).2
  · obtain ⟨n, -, rfl⟩ := Option.map_eq_some_iff.mp read
    exact ⟨32 - n, rfl⟩

theorem contiguous_looseMaskOf (read : looseMaskOf s = some mask) : Contiguous mask := by
  unfold looseMaskOf at read
  split at read
  · exact contiguous_of_check (Option.filter_eq_some_iff.mp read).2
  · obtain ⟨⟨n, rest⟩, -, read⟩ := Option.bind_eq_some_iff.mp read
    obtain ⟨-, ⟨⟩⟩ := (Option.ite_none_right_eq_some ..).mp read
    exact ⟨32 - n.toNat, rfl⟩

theorem contiguous_networkOf (read : networkOf s = some (net, mask)) : Contiguous mask := by
  unfold networkOf at read
  split at read
  · obtain ⟨ip, -, ⟨⟩⟩ := Option.map_eq_some_iff.mp read
    exact ⟨0, (BitVec.shiftLeft_zero _).symm⟩
  · obtain ⟨ip, -, read⟩ := Option.bind_eq_some_iff.mp read
    obtain ⟨mask, masked, ⟨⟩⟩ := Option.map_eq_some_iff.mp read
    exact contiguous_maskOf masked
  · cases read

theorem contiguous_looseNetworkOf (read : looseNetworkOf s = some (net, mask)) :
    Contiguous mask := by
  obtain ⟨ip, -, read⟩ := Option.bind_eq_some_iff.mp read
  split at read
  · obtain ⟨mask, masked, ⟨⟩⟩ := Option.map_eq_some_iff.mp read
    exact contiguous_looseMaskOf masked
  · cases read
    exact ⟨0, (BitVec.shiftLeft_zero _).symm⟩

/-- The mask of a network is contiguous. -/
def AddressRule.IsRange : AddressRule → Prop
  | any => True
  | network _ _ mask => Contiguous mask

theorem isRange_addressRule (read : addressRule item = some rule) : rule.IsRange := by
  unfold addressRule at read
  split at read
  · cases read
  split at read
  · cases read
    trivial
  split at read
  · obtain ⟨⟨net, mask⟩, found, ⟨⟩⟩ := Option.map_eq_some_iff.mp read
    exact contiguous_networkOf found
  · obtain ⟨⟨net, mask⟩, found, ⟨⟩⟩ := Option.map_eq_some_iff.mp read
    exact contiguous_networkOf found

theorem isRange_looseRule (item : Text) : (looseRule item).IsRange := by
  rw [looseRule]
  cases read : looseNetwork item with
  | none => trivial
  | some found =>
    unfold looseNetwork at read
    split at read
    · obtain ⟨⟨net, mask⟩, found, ⟨⟩⟩ := Option.map_eq_some_iff.mp read
      exact contiguous_looseNetworkOf found
    · obtain ⟨⟨net, mask⟩, found, ⟨⟩⟩ := Option.map_eq_some_iff.mp read
      exact contiguous_looseNetworkOf found

/-- The first address of a network, and the one behind its last. -/
def AddressRule.edges : AddressRule → List Ipv4
  | any => []
  | network _ net mask => [net &&& mask, (net ||| ~~~mask) + 1]

theorem AddressRule.IsRange.edgesIn (isRange : rule.IsRange) : EdgesIn rule.edges rule.holds := by
  cases rule with
  | any => exact edgesIn_const true
  | network negated net mask =>
    exact (edgesIn_const negated).map₂ (fun a b => a != b) (edgesIn_network isRange net)

/-- The first port of a range, and the one behind its last. -/
def portEdges (range : Option (ℕ × ℕ)) : List (BitVec 16) :=
  range.elim [] fun (lo, hi) => [BitVec.ofNat 16 lo, BitVec.ofNat 16 (hi + 1)]

theorem edgesIn_portHolds (range : Option (ℕ × ℕ)) : EdgesIn (portEdges range) (portHolds range) := by
  cases range with
  | none => exact edgesIn_const true
  | some bounds => exact edgesIn_range bounds.1 bounds.2

/-! ## One field -/

/-- The rules hold of each address that a rule holds of: they do so at zero, and wherever one of them
begins or ends. -/
def AddressSpanned (rules : List AddressRule) (rule : AddressRule) : Prop :=
  ∀ ip ∈ 0 :: (rule :: rules).flatMap AddressRule.edges,
    rule.holds ip = true → (rules.any fun other => other.holds ip) = true

/-- The same for ports. -/
def PortSpanned (ranges : List (Option (ℕ × ℕ))) (range : Option (ℕ × ℕ)) : Prop :=
  ∀ port ∈ 0 :: (range :: ranges).flatMap portEdges,
    portHolds range port = true → (ranges.any fun other => portHolds other port) = true

/-- The rule is a network inside this one. -/
def AddressRule.Inside (net mask : Ipv4) : AddressRule → Prop
  | any => False
  | network _ net' mask' => mask' &&& mask = mask ∧ net' &&& mask = net &&& mask

/-- An item of a list with the flag is a network, and all networks of the list lie in it; or it is the
network of all addresses, which lets nothing through. -/
def InvertedKept (rules : List AddressRule) (item : Text) : Prop :=
  ∃ negated net mask, looseNetwork item = some (negated, net, mask) ∧
    (mask = 0 ∨ rules ≠ [] ∧ ∀ rule ∈ rules, rule.Inside net mask)

/-- The well-formed items of an address list say what all its items are taken for. -/
def AddressKept (joined : Option Text) (invert : Bool) : Prop :=
  ∀ item ∈ storedItems (joined.getD []),
    if invert then InvertedKept (addressRules (joined.getD [])) item
    else AddressSpanned (addressRules (joined.getD [])) (looseRule item)

/-- The same for a port list. -/
def PortKept (joined : Option Text) : Prop :=
  ∀ item ∈ storedItems (joined.getD []),
    PortSpanned ((listItems (joined.getD [])).filterMap portRule) (looseRange item)

/-- Each item of the list is the negation of the network of all addresses. -/
def AddressNever (joined : Option Text) (invert : Bool) : Prop :=
  storedItems (joined.getD []) ≠ [] ∧ ∀ item ∈ storedItems (joined.getD []),
    ∃ negated net, looseNetwork item = some (negated, net, 0) ∧ (negated || invert) = true

/-- The loader keeps a row within its well-formed part. -/
def PolicyRow.Kept (row : PolicyRow) : Prop :=
  (AddressNever row.srcIp row.invertSrcIp ∨ AddressNever row.dstIp row.invertDstIp) ∨
    (ProtocolPlain row.proto ∧ AddressKept row.srcIp row.invertSrcIp ∧
      AddressKept row.dstIp row.invertDstIp ∧ PortKept row.srcPort ∧ PortKept row.dstPort)

theorem addressSpanned_iff {rules : List AddressRule} (ranges : ∀ r ∈ rules, r.IsRange)
    (isRange : rule.IsRange) : AddressSpanned rules rule ↔
      ∀ ip, rule.holds ip = true → (rules.any fun other => other.holds ip) = true := by
  have part {r : AddressRule} (mem : r ∈ rule :: rules) :
      r.edges ⊆ (rule :: rules).flatMap AddressRule.edges :=
    fun ip edge => List.mem_flatMap.mpr ⟨r, mem, edge⟩
  exact (implies_iff (isRange.edgesIn.mono (part List.mem_cons_self))
    (EdgesIn.any fun r mem => (ranges r mem).edgesIn.mono (part (List.mem_cons_of_mem _ mem)))).symm

theorem portSpanned_iff {ranges : List (Option (ℕ × ℕ))} {range : Option (ℕ × ℕ)} :
    PortSpanned ranges range ↔
      ∀ port, portHolds range port = true → (ranges.any fun other => portHolds other port) = true := by
  have part {r : Option (ℕ × ℕ)} (mem : r ∈ range :: ranges) :
      portEdges r ⊆ (range :: ranges).flatMap portEdges :=
    fun port edge => List.mem_flatMap.mpr ⟨r, mem, edge⟩
  exact (implies_iff ((edgesIn_portHolds range).mono (part List.mem_cons_self))
    (EdgesIn.any fun r mem => (edgesIn_portHolds r).mono (part (List.mem_cons_of_mem _ mem)))).symm

theorem AddressRule.covers_some (rule : AddressRule) : ∃ ip, rule.covers ip = true := by
  cases rule with
  | any => exact ⟨0, rfl⟩
  | network negated net mask => exact ⟨net, beq_self_eq_true _⟩

theorem AddressRule.inside_iff (outside : mask ≠ 0) : rule.Inside net mask ↔
    ∀ ip, ip &&& mask ≠ net &&& mask → rule.covers ip = false := by
  cases rule with
  | any =>
    obtain ⟨ip, ne⟩ := exists_outside outside net
    exact ⟨False.elim, fun none => absurd (none ip ne) (by simp [AddressRule.covers])⟩
  | network negated net' mask' =>
    rw [AddressRule.Inside, ← network_subset_iff]
    refine forall_congr' fun ip => ?_
    rw [AddressRule.covers, beq_eq_false_iff_ne]
    exact not_imp_not.symm

theorem and_none (a b : Ipv4) : a &&& 0 = b &&& 0 := BitVec.and_zero.trans BitVec.and_zero.symm

/-- An item under the flag. -/
theorem invertedKept_iff {rules : List AddressRule} (short : item.length ≤ 95)
    (solid : item.dropWhile isBlank = item) : InvertedKept rules item ↔
      ∀ ip, (loadCidr true item).passes ip = true →
        (decide (rules ≠ []) && rules.all fun rule => !rule.covers ip) = true := by
  have reads (ip : Ipv4) : (decide (rules ≠ []) && rules.all fun rule => !rule.covers ip) = true ↔
      rules ≠ [] ∧ ∀ rule ∈ rules, rule.covers ip = false := by
    simp
  simp only [reads, InvertedKept, loadCidr_eq short solid]
  cases looseNetwork item with
  | none =>
    refine ⟨by rintro ⟨_, _, _, ⟨⟩, _⟩, fun all => ?_⟩
    obtain ⟨nonempty, -⟩ := all 0 rfl
    obtain ⟨rule, mem⟩ := List.exists_mem_of_ne_nil _ nonempty
    obtain ⟨ip, covered⟩ := rule.covers_some
    rw [(all ip rfl).2 rule mem] at covered
    cases covered
  | some read =>
    obtain ⟨negated, net, mask⟩ := read
    have passes (ip : Ipv4) : (CidrTest.mk false (negated || true) (net &&& mask) mask).passes ip =
        true ↔ ip &&& mask ≠ net &&& mask := by
      rw [passes_network, Bool.or_true, Bool.true_bne, Bool.not_eq_true', beq_eq_false_iff_ne]
    simp only [Option.elim_some, passes]
    constructor
    · rintro ⟨_, _, _, ⟨⟩, rfl | ⟨nonempty, inside⟩⟩ ip outside
      · exact absurd (and_none ip net) outside
      · have full : mask ≠ 0 := by
          rintro rfl
          exact outside (and_none ip net)
        exact ⟨nonempty, fun rule mem =>
          (AddressRule.inside_iff full).mp (inside rule mem) ip outside⟩
    · intro within
      refine ⟨negated, net, mask, rfl, ?_⟩
      by_cases full : mask = 0
      · exact .inl full
      · obtain ⟨ip, outside⟩ := exists_outside full net
        exact .inr ⟨(within ip outside).1, fun rule mem =>
          (AddressRule.inside_iff full).mpr fun ip outside => (within ip outside).2 rule mem⟩

theorem storedItems_nil : storedItems [] = [] := by decide

theorem addressKept_iff (filled : ∃ items, neFillNullableList joined = some items) :
    AddressKept joined invert ↔
      ∀ ip, addressLoaded joined invert ip = true → addressMeant joined invert ip = true := by
  by_cases empty : joined.getD [] = []
  · refine iff_of_true ?_ fun ip _ => (loaded_empty empty).2.1 invert ip
    rw [AddressKept, empty, storedItems_nil]
    exact nofun
  obtain ⟨text, rfl⟩ : ∃ text, joined = some text := by
    cases joined with
    | none => exact absurd rfl empty
    | some text => exact ⟨text, rfl⟩
  rw [Option.getD_some] at empty
  simp only [addressLoaded, (loadedItems_eq empty filled).1, List.any_eq_true, AddressKept,
    Option.getD_some, addressMeant, if_neg empty]
  have each (item : Text) (mem : item ∈ storedItems text) :
      (if invert = true then InvertedKept (addressRules text) item
        else AddressSpanned (addressRules text) (looseRule item)) ↔
      ∀ ip, (loadCidr invert item).passes ip = true →
        (if invert = true then
          decide (addressRules text ≠ []) && (addressRules text).all fun rule => !rule.covers ip
        else (addressRules text).any fun rule => rule.holds ip) = true := by
    obtain ⟨short, solid⟩ := storedItems_facts mem
    cases invert with
    | true => exact invertedKept_iff short solid
    | false =>
      simp only [passes_looseRule short solid]
      refine addressSpanned_iff (fun rule mem => ?_) (isRange_looseRule item)
      obtain ⟨item, -, read⟩ := List.mem_filterMap.mp mem
      exact isRange_addressRule read
  constructor
  · rintro kept ip ⟨item, mem, passed⟩
    exact (each item mem).mp (kept item mem) ip passed
  · exact fun within item mem => (each item mem).mpr fun ip passed => within ip ⟨item, mem, passed⟩

theorem portKept_iff (filled : ∃ items, neFillNullableList joined = some items) :
    PortKept joined ↔ ∀ port, portLoaded joined port = true → portMeant joined port = true := by
  by_cases empty : joined.getD [] = []
  · refine iff_of_true ?_ fun port _ => (loaded_empty empty).2.2 port
    rw [PortKept, empty, storedItems_nil]
    exact nofun
  obtain ⟨text, rfl⟩ : ∃ text, joined = some text := by
    cases joined with
    | none => exact absurd rfl empty
    | some text => exact ⟨text, rfl⟩
  rw [Option.getD_some] at empty
  simp only [portLoaded, (loadedItems_eq empty filled).1, List.any_eq_true, PortKept,
    Option.getD_some, portMeant, if_neg empty, portSpanned_iff, portMatches_looseRange]
  constructor
  · rintro kept port ⟨item, mem, held⟩
    exact kept item mem port held
  · intro within item mem port held
    exact within port ⟨item, mem, held⟩

theorem addressNever_iff (filled : ∃ items, neFillNullableList joined = some items) :
    AddressNever joined invert ↔ ∀ ip, addressLoaded joined invert ip = false := by
  by_cases empty : joined.getD [] = []
  · refine iff_of_false ?_ fun closed => ?_
    · rw [AddressNever, empty, storedItems_nil]
      exact fun never => never.1 rfl
    · have refused := closed 0
      rw [addressLoaded, (loaded_empty empty).1] at refused
      cases invert <;> cases refused
  obtain ⟨text, rfl⟩ : ∃ text, joined = some text := by
    cases joined with
    | none => exact absurd rfl empty
    | some text => exact ⟨text, rfl⟩
  rw [Option.getD_some] at empty
  obtain ⟨items, some_item⟩ := loadedItems_eq empty filled
  simp only [AddressNever, Option.getD_some, addressLoaded, items, List.any_eq_false, some_item,
    ne_eq, not_false_eq_true, true_and]
  rw [forall_comm]
  refine forall_congr' fun item => ?_
  rw [forall_comm]
  refine forall_congr' fun mem => ?_
  obtain ⟨short, solid⟩ := storedItems_facts mem
  simp only [loadCidr_eq short solid]
  cases looseNetwork item with
  | none => exact ⟨by rintro ⟨_, _, ⟨⟩, _⟩, fun closed => absurd rfl (closed 0)⟩
  | some read =>
    obtain ⟨negated, net, mask⟩ := read
    simp only [Option.elim_some, Option.some.injEq, Prod.mk.injEq, passes_network]
    constructor
    · rintro ⟨_, _, ⟨rfl, rfl, rfl⟩, sign⟩ ip
      rw [sign, and_none ip net, beq_self_eq_true]
      decide
    · intro closed
      have sign : (negated || invert) = true := by
        have own := closed net
        rw [beq_self_eq_true] at own
        revert own
        cases negated || invert <;> decide
      refine ⟨negated, net, ⟨rfl, rfl, ?_⟩, sign⟩
      by_contra full
      obtain ⟨ip, outside⟩ := exists_outside full net
      refine closed ip ?_
      rw [sign, beq_eq_false_iff_ne.mpr outside]
      rfl

/-- Every number stands for a protocol. -/
theorem protocolMatches_some (v : BitVec 8) : ∃ p, protocolMatches v p = true := by
  by_cases pair : v = policyProtoTcpUdp
  · exact ⟨6, by rw [pair]; rfl⟩
  · refine ⟨v, ?_⟩
    rw [protocolMatches, if_neg pair, beq_self_eq_true, Bool.or_true]

theorem protocolPlain_iff : ProtocolPlain proto ↔
    ∀ p, protocolMatches (parseProtocolName proto) p = true → protocolMeant proto p = true := by
  constructor
  · intro plain p matched
    rwa [← protocolMeant_of_plain plain]
  · intro within
    obtain ⟨p, matched⟩ := protocolMatches_some (parseProtocolName proto)
    have meant := within p matched
    cases read : protocolRule proto with
    | none =>
      rw [protocolMeant, read] at meant
      cases meant
    | some rule =>
      have wire := (parseProtocolName_of_rule read).1
      refine ⟨rule, read, ?_, ?_⟩
      · rintro rfl
        have other := within 1 (by rw [wire]; rfl)
        rw [protocolMeant, read] at other
        exact absurd other (by decide)
      · rintro rfl
        have other := within 6 (by rw [wire]; rfl)
        rw [protocolMeant, read] at other
        exact absurd other (by decide)

/-- A range that is read is that of all ports, or lies among the ports. -/
theorem bounds_of_parsePortRange {v : Text} {range : ℤ × ℤ} (parsed : parsePortRange v = some range) :
    range = (-1, -1) ∨ 0 ≤ range.1 ∧ range.1 ≤ range.2 ∧ range.2 ≤ 65535 := by
  unfold parsePortRange at parsed
  split at parsed
  · exact .inl (Option.some.inj parsed).symm
  · split at parsed
    · rename_i found
      cases parsed
      obtain ⟨-, bounds⟩ := Option.filter_eq_some_iff.mp found
      exact .inr (by simpa using bounds)
    · obtain ⟨single, found, rfl⟩ := Option.map_eq_some_iff.mp parsed
      obtain ⟨-, bounds⟩ := Option.filter_eq_some_iff.mp found
      have bounds : 0 ≤ single.1 ∧ single.1 ≤ 65535 := by simpa using bounds
      exact .inr ⟨bounds.1, le_rfl, bounds.2⟩

/-- A range that the loader stores begins with a port. -/
theorem portLoaded_some (nonempty : loadedItems joined ≠ []) :
    ∃ port, portLoaded joined port = true := by
  obtain ⟨item, mem⟩ := List.exists_mem_of_ne_nil _ nonempty
  suffices matched : ∃ port, portMatches (loadPorts item).1 (loadPorts item).2 port = true by
    obtain ⟨port, matched⟩ := matched
    exact ⟨port, List.any_eq_true.mpr ⟨item, mem, matched⟩⟩
  have any : portMatches (-1) (-1) 0 = true := rfl
  have inside {a b : ℤ} (low : 0 ≤ a) (order : a ≤ b) (high : a ≤ 65535) :
      portMatches a b (BitVec.ofNat 16 a.toNat) = true := by
    have value : (BitVec.ofNat 16 a.toNat).toNat = a.toNat := by
      rw [BitVec.toNat_ofNat]
      exact Nat.mod_eq_of_lt (by omega)
    rw [portMatches, if_pos (by omega), value, Bool.and_eq_true, decide_eq_true_eq,
      decide_eq_true_eq]
    omega
  rw [loadPorts]
  cases parsed : parsePortRange item with
  | none => exact ⟨0, any⟩
  | some range =>
    rcases bounds_of_parsePortRange parsed with rfl | ⟨low, order, high⟩
    · exact ⟨0, any⟩
    · exact ⟨_, inside low order (order.trans high)⟩

theorem loadedItems_ne_nil (filled : ∃ items, neFillNullableList joined = some items) :
    loadedItems joined ≠ [] := by
  cases joined with
  | none => exact List.cons_ne_nil _ _
  | some text =>
    by_cases empty : text = []
    · rw [empty]
      exact List.cons_ne_nil _ _
    · obtain ⟨items, some_item⟩ := loadedItems_eq empty filled
      rwa [items]

/-! ## A row -/

variable {row : PolicyRow}

/-- The policies of a row are within its condition exactly where each field is, or where no packet gets
through. -/
theorem kept_iff (listed : row.Listed) :
    row.Kept ↔ ∀ t, row.lets t = true → row.means t = true := by
  simp only [PolicyRow.Kept, addressNever_iff listed.src, addressNever_iff listed.dst,
    protocolPlain_iff, addressKept_iff listed.src, addressKept_iff listed.dst,
    portKept_iff listed.sport, portKept_iff listed.dport, PolicyRow.lets, PolicyRow.means,
    Bool.and_eq_true]
  constructor
  · rintro (never | ⟨proto, src, dst, sport, dport⟩) t ⟨⟨⟨⟨p, s⟩, d⟩, sp⟩, dp⟩
    · rcases never with never | never
      · exact absurd s (by rw [never]; decide)
      · exact absurd d (by rw [never]; decide)
    · exact ⟨⟨⟨⟨proto _ p, src _ s⟩, dst _ d⟩, sport _ sp⟩, dport _ dp⟩
  · intro within
    by_cases noSrc : ∀ ip, addressLoaded row.srcIp row.invertSrcIp ip = false
    · exact .inl (.inl noSrc)
    by_cases noDst : ∀ ip, addressLoaded row.dstIp row.invertDstIp ip = false
    · exact .inl (.inr noDst)
    -- With a packet that gets through, each field of it may be changed alone.
    right
    obtain ⟨srcIp, s⟩ : ∃ ip, addressLoaded row.srcIp row.invertSrcIp ip = true := by
      simpa using noSrc
    obtain ⟨dstIp, d⟩ : ∃ ip, addressLoaded row.dstIp row.invertDstIp ip = true := by
      simpa using noDst
    obtain ⟨srcPort, sp⟩ := portLoaded_some (loadedItems_ne_nil listed.sport)
    obtain ⟨dstPort, dp⟩ := portLoaded_some (loadedItems_ne_nil listed.dport)
    obtain ⟨protocol, p⟩ := protocolMatches_some (parseProtocolName row.proto)
    refine ⟨fun p' h => ?_, fun ip h => ?_, fun ip h => ?_, fun port h => ?_, fun port h => ?_⟩
    · exact (within ⟨srcIp, dstIp, srcPort, dstPort, p'⟩ ⟨⟨⟨⟨h, s⟩, d⟩, sp⟩, dp⟩).1.1.1.1
    · exact (within ⟨ip, dstIp, srcPort, dstPort, protocol⟩ ⟨⟨⟨⟨p, h⟩, d⟩, sp⟩, dp⟩).1.1.1.2
    · exact (within ⟨srcIp, ip, srcPort, dstPort, protocol⟩ ⟨⟨⟨⟨p, s⟩, h⟩, sp⟩, dp⟩).1.1.2
    · exact (within ⟨srcIp, dstIp, port, dstPort, protocol⟩ ⟨⟨⟨⟨p, s⟩, d⟩, h⟩, dp⟩).1.2
    · exact (within ⟨srcIp, dstIp, srcPort, port, protocol⟩ ⟨⟨⟨⟨p, s⟩, d⟩, sp⟩, h⟩).2

/-- Rows are told apart by their ids. -/
theorem eq_of_id_eq (q : PolicyRows) {a b : PolicyRow} (memA : a ∈ q.rows) (memB : b ∈ q.rows)
    (same : a.id = b.id) : a = b :=
  List.inj_on_of_nodup_map q.distinct memA memB same

/-- The loaded policies of a row match no packet beyond the condition that its well-formed items
state. -/
theorem within_condition_iff (q : PolicyRows) {policies : List CryptoPolicy}
    (loaded : loadPolicies q.rows = some policies) {row : PolicyRow} (mem : row ∈ q.rows) :
    (∀ cp ∈ policies, cp.dbId = row.id → ∀ t, cryptoPolicyMatchPacket cp t = true →
      row.means t = true) ↔ row.Kept := by
  have loads := loads_of_loadPolicies loaded
  obtain ⟨n, numbered, rfl⟩ : ∃ n ∈ numberRows [] q.rows, n.row = row := by
    rw [← loads.rows_eq] at mem
    exact List.mem_map.mp mem
  rw [kept_iff (loads.listed n.row mem)]
  constructor
  · intro within t lets
    rw [← policies_any_match, List.any_eq_true] at lets
    obtain ⟨cp, inside, matched⟩ := lets
    refine within cp ?_ (mem_policies inside).1 t matched
    rw [loads.policies_eq]
    exact List.mem_flatMap.mpr ⟨n, numbered, inside⟩
  · intro within cp inside same t matched
    rw [loads.policies_eq] at inside
    obtain ⟨n', numbered', inside⟩ := List.mem_flatMap.mp inside
    have mem' : n'.row ∈ q.rows := by
      rw [← loads.rows_eq]
      exact List.mem_map_of_mem numbered'
    have row_eq : n'.row = n.row :=
      eq_of_id_eq q mem' mem ((mem_policies inside).1.symm.trans same)
    have lets : n'.row.lets t = true := by
      rw [← policies_any_match, List.any_eq_true]
      exact ⟨cp, inside, matched⟩
    exact within t (row_eq ▸ lets)

/-- A bypass row for one network, with a prefix that is too long. -/
def typoRow : PolicyRow :=
  ⟨7, 10, ['b', 'y', 'p', 'a', 's', 's'], none,
    some ['1', '0', '.', '0', '.', '0', '.', '0', '/', '3', '3'], false, none, false, none, none⟩

/-- The query with this row. -/
def typoRows : PolicyRows where
  rows := [typoRow]
  distinct := by decide
  ordered := by decide

/-- A packet from `192.168.1.1`. -/
def typoPacket : FiveTuple := ⟨0xC0A80101, 0x08080808, 40000, 53, 17⟩

/-- The row lets through every packet. -/
theorem typoRow_beyond : ∃ policies, loadPolicies typoRows.rows = some policies ∧
    ¬ ∀ cp ∈ policies, cp.dbId = typoRow.id → ∀ t, cryptoPolicyMatchPacket cp t = true →
      typoRow.means t = true := by
  have loaded : loadPolicies typoRows.rows = some ((loadPolicies typoRows.rows).getD []) := by
    decide +kernel
  refine ⟨_, loaded, fun within => ?_⟩
  have beyond : ∃ cp ∈ (loadPolicies typoRows.rows).getD [], cp.dbId = typoRow.id ∧
      cryptoPolicyMatchPacket cp typoPacket = true := by decide +kernel
  obtain ⟨cp, mem, id, matched⟩ := beyond
  have meant := within cp mem id typoPacket matched
  exact absurd meant (by decide +kernel)

theorem within_condition_iff_typo : ∃ policies, loadPolicies typoRows.rows = some policies ∧
    ((∀ cp ∈ policies, cp.dbId = typoRow.id → ∀ t, cryptoPolicyMatchPacket cp t = true →
      typoRow.means t = true) ↔ typoRow.Kept) := by
  have loaded : loadPolicies typoRows.rows = some ((loadPolicies typoRows.rows).getD []) := by
    decide +kernel
  exact ⟨_, loaded, within_condition_iff typoRows loaded (List.mem_singleton_self typoRow)⟩

end NeEncryptor
