import Mathlib.Tactic.IntervalCases
import NeEncryptor.Db.DbConfig

/-!
# What a rule says

The meaning of the text of a row, stated apart from the loader: the protocol, the networks and the port
ranges that its well-formed items name. The loader reads a well-formed item as what it says.
-/

namespace NeEncryptor

open CText

/-- The items of a list, without the blanks around them. -/
def listItems (joined : Text) : List Text := (joined.splitOn ',').map trimBlanks

/-! ## Protocols -/

/-- What the text of a protocol names. -/
inductive ProtocolRule
  | any
  | tcpUdp
  | number (n : ℕ)
  deriving DecidableEq, Repr

/-- The rule meets the protocol of a packet. -/
def ProtocolRule.meets : ProtocolRule → BitVec 8 → Bool
  | any, _ => true
  | tcpUdp, p => p == 6 || p == 17
  | number n, p => p.toNat == n

/-- The protocols that have a name. -/
def protocolNames : List (Text × ProtocolRule) :=
  [(['t', 'c', 'p', '/', 'u', 'd', 'p'], .tcpUdp), (['t', 'c', 'p', '_', 'u', 'd', 'p'], .tcpUdp),
    (['t', 'c', 'p', '-', 'u', 'd', 'p'], .tcpUdp), (['t', 'c', 'p'], .number 6),
    (['u', 'd', 'p'], .number 17), (['i', 'c', 'm', 'p'], .number 1),
    (['o', 's', 'p', 'f'], .number 89)]

/-- A protocol is any, a name or a number of 8 bits. -/
def protocolRule (proto : Option Text) : Option ProtocolRule :=
  if strIsAny proto then some .any
  else
    match protocolNames.find? fun name => strcasecmpEq (proto.getD []) name.1 with
    | some name => some name.2
    | none => ((decimal 3 (proto.getD [])).filter (· ≤ 255)).map .number

/-- The protocol of a packet meets what a row says. -/
def protocolMeant (proto : Option Text) (p : BitVec 8) : Bool :=
  (protocolRule proto).elim false (·.meets p)

/-! ## Networks -/

/-- What an item of an address list names. -/
inductive AddressRule
  | any
  | network (negated : Bool) (net mask : Ipv4)
  deriving DecidableEq, Repr

/-- The address is one of those that are named, whatever the sign before them. -/
def AddressRule.covers : AddressRule → Ipv4 → Bool
  | any, _ => true
  | network _ net mask, ip => (ip &&& mask) == (net &&& mask)

/-- The address is one of those that the item stands for. -/
def AddressRule.holds : AddressRule → Ipv4 → Bool
  | any, _ => true
  | network negated net mask, ip => negated != ((ip &&& mask) == (net &&& mask))

/-- The mask behind a slash: the length of a prefix, or a contiguous mask. -/
def maskOf (s : Text) : Option Ipv4 :=
  if '.' ∈ s then (inetPton s).filter fun mask => ipv4MaskBeIsContiguous mask
  else ((decimal 2 s).filter (· ≤ 32)).map fun n => BitVec.allOnes 32 <<< (32 - n)

/-- A network: an address, alone or with a mask. -/
def networkOf (s : Text) : Option (Ipv4 × Ipv4) :=
  match s.splitOn '/' with
  | [address] => (inetPton address).map fun ip => (ip, BitVec.allOnes 32)
  | [address, suffix] =>
    (inetPton address).bind fun ip =>
      (maskOf (suffix.dropWhile isBlank)).map fun mask => (ip, mask)
  | _ => none

/-- An item of an address list: `any`, or a network, perhaps with a sign before it. -/
def addressRule (item : Text) : Option AddressRule :=
  if item = [] then none
  else if strIsAny (some item) then some .any
  else if item.head? = some '!' then
    (networkOf (item.tail.dropWhile isBlank)).map fun (net, mask) => .network true net mask
  else (networkOf item).map fun (net, mask) => .network false net mask

/-- The well-formed items of an address list. -/
def addressRules (joined : Text) : List AddressRule := (listItems joined).filterMap addressRule

/-- The address meets what a list says: it is one of those that a well-formed item stands for, or with
the flag it is none of those that they name. No list stands for any address, and a list without a
well-formed item for none. -/
def addressMeant (joined : Option Text) (invert : Bool) (ip : Ipv4) : Bool :=
  match joined with
  | none => true
  | some joined =>
    if joined = [] then true
    else if invert then
      addressRules joined ≠ [] && (addressRules joined).all fun rule => !rule.covers ip
    else (addressRules joined).any fun rule => rule.holds ip

/-! ## Ports -/

/-- What an item of a port list names: `none` for any port. -/
def portRule (item : Text) : Option (Option (ℕ × ℕ)) :=
  if item = [] then none
  else if strIsAny (some item) then some none
  else
    match item.splitOn '-' with
    | [port] => ((decimal 5 port).filter (· ≤ 65535)).map fun n => some (n, n)
    | [lo, hi] =>
      (decimal 5 lo).bind fun lo =>
        ((decimal 5 hi).filter fun hi => lo ≤ hi ∧ hi ≤ 65535).map fun hi => some (lo, hi)
    | _ => none

/-- The port is in the range. -/
def portHolds (range : Option (ℕ × ℕ)) (port : BitVec 16) : Bool :=
  range.elim true fun (lo, hi) => lo ≤ port.toNat && port.toNat ≤ hi

/-- The port meets what a list says. -/
def portMeant (joined : Option Text) (port : BitVec 16) : Bool :=
  match joined with
  | none => true
  | some joined =>
    if joined = [] then true
    else ((listItems joined).filterMap portRule).any fun range => portHolds range port

/-- The condition of a row. -/
def PolicyRow.means (row : PolicyRow) (t : FiveTuple) : Bool :=
  protocolMeant row.proto t.protocol &&
    addressMeant row.srcIp row.invertSrcIp t.srcIp &&
    addressMeant row.dstIp row.invertDstIp t.dstIp &&
    portMeant row.srcPort t.srcPort && portMeant row.dstPort t.dstPort

/-! ## The loader reads well-formed items -/

variable {s item : Text} {ip mask : Ipv4} {n : ℕ}

/-- What `inet_pton` takes as an address. -/
structure Dotted (s : Text) : Prop where
  chars : ∀ c ∈ s, c.isDigit = true ∨ c = '.'
  head : ∃ c rest, s = c :: rest ∧ c.isDigit = true
  short : s.length ≤ 15

theorem digits_of_inetPart (read : inetPart s = some n) :
    s ≠ [] ∧ s.length ≤ 3 ∧ ∀ c ∈ s, c.isDigit = true := by
  obtain ⟨value, -⟩ := Option.filter_eq_some_iff.mp read
  obtain ⟨nonempty, short, digits, -⟩ := decimal_some.mp value
  exact ⟨nonempty, short, digits⟩

theorem dotted_of_inetPton (read : inetPton s = some ip) : Dotted s := by
  have joined : ['.'].intercalate (s.splitOn '.') = s := List.intercalate_splitOn '.'
  unfold inetPton at read
  split at read
  · rename_i a b c d pieces
    simp only [Option.bind_eq_some_iff, Option.map_eq_some_iff] at read
    obtain ⟨va, hA, vb, hB, vc, hC, vd, hD, -⟩ := read
    obtain ⟨neA, shortA, digitsA⟩ := digits_of_inetPart hA
    obtain ⟨-, shortB, digitsB⟩ := digits_of_inetPart hB
    obtain ⟨-, shortC, digitsC⟩ := digits_of_inetPart hC
    obtain ⟨-, shortD, digitsD⟩ := digits_of_inetPart hD
    rw [pieces] at joined
    have text : s = a ++ '.' :: (b ++ '.' :: (c ++ '.' :: d)) := by
      rw [← joined]
      simp
    refine ⟨fun x mem => ?_, ?_, ?_⟩
    · simp only [text, List.mem_append, List.mem_cons] at mem
      rcases mem with mem | rfl | mem | rfl | mem | rfl | mem
      · exact .inl (digitsA x mem)
      · exact .inr rfl
      · exact .inl (digitsB x mem)
      · exact .inr rfl
      · exact .inl (digitsC x mem)
      · exact .inr rfl
      · exact .inl (digitsD x mem)
    · cases a with
      | nil => exact absurd rfl neA
      | cons x a => exact ⟨x, _, text, digitsA x List.mem_cons_self⟩
    · rw [text]
      simp only [List.length_append, List.length_cons]
      omega
  · cases read

theorem digit_cases {c : Char} (digit : c.isDigit = true) :
    c ∈ ['0', '1', '2', '3', '4', '5', '6', '7', '8', '9'] := by
  have same : Char.ofNat c.toNat = c := Char.ofNat_toNat c
  rw [Char.isDigit, Bool.and_eq_true, decide_eq_true_eq, decide_eq_true_eq] at digit
  have low : 48 ≤ c.toNat := digit.1
  have high : c.toNat ≤ 57 := digit.2
  rw [← same]
  generalize c.toNat = k at low high
  interval_cases k <;> decide

theorem strIsAny_cons {c : Char} (solid : isBlank c = false) (notA : c.toLower ≠ 'a')
    (notStar : c ≠ '*') : strIsAny (some (c :: s)) = false := by
  rw [strIsAny, List.dropWhile_cons_of_neg (by simp [solid])]
  simp only [Bool.or_eq_false_iff, beq_eq_false_iff_ne]
  refine ⟨⟨List.cons_ne_nil _ _, ?_⟩, fun same => notStar (List.head_eq_of_cons_eq same)⟩
  rw [strcasecmpEq, List.map_cons, beq_eq_false_iff_ne]
  exact fun same => notA (List.head_eq_of_cons_eq same)

/-- A digit neither is a blank nor begins a word that has a meaning of its own. -/
theorem digit_facts {c : Char} (digit : c.isDigit = true) :
    isBlank c = false ∧ c ≠ '!' ∧ strIsAny (some (c :: s)) = false := by
  have facts : ∀ c ∈ ['0', '1', '2', '3', '4', '5', '6', '7', '8', '9'],
      isBlank c = false ∧ c ≠ '!' ∧ c.toLower ≠ 'a' ∧ c ≠ '*' := by
    simp only [List.forall_mem_cons, List.not_mem_nil, false_imp_iff, implies_true, and_true]
    decide
  obtain ⟨solid, notSign, notA, notStar⟩ := facts c (digit_cases digit)
  exact ⟨solid, notSign, strIsAny_cons solid notA notStar⟩

theorem Dotted.dropWhile_isBlank (dotted : Dotted s) : s.dropWhile isBlank = s := by
  obtain ⟨c, rest, rfl, digit⟩ := dotted.head
  exact List.dropWhile_cons_of_neg (by simp [(digit_facts (s := rest) digit).1])

theorem prefixToMask_eq (small : n ≤ 32) :
    ipv4PrefixToMaskBe n = BitVec.allOnes 32 <<< (32 - n) := by
  unfold ipv4PrefixToMaskBe
  split
  · have zero : n = 0 := by omega
    rw [zero]
    decide
  · split
    · have full : n = 32 := by omega
      rw [full]
      decide
    · congr 1
      omega

theorem parseCidrSuffix_of_maskOf (read : maskOf s = some mask) :
    s ≠ [] ∧ parseCidrSuffix s = some mask := by
  unfold maskOf at read
  unfold parseCidrSuffix
  split at read
  · rename_i dot
    have nonempty : s ≠ [] := List.ne_nil_of_mem dot
    rw [if_pos dot, parseIpv4NetmaskBe, if_neg nonempty]
    exact ⟨nonempty, read⟩
  · rename_i noDot
    obtain ⟨k, short, rfl⟩ := Option.map_eq_some_iff.mp read
    obtain ⟨value, small⟩ := Option.filter_eq_some_iff.mp short
    rw [decide_eq_true_eq] at small
    rw [if_neg noDot, scanLong_decimal value (by decide)]
    dsimp only
    rw [if_neg (by omega), prefixToMask_eq small]
    exact ⟨(decimal_some.mp value).1, rfl⟩

theorem parseIpCidr_of_networkOf (read : networkOf s = some (ip, mask)) (short : s.length ≤ 127) :
    (∃ c rest, s = c :: rest ∧ c.isDigit = true) ∧
      parseIpCidr s = some (ip, mask, ip &&& mask) := by
  unfold networkOf at read
  unfold parseIpCidr
  dsimp only
  rw [List.take_of_length_le short]
  split at read
  · rename_i address pieces
    obtain ⟨rfl, noSlash⟩ := splitOn_eq_one pieces
    obtain ⟨found, value, same⟩ := Option.map_eq_some_iff.mp read
    cases same
    have dotted := dotted_of_inetPton value
    have whole : s.takeWhile (· ≠ '/') = s :=
      List.takeWhile_eq_self_iff.mpr fun c mem => by
        simpa using fun same : c = '/' => noSlash (same ▸ mem)
    rw [whole, if_neg (fun both => noSlash both.1), dotted.dropWhile_isBlank, value, if_neg noSlash]
    exact ⟨dotted.head, rfl⟩
  · rename_i address suffix pieces
    obtain ⟨rfl, noSlash⟩ := splitOn_eq_two pieces
    obtain ⟨found, value, rest⟩ := Option.bind_eq_some_iff.mp read
    obtain ⟨found', maskRead, same⟩ := Option.map_eq_some_iff.mp rest
    cases same
    obtain ⟨nonempty, parsed⟩ := parseCidrSuffix_of_maskOf maskRead
    have dotted := dotted_of_inetPton value
    have solid : ∀ c ∈ address, decide (c ≠ '/') = true := fun c mem => by
      simpa using fun same : c = '/' => noSlash (same ▸ mem)
    have front : (address ++ '/' :: suffix).takeWhile (· ≠ '/') = address := by
      rw [List.takeWhile_append_of_pos solid, List.takeWhile_cons_of_neg (by simp),
        List.append_nil]
    have back : (address ++ '/' :: suffix).dropWhile (· ≠ '/') = '/' :: suffix := by
      rw [List.dropWhile_append_of_pos solid, List.dropWhile_cons_of_neg (by simp)]
    have slash : '/' ∈ address ++ '/' :: suffix :=
      List.mem_append_right _ List.mem_cons_self
    obtain ⟨c, more, address_eq, digit⟩ := dotted.head
    refine ⟨⟨c, more ++ '/' :: suffix, by rw [address_eq, List.cons_append], digit⟩, ?_⟩
    rw [front, back, List.tail_cons, if_neg (fun both => nonempty both.2),
      dotted.dropWhile_isBlank, value, if_pos slash, parsed]
    rfl
  · cases read

/-- A network under the flag. -/
theorem loadCidr_network {invert : Bool} (read : networkOf item = some (ip, mask))
    (short : item.length ≤ 95) :
    loadCidr invert item = ⟨false, invert, ip &&& mask, mask⟩ := by
  obtain ⟨⟨c, rest, rfl, digit⟩, parsed⟩ := parseIpCidr_of_networkOf read (by omega)
  obtain ⟨solid, notSign, notAny⟩ := digit_facts (s := rest) digit
  have kept : (c :: rest).dropWhile isBlank = c :: rest :=
    List.dropWhile_cons_of_neg (by simp [solid])
  rw [List.length_cons] at short
  unfold loadCidr neCidrBufWithInvert maxCidrItemLen
  cases invert with
  | true =>
    rw [if_pos ⟨rfl, by simpa using notSign⟩, List.take_of_length_le (by simp; omega),
      parseCidrAnyOrNegated, strIsAny_cons (by decide) (by decide) (by decide),
      if_neg (by decide), List.dropWhile_cons_of_neg (by decide)]
    dsimp only
    rw [if_pos (by rfl), List.tail_cons, kept, parsed]
    rfl
  | false =>
    rw [if_neg (by simp), List.take_of_length_le (by simp; omega), parseCidrAnyOrNegated, notAny,
      if_neg (by decide), kept]
    dsimp only
    rw [if_neg (by simpa using notSign), parsed]
    simp [notSign]

theorem passes_network (negate : Bool) (net mask ip : Ipv4) :
    (CidrTest.mk false negate (net &&& mask) mask).passes ip =
      (negate != ((ip &&& mask) == (net &&& mask))) := by
  rw [CidrTest.passes, cidrMatchWithNegate, BitVec.and_assoc, BitVec.and_self, Bool.false_or]

theorem portMatches_range (lo hi : ℕ) (port : BitVec 16) :
    portMatches lo hi port = portHolds (some (lo, hi)) port := by
  rw [portMatches, if_pos ⟨Int.natCast_nonneg _, Int.natCast_nonneg _⟩]
  simp [portHolds]

/-- An item of a port list. -/
theorem portMatches_of_portRule {range : Option (ℕ × ℕ)} (read : portRule item = some range)
    (port : BitVec 16) :
    portMatches (loadPorts item).1 (loadPorts item).2 port = portHolds range port := by
  unfold portRule at read
  split at read
  · cases read
  · split at read
    · rename_i any
      cases read
      rw [loadPorts, parsePortRange, if_pos any]
      rfl
    · rename_i other
      rw [loadPorts, parsePortRange, if_neg other]
      split at read
      · rename_i text pieces
        obtain ⟨rfl, -⟩ := splitOn_eq_one pieces
        obtain ⟨k, filtered, rfl⟩ := Option.map_eq_some_iff.mp read
        obtain ⟨value, small⟩ := Option.filter_eq_some_iff.mp filtered
        rw [decide_eq_true_eq] at small
        have scanned : scanInt (item ++ []) = some (↑k, []) :=
          scanInt_decimal value (by decide) nofun
        rw [List.append_nil] at scanned
        rw [scanIntPair, scanned]
        dsimp only [Option.filter_none]
        rw [Option.filter_some, if_pos (by simpa using small)]
        exact portMatches_range k k port
      · rename_i lo hi pieces
        obtain ⟨rfl, -⟩ := splitOn_eq_two pieces
        obtain ⟨a, valueA, rest⟩ := Option.bind_eq_some_iff.mp read
        obtain ⟨b, filtered, rfl⟩ := Option.map_eq_some_iff.mp rest
        obtain ⟨valueB, bounds⟩ := Option.filter_eq_some_iff.mp filtered
        rw [decide_eq_true_eq] at bounds
        have first : scanInt (lo ++ '-' :: hi) = some (↑a, '-' :: hi) :=
          scanInt_decimal valueA (by decide) fun c head => by
            cases head
            decide
        have second : scanInt (hi ++ []) = some (↑b, []) :=
          scanInt_decimal valueB (by decide) nofun
        rw [List.append_nil] at second
        have pair : scanIntPair (lo ++ '-' :: hi) = some (↑a, ↑b) := by
          simp only [scanIntPair, first, second, Option.map_some]
        rw [pair, Option.filter_some, if_pos (by simpa using bounds)]
        exact portMatches_range a b port
      · cases read

/-- No list: any address and any port. -/
theorem loaded_empty {joined : Option Text} (empty : joined.getD [] = []) :
    loadedItems joined = [[]] ∧ (∀ invert ip, addressMeant joined invert ip = true) ∧
      ∀ port, portMeant joined port = true := by
  cases joined with
  | none => exact ⟨rfl, fun _ _ => rfl, fun _ => rfl⟩
  | some joined =>
    rw [Option.getD_some] at empty
    rw [empty]
    exact ⟨rfl, fun _ _ => rfl, fun _ => rfl⟩

/-! ## The loader reads protocols -/

/-- The number that stands for a rule. -/
def ProtocolRule.wire : ProtocolRule → BitVec 8
  | any => policyProtoAny
  | tcpUdp => policyProtoTcpUdp
  | number n => BitVec.ofNat 8 n

/-- The protocol is one that the loader can hold: 0 and 254 stand for something else. -/
def ProtocolPlain (proto : Option Text) : Prop :=
  ∃ rule, protocolRule proto = some rule ∧ rule ≠ .number 0 ∧ rule ≠ .number 254

theorem parseProtocolName_eq (proto : Option Text) (notAny : strIsAny proto = false) :
    parseProtocolName proto =
      (protocolNames.find? fun name => strcasecmpEq (proto.getD []) name.1).elim
        (BitVec.ofInt 8 (atoi (proto.getD []))) fun name => name.2.wire := by
  rw [parseProtocolName, if_neg (by simp [notAny])]
  dsimp only
  generalize proto.getD [] = v
  simp only [protocolNames, List.find?_cons]
  -- One case for each name, in the order of the comparisons.
  repeat
    split
    · rename_i named
      rw [named]
      rfl
    rename_i other
    rw [eq_false_of_ne_true other]
    dsimp only
  rfl

theorem named_small {name : Text × ProtocolRule} (mem : name ∈ protocolNames) :
    name.2 = .number n → n ≤ 255 := by
  simp only [protocolNames, List.mem_cons, List.not_mem_nil, or_false] at mem
  rcases mem with rfl | rfl | rfl | rfl | rfl | rfl | rfl
  all_goals
    intro same
    cases same
  all_goals decide

theorem parseProtocolName_of_rule {proto : Option Text} {rule : ProtocolRule}
    (read : protocolRule proto = some rule) :
    parseProtocolName proto = rule.wire ∧ ∀ n, rule = .number n → n ≤ 255 := by
  unfold protocolRule at read
  split at read
  · rename_i any
    cases read
    rw [parseProtocolName, if_pos any]
    exact ⟨rfl, nofun⟩
  · rename_i other
    rw [parseProtocolName_eq proto (by simpa using other)]
    split at read
    · rename_i name found
      cases read
      rw [found]
      exact ⟨rfl, fun n => named_small (List.mem_of_find?_eq_some found)⟩
    · rename_i notFound
      rw [notFound]
      obtain ⟨k, filtered, rfl⟩ := Option.map_eq_some_iff.mp read
      obtain ⟨value, small⟩ := Option.filter_eq_some_iff.mp filtered
      rw [decide_eq_true_eq] at small
      have scanned : scanInt (proto.getD [] ++ []) = some (↑k, []) :=
        scanInt_decimal value (by decide) nofun
      rw [List.append_nil] at scanned
      refine ⟨?_, fun n same => by cases same; exact small⟩
      rw [Option.elim, atoi, scanned]
      exact BitVec.ofInt_natCast 8 k

theorem protocolMatches_wire {rule : ProtocolRule} (small : ∀ n, rule = .number n → n ≤ 255)
    (notZero : rule ≠ .number 0) (notPair : rule ≠ .number 254) (p : BitVec 8) :
    protocolMatches rule.wire p = rule.meets p := by
  cases rule with
  | any => rfl
  | tcpUdp => rfl
  | number n =>
    have bound := small n rfl
    have toNat : (BitVec.ofNat 8 n).toNat = n := by
      rw [BitVec.toNat_ofNat]
      exact Nat.mod_eq_of_lt (by omega)
    have ne (k : ℕ) (other : n ≠ k) (small : k ≤ 255) : BitVec.ofNat 8 n ≠ BitVec.ofNat 8 k := by
      intro same
      rw [← BitVec.toNat_inj, toNat, BitVec.toNat_ofNat, Nat.mod_eq_of_lt (by omega)] at same
      exact other same
    have pair : BitVec.ofNat 8 n ≠ policyProtoTcpUdp :=
      ne 254 (fun same => notPair (same ▸ rfl)) (by decide)
    have zero : BitVec.ofNat 8 n ≠ policyProtoAny :=
      ne 0 (fun same => notZero (same ▸ rfl)) (by decide)
    rw [ProtocolRule.wire, protocolMatches, if_neg pair, beq_eq_false_iff_ne.mpr zero,
      Bool.false_or, ProtocolRule.meets, Bool.eq_iff_iff, beq_iff_eq, beq_iff_eq,
      ← BitVec.toNat_inj, toNat]
    exact eq_comm

theorem protocolMeant_of_plain {proto : Option Text} (plain : ProtocolPlain proto) (p : BitVec 8) :
    protocolMatches (parseProtocolName proto) p = protocolMeant proto p := by
  obtain ⟨rule, read, notZero, notPair⟩ := plain
  obtain ⟨wire, small⟩ := parseProtocolName_of_rule read
  rw [wire, protocolMatches_wire small notZero notPair, protocolMeant, read]
  rfl

end NeEncryptor
