import NeEncryptor.Db.PolicyMeaning

/-!
# Malformed items

What the loader takes any item of a list for, well-formed or not, stated by the texts alone: which items
the buffers hold of a list, and the network or the ports that an item stands for once it is read
loosely. What cannot be read at all is taken for everything.
-/

namespace NeEncryptor

open CText

variable {joined item s : Text} {items toks : List Text} {invert : Bool}

/-- The items of a list as far as the buffers hold them. -/
def storedItems (joined : Text) : List Text :=
  (strtok ',' (trimBlanks (joined.take 1023))).map fun tok => (trimBlanks tok).take 95

/-! ## Networks -/

/-- The mask of a suffix, as a contiguous mask or as any number up to 32 that `strtol` reads to its
end. -/
def looseMaskOf (s : Text) : Option Ipv4 :=
  if '.' ∈ s then (inetPton s).filter fun mask => ipv4MaskBeIsContiguous mask
  else
    (scanLong s).bind fun (n, rest) =>
      if rest = [] ∧ 0 ≤ n ∧ n ≤ 32 then some (BitVec.allOnes 32 <<< (32 - n.toNat)) else none

/-- The network of an address and the suffix behind its first slash. -/
def looseNetworkOf (s : Text) : Option (Ipv4 × Ipv4) :=
  (inetPton (s.takeWhile (· ≠ '/'))).bind fun ip =>
    if '/' ∈ s then
      (looseMaskOf ((s.dropWhile (· ≠ '/')).tail.dropWhile isBlank)).map fun mask => (ip, mask)
    else some (ip, BitVec.allOnes 32)

/-- The network of an item, with whether there is a sign before it. -/
def looseNetwork (item : Text) : Option (Bool × Ipv4 × Ipv4) :=
  if item.head? = some '!' then
    (looseNetworkOf (item.tail.dropWhile isBlank)).map fun network => (true, network)
  else (looseNetworkOf item).map fun network => (false, network)

/-- What an item of a list without the flag is taken for. -/
def looseRule (item : Text) : AddressRule :=
  (looseNetwork item).elim .any fun (negated, net, mask) => .network negated net mask

theorem looseMaskOf_eq (nonempty : s ≠ []) : looseMaskOf s = parseCidrSuffix s := by
  unfold looseMaskOf parseCidrSuffix
  split
  · rw [parseIpv4NetmaskBe, if_neg nonempty]
  · cases scanLong s with
    | none => rfl
    | some scanned =>
      obtain ⟨n, rest⟩ := scanned
      cases rest with
      | cons c rest => rfl
      | nil =>
        rw [Option.bind_some]
        dsimp only
        by_cases small : 0 ≤ n ∧ n ≤ 32
        · rw [if_pos ⟨rfl, small⟩, if_neg (by omega)]
          obtain ⟨k, rfl⟩ := Int.eq_ofNat_of_zero_le small.1
          rw [prefixToMask_eq (by omega), Int.toNat_natCast]
        · rw [if_neg (fun both => small both.2), if_pos (by omega)]

theorem looseMaskOf_nil : looseMaskOf [] = none := rfl

theorem solid_front {front : Text} (solid : s.dropWhile isBlank = s) (isPrefix : front <+: s) :
    front.dropWhile isBlank = front := by
  obtain ⟨rest, rfl⟩ := isPrefix
  cases front with
  | nil => rfl
  | cons c front =>
    refine List.dropWhile_cons_of_neg fun blank => ?_
    rw [List.cons_append, List.dropWhile_cons_of_pos blank] at solid
    have shorter := List.length_dropWhile_le isBlank (front ++ rest)
    rw [solid, List.length_cons] at shorter
    omega

theorem parseIpCidr_eq (short : s.length ≤ 127) (solid : s.dropWhile isBlank = s) :
    parseIpCidr s = (looseNetworkOf s).map fun (ip, mask) => (ip, mask, ip &&& mask) := by
  unfold parseIpCidr looseNetworkOf
  dsimp only
  rw [List.take_of_length_le short, solid_front solid (List.takeWhile_prefix _)]
  by_cases slash : '/' ∈ s
  · simp only [slash, true_and]
    generalize (List.dropWhile (fun c => decide (c ≠ '/')) s).tail.dropWhile isBlank = suffix
    by_cases empty : suffix = []
    · rw [if_pos empty, empty, looseMaskOf_nil]
      cases inetPton (s.takeWhile (· ≠ '/')) with
      | none => rfl
      | some ip => rfl
    · rw [if_neg empty, looseMaskOf_eq empty]
      cases inetPton (s.takeWhile (· ≠ '/')) with
      | none => rfl
      | some ip =>
        cases parseCidrSuffix suffix with
        | none => rfl
        | some mask => rfl
  · simp only [slash, false_and, if_false]
    cases inetPton (s.takeWhile (· ≠ '/')) with
    | none => rfl
    | some ip => rfl

/-- A network begins with a digit. -/
theorem not_any_of_looseNetworkOf {network : Ipv4 × Ipv4} (read : looseNetworkOf s = some network) :
    strIsAny (some s) = false := by
  obtain ⟨ip, value, -⟩ := Option.bind_eq_some_iff.mp read
  obtain ⟨c, rest, front, digit⟩ := (dotted_of_inetPton value).head
  obtain ⟨more, whole⟩ := List.takeWhile_prefix (p := fun c => decide (c ≠ '/')) (l := s)
  rw [← whole, front, List.cons_append]
  exact (digit_facts digit).2.2

/-- The loader takes an item for its network, and for any address where it has none. -/
theorem loadCidr_eq (short : item.length ≤ 95) (solid : item.dropWhile isBlank = item) :
    loadCidr invert item = (looseNetwork item).elim ⟨true, false, 0, 0⟩
      fun (negated, net, mask) => ⟨false, negated || invert, net &&& mask, mask⟩ := by
  unfold loadCidr neCidrBufWithInvert looseNetwork maxCidrItemLen
  by_cases sign : item.head? = some '!'
  · obtain ⟨rest, rfl⟩ := List.head?_eq_some_iff.mp sign
    rw [List.length_cons] at short
    have shorter := List.length_dropWhile_le isBlank rest
    rw [if_neg (fun both => both.2 rfl), if_pos sign, List.take_of_length_le (by simp; omega),
      parseCidrAnyOrNegated, strIsAny_cons (by decide) (by decide) (by decide),
      if_neg (by decide), List.dropWhile_cons_of_neg (by decide)]
    dsimp only
    rw [if_pos (by rfl), List.tail_cons, parseIpCidr_eq (by omega) (List.dropWhile_idempotent _ _)]
    cases looseNetworkOf (rest.dropWhile isBlank) with
    | none => rfl
    | some network => rfl
  · rw [if_neg sign]
    cases invert with
    | true =>
      rw [if_pos ⟨rfl, sign⟩, List.take_of_length_le (by omega), parseCidrAnyOrNegated,
        strIsAny_cons (by decide) (by decide) (by decide), if_neg (by decide),
        List.dropWhile_cons_of_neg (by decide)]
      dsimp only
      rw [if_pos (by rfl), List.tail_cons, solid, parseIpCidr_eq (by omega) solid]
      cases looseNetworkOf item with
      | none => rfl
      | some network => rfl
    | false =>
      rw [if_neg (by simp), List.take_of_length_le (by omega), parseCidrAnyOrNegated]
      cases read : looseNetworkOf item with
      | none =>
        split
        · rfl
        · dsimp only
          rw [solid, if_neg (by simpa using sign), parseIpCidr_eq (by omega) solid, read]
          rfl
      | some network =>
        rw [not_any_of_looseNetworkOf read, if_neg (by decide)]
        dsimp only
        rw [solid, if_neg (by simpa using sign), parseIpCidr_eq (by omega) solid, read]
        simp [sign]

/-- The test of an item of a list without the flag. -/
theorem passes_looseRule (short : item.length ≤ 95) (solid : item.dropWhile isBlank = item)
    (ip : Ipv4) : (loadCidr false item).passes ip = (looseRule item).holds ip := by
  rw [loadCidr_eq short solid, looseRule]
  cases looseNetwork item with
  | none => rfl
  | some read =>
    obtain ⟨negated, net, mask⟩ := read
    rw [Option.elim_some, Option.elim_some]
    dsimp only
    rw [Bool.or_false, passes_network]
    rfl

/-! ## Ports -/

/-- The range of two numbers with a dash between them, or else the port that an item begins with. -/
def looseRange (item : Text) : Option (ℕ × ℕ) :=
  if strIsAny (some item) then none
  else
    match (scanIntPair item).filter fun (a, b) => 0 ≤ a ∧ a ≤ b ∧ b ≤ 65535 with
    | some (a, b) => some (a.toNat, b.toNat)
    | none => ((scanInt item).filter fun (a, _) => 0 ≤ a ∧ a ≤ 65535).map fun (a, _) =>
        (a.toNat, a.toNat)

/-- The loader takes an item for the ports that it begins with, and for any port where it has none. -/
theorem portMatches_looseRange (item : Text) (port : BitVec 16) :
    portMatches (loadPorts item).1 (loadPorts item).2 port = portHolds (looseRange item) port := by
  rw [loadPorts, parsePortRange, looseRange]
  split
  · rfl
  cases pair : (scanIntPair item).filter fun (a, b) => 0 ≤ a ∧ a ≤ b ∧ b ≤ 65535 with
  | some range =>
    obtain ⟨a, b⟩ := range
    have bounds : 0 ≤ a ∧ a ≤ b ∧ b ≤ 65535 := by
      simpa using (Option.filter_eq_some_iff.mp pair).2
    obtain ⟨lo, rfl⟩ := Int.eq_ofNat_of_zero_le bounds.1
    obtain ⟨hi, rfl⟩ := Int.eq_ofNat_of_zero_le (bounds.1.trans bounds.2.1)
    exact portMatches_range lo hi port
  | none =>
    dsimp only
    cases single : (scanInt item).filter fun (a, _) => 0 ≤ a ∧ a ≤ 65535 with
    | none => rfl
    | some scanned =>
      obtain ⟨a, rest⟩ := scanned
      have bounds : 0 ≤ a ∧ a ≤ 65535 := by
        simpa using (Option.filter_eq_some_iff.mp single).2
      obtain ⟨lo, rfl⟩ := Int.eq_ofNat_of_zero_le bounds.1
      exact portMatches_range lo lo port

/-! ## Lists -/

theorem splitTokens_eq {count : ℕ} (split : splitTokens count toks = some items) :
    items = toks.map fun tok => (trimBlanks tok).take 95 := by
  induction toks generalizing count items with
  | nil =>
    rw [splitTokens] at split
    split at split
    · cases split
      rfl
    · cases split
  | cons tok toks ih =>
    rw [splitTokens] at split
    split at split
    · cases split
    · split at split
      · cases split
      · obtain ⟨rest, found, rfl⟩ := Option.map_eq_some_iff.mp split
        rw [ih found]
        rfl

theorem splitTokens_ne_nil {count : ℕ} (split : splitTokens count toks = some items) :
    0 < count ∨ items ≠ [] := by
  cases toks with
  | nil =>
    rw [splitTokens] at split
    split at split
    · exact .inl ‹_›
    · cases split
  | cons tok toks =>
    rw [splitTokens] at split
    split at split
    · cases split
    · split at split
      · cases split
      · obtain ⟨rest, -, rfl⟩ := Option.map_eq_some_iff.mp split
        exact .inr (List.cons_ne_nil _ _)

/-- A list that is loaded. -/
theorem loadedItems_eq (nonempty : joined ≠ [])
    (filled : ∃ items, neFillNullableList (some joined) = some items) :
    loadedItems (some joined) = storedItems joined ∧ storedItems joined ≠ [] := by
  obtain ⟨items, filled⟩ := filled
  rw [loadedItems, filled, Option.getD_some]
  rw [neFillNullableList, if_neg nonempty, splitCidrList] at filled
  split at filled
  · cases filled
  · have same : items = storedItems joined := splitTokens_eq filled
    exact ⟨same, same ▸ (splitTokens_ne_nil filled).resolve_left (lt_irrefl 0)⟩

/-- An item in its buffer is short, and begins with no blank. -/
theorem storedItems_facts (mem : item ∈ storedItems joined) :
    item.length ≤ 95 ∧ item.dropWhile isBlank = item := by
  obtain ⟨tok, -, rfl⟩ := List.mem_map.mp mem
  refine ⟨List.length_take_le _ _, solid_front (s := tok.dropWhile isBlank)
    (List.dropWhile_idempotent _ _) ((List.take_prefix _ _).trans (List.rdropWhile_prefix _ _))⟩

end NeEncryptor
