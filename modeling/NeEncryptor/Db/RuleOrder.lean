import NeEncryptor.Db.PolicyMeaning
import NeEncryptor.Db.Selection

/-!
# The rows in their order

`config_select_crypto_policy` on the loaded policies returns a policy of the row that comes first by
priority and wire id among those whose conditions hold, where the flag of a list with several networks
does not matter to the packet.
-/

namespace NeEncryptor

open CText

variable {s item : Text} {n : ℕ} {ip mask : Ipv4}

/-! ## Well-formed rows -/

/-- An item that is an address or a network. -/
structure CidrItem (item : Text) : Prop where
  network : (networkOf item).isSome
  solid : ∀ c ∈ item, isBlank c = false

/-- An item that is a port or a range of ports. -/
def PortItem (item : Text) : Prop := ∃ range, portRule item = some (some range)

/-- Every item of a list is one of the kind. -/
def ListOf (Item : Text → Prop) (joined : Option Text) : Prop :=
  joined.getD [] = [] ∨ ∀ item ∈ (joined.getD []).splitOn ',', Item item

instance (item : Text) : Decidable (CidrItem item) :=
  decidable_of_iff ((networkOf item).isSome ∧ item.any isBlank = false)
    ⟨fun both => ⟨both.1, fun c mem => Bool.eq_false_iff.mpr (List.any_eq_false.mp both.2 c mem)⟩,
      fun cidr => ⟨cidr.network, List.any_eq_false.mpr fun c mem =>
        Bool.eq_false_iff.mp (cidr.solid c mem)⟩⟩

/-- A row with well-formed items. -/
structure PolicyRow.WellFormed (row : PolicyRow) : Prop where
  proto : ProtocolPlain row.proto
  src : ListOf CidrItem row.srcIp
  dst : ListOf CidrItem row.dstIp
  sport : ListOf PortItem row.srcPort
  dport : ListOf PortItem row.dstPort

/-- What the loader needs of an item to take it as it is. -/
structure Solid (item : Text) : Prop where
  nonempty : item ≠ []
  solid : ∀ c ∈ item, isBlank c = false
  short : item.length ≤ 31

theorem CidrItem.length_le (cidr : CidrItem item) : item.length ≤ 31 := by
  obtain ⟨⟨ip, mask⟩, read⟩ := Option.isSome_iff_exists.mp cidr.network
  unfold networkOf at read
  split at read
  · rename_i address pieces
    obtain ⟨rfl, -⟩ := splitOn_eq_one pieces
    obtain ⟨found, value, -⟩ := Option.map_eq_some_iff.mp read
    exact (dotted_of_inetPton value).short.trans (by decide)
  · rename_i address suffix pieces
    obtain ⟨rfl, -⟩ := splitOn_eq_two pieces
    obtain ⟨found, value, rest⟩ := Option.bind_eq_some_iff.mp read
    obtain ⟨found', maskRead, -⟩ := Option.map_eq_some_iff.mp rest
    have first := (dotted_of_inetPton value).short
    have kept : suffix.dropWhile isBlank = suffix := by
      cases suffix with
      | nil => rfl
      | cons c suffix =>
        exact List.dropWhile_cons_of_neg (by simp [cidr.solid c (by simp)])
    have second : suffix.length ≤ 15 := by
      rw [kept] at maskRead
      unfold maskOf at maskRead
      split at maskRead
      · obtain ⟨dotted, -⟩ := Option.filter_eq_some_iff.mp maskRead
        exact (dotted_of_inetPton dotted).short
      · obtain ⟨k, filtered, -⟩ := Option.map_eq_some_iff.mp maskRead
        obtain ⟨number, -⟩ := Option.filter_eq_some_iff.mp filtered
        exact (decimal_some.mp number).2.1.trans (by decide)
    rw [List.length_append, List.length_cons]
    omega
  · cases read

theorem CidrItem.rule (cidr : CidrItem item) : ∃ net mask,
    networkOf item = some (net, mask) ∧ addressRule item = some (.network false net mask) := by
  obtain ⟨⟨net, mask⟩, read⟩ := Option.isSome_iff_exists.mp cidr.network
  have short := cidr.length_le
  obtain ⟨⟨c, rest, rfl, digit⟩, -⟩ := parseIpCidr_of_networkOf read (by omega)
  obtain ⟨-, notSign, notAny⟩ := digit_facts (s := rest) digit
  refine ⟨net, mask, read, ?_⟩
  rw [addressRule, if_neg (List.cons_ne_nil _ _), notAny, if_neg (by decide),
    if_neg (by simpa using notSign), read]
  rfl

theorem CidrItem.isSolid (cidr : CidrItem item) : Solid item := by
  have short := cidr.length_le
  obtain ⟨net, mask, read, -⟩ := cidr.rule
  obtain ⟨⟨c, rest, rfl, -⟩, -⟩ := parseIpCidr_of_networkOf read (by omega)
  exact ⟨List.cons_ne_nil _ _, cidr.solid, short⟩

theorem solid_of_decimal {width : ℕ} (read : decimal width s = some n) :
    ∀ c ∈ s, isBlank c = false :=
  fun c mem => (digit_facts (s := []) ((decimal_some.mp read).2.2.1 c mem)).1

theorem PortItem.isSolid (port : PortItem item) : Solid item := by
  obtain ⟨range, read⟩ := port
  unfold portRule at read
  split at read
  · cases read
  · rename_i nonempty
    split at read
    · cases read
    · split at read
      · rename_i text pieces
        obtain ⟨rfl, -⟩ := splitOn_eq_one pieces
        obtain ⟨k, filtered, -⟩ := Option.map_eq_some_iff.mp read
        obtain ⟨value, -⟩ := Option.filter_eq_some_iff.mp filtered
        exact ⟨nonempty, solid_of_decimal value, (decimal_some.mp value).2.1.trans (by decide)⟩
      · rename_i lo hi pieces
        obtain ⟨rfl, -⟩ := splitOn_eq_two pieces
        obtain ⟨a, valueA, rest⟩ := Option.bind_eq_some_iff.mp read
        obtain ⟨b, filtered, -⟩ := Option.map_eq_some_iff.mp rest
        obtain ⟨valueB, -⟩ := Option.filter_eq_some_iff.mp filtered
        have shortA := (decimal_some.mp valueA).2.1
        have shortB := (decimal_some.mp valueB).2.1
        refine ⟨nonempty, fun c mem => ?_, ?_⟩
        · rcases List.mem_append.mp mem with mem | mem
          · exact solid_of_decimal valueA c mem
          · rcases List.mem_cons.mp mem with rfl | mem
            · decide
            · exact solid_of_decimal valueB c mem
        · rw [List.length_append, List.length_cons]
          omega
      · cases read


theorem splitTokens_solid {count : ℕ} {toks : List Text} (solid : ∀ tok ∈ toks, Solid tok)
    (fits : count + toks.length ≤ maxCidrListItems) (found : 0 < count ∨ toks ≠ []) :
    splitTokens count toks = some toks := by
  induction toks generalizing count with
  | nil => exact if_pos (found.resolve_right fun other => other rfl)
  | cons tok toks ih =>
    have head := solid tok List.mem_cons_self
    rw [List.length_cons] at fits
    rw [splitTokens, if_neg (by omega), trimBlanks_of_solid head.solid, if_neg head.nonempty,
      ih (fun other mem => solid other (List.mem_cons_of_mem _ mem)) (by omega) (.inl (by omega)),
      Option.map_some, List.take_of_length_le (head.short.trans (by decide))]

/-- A list of solid items is loaded as it is. -/
theorem loadedItems_of_solid {joined : Text} (nonempty : joined ≠ [])
    (solid : ∀ item ∈ joined.splitOn ',', Solid item)
    (fits : (joined.splitOn ',').length ≤ maxCidrListItems) :
    loadedItems (some joined) = joined.splitOn ',' ∧ listItems joined = joined.splitOn ',' := by
  have rejoined : [','].intercalate (joined.splitOn ',') = joined := List.intercalate_splitOn ','
  have short : joined.length ≤ 1023 := by
    have bound : ([','].intercalate (joined.splitOn ',')).length <
        (joined.splitOn ',').length * (31 + 1) :=
      length_intercalate_lt (List.splitOn_ne_nil ',' joined) fun item mem => (solid item mem).short
    rw [rejoined] at bound
    unfold maxCidrListItems at fits
    omega
  have unblank : ∀ c ∈ joined, isBlank c = false := by
    intro c mem
    rw [← rejoined] at mem
    rcases mem_intercalate mem with rfl | ⟨item, inside, mem⟩
    · decide
    · exact (solid item inside).solid c mem
  have tokens : strtok ',' joined = joined.splitOn ',' :=
    List.filter_eq_self.mpr fun item mem => by simpa using (solid item mem).nonempty
  constructor
  · rw [loadedItems, neFillNullableList, if_neg nonempty, splitCidrList,
      List.take_of_length_le short, trimBlanks_of_solid unblank, if_neg nonempty, tokens,
      splitTokens_solid solid (by omega) (.inr (List.splitOn_ne_nil ',' joined)), Option.getD_some]
  · rw [listItems, List.map_congr_left fun item mem => trimBlanks_of_solid (solid item mem).solid,
      List.map_id']

/-- The flag of an address list makes no difference between one network and another. -/
def AgreesOn (joined : Option Text) (invert : Bool) (ip : Ipv4) : Prop :=
  invert = true → ∀ a ∈ addressRules (joined.getD []), ∀ b ∈ addressRules (joined.getD []),
    a.covers ip = b.covers ip

/-- A network with and without the flag. -/
theorem CidrItem.passes (cidr : CidrItem item) : ∃ rule, addressRule item = some rule ∧
    ∀ ip, rule.holds ip = rule.covers ip ∧
      ∀ invert, (loadCidr invert item).passes ip = (invert != rule.covers ip) := by
  obtain ⟨net, mask, read, rule⟩ := cidr.rule
  have short := cidr.length_le
  refine ⟨_, rule, fun ip => ⟨Bool.false_bne _, fun invert => ?_⟩⟩
  rw [loadCidr_network read (by omega), passes_network]
  rfl

theorem addressLoaded_eq {joined : Option Text} {invert : Bool}
    (wellFormed : ListOf CidrItem joined)
    (fits : (listItems (joined.getD [])).length ≤ maxCidrListItems)
    (agrees : AgreesOn joined invert ip) :
    addressLoaded joined invert ip = addressMeant joined invert ip := by
  by_cases empty : joined.getD [] = []
  · obtain ⟨items, meant, -⟩ := loaded_empty empty
    rw [addressLoaded, items, meant]
    cases invert with
    | false => rfl
    | true => rfl
  · have cidr := wellFormed.resolve_left empty
    cases joined with
    | none => exact absurd rfl empty
    | some joined =>
      rw [AgreesOn] at agrees
      rw [Option.getD_some] at empty cidr fits agrees
      rw [listItems, List.length_map] at fits
      obtain ⟨loaded, listed⟩ :=
        loadedItems_of_solid empty (fun item mem => (cidr item mem).isSolid) fits
      have mem_rules {item : Text} {rule : AddressRule} (mem : item ∈ joined.splitOn ',')
          (read : addressRule item = some rule) : rule ∈ addressRules joined := by
        rw [addressRules, listed]
        exact List.mem_filterMap.mpr ⟨item, mem, read⟩
      have of_mem_rules {rule : AddressRule} (mem : rule ∈ addressRules joined) :
          ∃ item ∈ joined.splitOn ',', addressRule item = some rule := by
        rw [addressRules, listed] at mem
        exact List.mem_filterMap.mp mem
      rw [addressLoaded, loaded, addressMeant, if_neg empty, Bool.eq_iff_iff, List.any_eq_true]
      cases invert with
      | false =>
        rw [if_neg (by decide), List.any_eq_true]
        constructor
        · rintro ⟨item, mem, passed⟩
          obtain ⟨rule, read, same⟩ := (cidr item mem).passes
          refine ⟨rule, mem_rules mem read, ?_⟩
          rw [(same ip).1, ← passed, (same ip).2, Bool.false_bne]
        · rintro ⟨rule, mem, held⟩
          obtain ⟨item, inside, read⟩ := of_mem_rules mem
          obtain ⟨rule', read', same⟩ := (cidr item inside).passes
          cases read.symm.trans read'
          refine ⟨item, inside, ?_⟩
          rw [(same ip).2, Bool.false_bne, ← (same ip).1, held]
      | true =>
        rw [if_pos rfl, Bool.and_eq_true, decide_eq_true_eq, List.all_eq_true]
        constructor
        · rintro ⟨item, mem, passed⟩
          obtain ⟨rule, read, same⟩ := (cidr item mem).passes
          have here := mem_rules mem read
          refine ⟨List.ne_nil_of_mem here, fun other there => ?_⟩
          rw [agrees rfl other there rule here, ← passed, (same ip).2, Bool.true_bne]
        · rintro ⟨some_rule, outside⟩
          obtain ⟨rule, mem⟩ := List.exists_mem_of_ne_nil _ some_rule
          obtain ⟨item, inside, read⟩ := of_mem_rules mem
          obtain ⟨rule', read', same⟩ := (cidr item inside).passes
          cases read.symm.trans read'
          refine ⟨item, inside, ?_⟩
          rw [(same ip).2, Bool.true_bne, outside rule mem]

theorem portLoaded_eq {joined : Option Text} (wellFormed : ListOf PortItem joined)
    (fits : (listItems (joined.getD [])).length ≤ maxCidrListItems) (port : BitVec 16) :
    portLoaded joined port = portMeant joined port := by
  by_cases empty : joined.getD [] = []
  · obtain ⟨items, -, meant⟩ := loaded_empty empty
    rw [portLoaded, items, meant]
    rfl
  · have ports := wellFormed.resolve_left empty
    cases joined with
    | none => exact absurd rfl empty
    | some joined =>
      rw [Option.getD_some] at empty ports fits
      rw [listItems, List.length_map] at fits
      obtain ⟨loaded, listed⟩ :=
        loadedItems_of_solid empty (fun item mem => (ports item mem).isSolid) fits
      rw [portLoaded, loaded, portMeant, if_neg empty, listed, Bool.eq_iff_iff, List.any_eq_true, List.any_eq_true]
      constructor
      · rintro ⟨item, mem, matched⟩
        obtain ⟨range, read⟩ := ports item mem
        rw [portMatches_of_portRule read] at matched
        exact ⟨some range, List.mem_filterMap.mpr ⟨item, mem, read⟩, matched⟩
      · rintro ⟨range, mem, held⟩
        obtain ⟨item, inside, read⟩ := List.mem_filterMap.mp mem
        exact ⟨item, inside, (portMatches_of_portRule read port).trans held⟩

/-- Where the lists of a row are not longer than the loader takes them, and no packet is in some but
not all networks of a list with the flag. -/
structure PolicyRow.ReadAsWritten (row : PolicyRow) (t : FiveTuple) : Prop where
  fits : ∀ joined ∈ [row.srcIp, row.dstIp, row.srcPort, row.dstPort],
    (listItems (joined.getD [])).length ≤ maxCidrListItems
  src : AgreesOn row.srcIp row.invertSrcIp t.srcIp
  dst : AgreesOn row.dstIp row.invertDstIp t.dstIp

theorem lets_eq_means {row : PolicyRow} {t : FiveTuple} (wellFormed : row.WellFormed)
    (read : row.ReadAsWritten t) : row.lets t = row.means t := by
  rw [PolicyRow.lets, PolicyRow.means, protocolMeant_of_plain wellFormed.proto,
    addressLoaded_eq wellFormed.src (read.fits _ (by simp)) read.src,
    addressLoaded_eq wellFormed.dst (read.fits _ (by simp)) read.dst,
    portLoaded_eq wellFormed.sport (read.fits _ (by simp)),
    portLoaded_eq wellFormed.dport (read.fits _ (by simp))]

/-! ## The winner -/

/-- What decides between rows. -/
def NumberedRow.order (n : NumberedRow) : ℤ ×ₗ ℤ := toLex (n.row.priority, n.wireId)

/-- The answer is one of the policies of the row, and none where there is no row. -/
def EntryOf : Option NumberedRow → Option CryptoPolicy → Prop
  | none, answer => answer = none
  | some n, answer => ∃ cp ∈ n.policies, answer = some cp

variable {rows : List PolicyRow} {policies : List CryptoPolicy} {t : FiveTuple}

theorem filterMap_range {α : Type*} (xs : List α) (k : ℕ) :
    (List.range k).filterMap (fun i => xs[i]?) = xs.take k := by
  induction k with
  | zero => rw [List.take_zero]; rfl
  | succ k ih =>
    rw [List.range_succ, List.filterMap_append, ih, List.take_add_one, List.filterMap_cons,
      List.filterMap_nil]
    cases xs[k]? with
    | none => rfl
    | some x => rfl

theorem listedAt_loadedConfig (profileId : ℤ) (policies : List CryptoPolicy) :
    (loadedConfig profileId policies).listedAt 0 = policies := by
  rw [AppConfig.listedAt, loadedConfig]
  dsimp only [Option.elim, AppConfig.listed, List.getElem?_cons_zero]
  rw [filterMap_range, List.take_length]

/-- On any rows: the winner is a policy of the best row that has a policy for the packet. -/
theorem select_of_lets (profileId : ℤ) (loads : Loads [] rows policies) (t : FiveTuple) :
    EntryOf (((numberRows [] rows).filter (·.row.lets t)).argmin NumberedRow.order)
      (configSelectCryptoPolicy (loadedConfig profileId policies) 0 t) := by
  have keys : ∀ n ∈ numberRows [] rows, ∀ cp ∈ n.policies, cp.order = n.order := by
    intro n _ cp mem
    obtain ⟨-, priority, id⟩ := mem_policies mem
    rw [CryptoPolicy.order, NumberedRow.order, priority, id]
  have lets : (fun n : NumberedRow => n.policies.any fun cp => cryptoPolicyMatchPacket cp t) =
      fun n => n.row.lets t := funext fun n => policies_any_match
  rw [configSelect_eq, listedAt_loadedConfig, loads.policies_eq, ← lets]
  rcases FirstBest.argmin_flatMap (p := fun cp => cryptoPolicyMatchPacket cp t) keys with
    ⟨noRow, noPolicy⟩ | ⟨n, -, cp, mem, -, bestRow, bestPolicy⟩
  · rw [noRow, noPolicy]
    rfl
  · rw [bestRow, bestPolicy]
    exact ⟨cp, mem, rfl⟩

/-- The selected policy is one of the row that comes first by priority and wire id among those whose
conditions hold. -/
theorem select_by_wire_id (q : PolicyRows) (loaded : loadPolicies q.rows = some policies)
    (wellFormed : ∀ row ∈ q.rows, row.WellFormed) (profileId : ℤ)
    (read : ∀ row ∈ q.rows, row.ReadAsWritten t) :
    EntryOf (((numberRows [] q.rows).filter (·.row.means t)).argmin NumberedRow.order)
      (configSelectCryptoPolicy (loadedConfig profileId policies) 0 t) := by
  have loads := loads_of_loadPolicies loaded
  have same : (numberRows [] q.rows).filter (·.row.means t) =
      (numberRows [] q.rows).filter (·.row.lets t) := by
    refine List.filter_congr fun n mem => ?_
    have row : n.row ∈ q.rows := by
      rw [← loads.rows_eq]
      exact List.mem_map_of_mem mem
    exact (lets_eq_means (wellFormed n.row row) (read n.row row)).symm
  rw [same]
  exact select_of_lets profileId loads t

/-- A row for one network and a row for all, of the same priority. -/
def tieRows : PolicyRows where
  rows := [⟨5, 10, ['L', '2'], none, some ['1', '0', '.', '0', '.', '0', '.', '0', '/', '8'], false,
      none, false, none, none⟩,
    ⟨9, 10, ['b', 'y', 'p', 'a', 's', 's'], none, none, false, none, false, none, none⟩]
  distinct := by decide
  ordered := by decide

/-- A row for all addresses but those of two networks. -/
def invertedRows : PolicyRows where
  rows := [⟨5, 10, ['L', '2'], none, some ['1', '0', '.', '0', '.', '0', '.', '0', '/', '8', ',',
      '9', '.', '0', '.', '0', '.', '0', '/', '8'], true, none, false, none, none⟩]
  distinct := by decide
  ordered := by decide

/-- A packet from `10.0.0.1`. -/
def tiePacket : FiveTuple := ⟨0x0A000001, 0x08080808, 40000, 53, 17⟩

theorem tieRows_wellFormed : ∀ row ∈ tieRows.rows, row.WellFormed := by
  intro row mem
  have any : ProtocolPlain none := ⟨.any, rfl, nofun, nofun⟩
  rcases List.mem_cons.mp mem with rfl | mem
  · exact ⟨any, .inr (by decide +kernel), .inl rfl, .inl rfl, .inl rfl⟩
  · rw [List.mem_singleton] at mem
    rw [mem]
    exact ⟨any, .inl rfl, .inl rfl, .inl rfl, .inl rfl⟩

theorem invertedRows_wellFormed : ∀ row ∈ invertedRows.rows, row.WellFormed := by
  intro row mem
  have any : ProtocolPlain none := ⟨.any, rfl, nofun, nofun⟩
  rw [invertedRows, List.mem_singleton] at mem
  rw [mem]
  exact ⟨any, .inr (by decide +kernel), .inl rfl, .inl rfl, .inl rfl⟩

/-- The first row in the order of the query is not the one whose policy is selected: a bypass row has
the wire id 0, and a packet in one of two networks is let through by the flag of the other. -/
theorem not_entryOf_first_row :
    (∃ policies, loadPolicies tieRows.rows = some policies ∧
      (∀ row ∈ tieRows.rows, row.WellFormed) ∧
      ¬ EntryOf ((numberRows [] tieRows.rows).find? (·.row.means tiePacket))
        (configSelectCryptoPolicy (loadedConfig 1 policies) 0 tiePacket)) ∧
    ∃ policies, loadPolicies invertedRows.rows = some policies ∧
      (∀ row ∈ invertedRows.rows, row.WellFormed) ∧
      ¬ EntryOf ((numberRows [] invertedRows.rows).find? (·.row.means tiePacket))
        (configSelectCryptoPolicy (loadedConfig 1 policies) 0 tiePacket) := by
  constructor
  · have loaded : loadPolicies tieRows.rows = some ((loadPolicies tieRows.rows).getD []) := by
      decide +kernel
    refine ⟨_, loaded, tieRows_wellFormed, ?_⟩
    have first : ((numberRows [] tieRows.rows).find? (·.row.means tiePacket)).map (·.row.id) =
        some 5 := by decide +kernel
    have other : (configSelectCryptoPolicy (loadedConfig 1 ((loadPolicies tieRows.rows).getD []))
        0 tiePacket).map CryptoPolicy.dbId = some 9 := by decide +kernel
    obtain ⟨n, found, id⟩ := Option.map_eq_some_iff.mp first
    rw [found]
    rintro ⟨cp, mem, same⟩
    rw [same, Option.map_some, (mem_policies mem).1, id] at other
    exact absurd other (by decide)
  · have loaded :
        loadPolicies invertedRows.rows = some ((loadPolicies invertedRows.rows).getD []) := by
      decide +kernel
    refine ⟨_, loaded, invertedRows_wellFormed, ?_⟩
    have first : (numberRows [] invertedRows.rows).find? (·.row.means tiePacket) = none := by
      decide +kernel
    have other : (configSelectCryptoPolicy
        (loadedConfig 1 ((loadPolicies invertedRows.rows).getD [])) 0 tiePacket).isSome = true := by
      decide +kernel
    rw [first]
    intro none
    rw [EntryOf] at none
    rw [none] at other
    exact absurd other (by decide)

theorem select_by_wire_id_tie : ∃ policies, loadPolicies tieRows.rows = some policies ∧
    EntryOf (((numberRows [] tieRows.rows).filter (·.row.means tiePacket)).argmin NumberedRow.order)
      (configSelectCryptoPolicy (loadedConfig 1 policies) 0 tiePacket) := by
  have loaded : loadPolicies tieRows.rows = some ((loadPolicies tieRows.rows).getD []) := by
    decide +kernel
  refine ⟨_, loaded, select_by_wire_id tieRows loaded tieRows_wellFormed 1 fun row mem => ?_⟩
  refine ⟨?_, ?_, ?_⟩
  · revert row
    decide +kernel
  all_goals
    revert row
    unfold AgreesOn
    decide +kernel

end NeEncryptor
