import Mathlib.Data.Prod.Lex
import NeEncryptor.Db.PolicyText

/-!
# Loading the policies

`load_profiles_and_policies` as far as the rows of `ne_policies` go: a row is expanded into one policy
for each choice of an item from its four lists, and its policies get one wire id. What is loaded is the
policies of the numbered rows, one row after the other, and a packet matches one of those of a row
exactly where each of its fields meets one of the items.
-/

namespace NeEncryptor

open CText

/-- A row of `ne_policies` as the query gives it, its lists joined with commas. -/
structure PolicyRow where
  id : ℤ
  priority : ℤ
  action : Text
  proto : Option Text
  srcIp : Option Text
  invertSrcIp : Bool
  dstIp : Option Text
  invertDstIp : Bool
  srcPort : Option Text
  dstPort : Option Text
  deriving DecidableEq, Repr

/-- What the query returns: `id` is the primary key, and the rows are ordered by priority and id. -/
structure PolicyRows where
  rows : List PolicyRow
  distinct : (rows.map PolicyRow.id).Nodup
  ordered : rows.Pairwise fun a b => toLex (a.priority, a.id) < toLex (b.priority, b.id)

/-- `parse_action_name`. -/
def parseActionName (v : Text) : Option PolicyAction :=
  if strcasecmpEq v ['b', 'y', 'p', 'a', 's', 's'] then some .bypass
  else if strcasecmpEq v ['L', '2'] ∨
      strcasecmpEq v ['e', 'n', 'c', 'r', 'y', 'p', 't', '_', 'l', '2'] ∨
      strcasecmpEq v ['e', 'n', 'c', 'r', 'y', 'p', 't', ' ', 'l', '2'] then some .encryptL2
  else none

/-- `alloc_wire_policy_id`: the wire id, and the ids in use after it. -/
def allocWirePolicyId (dbRowId : ℤ) (used : List ℤ) : Option (ℤ × List ℤ) :=
  if 1 ≤ dbRowId ∧ dbRowId ≤ 255 ∧ dbRowId ∉ used then some (dbRowId, dbRowId :: used)
  else (((List.range' 1 255).map Int.ofNat).find? (· ∉ used)).map fun j => (j, j :: used)

/-- `config_policy_db_id_taken`. -/
def configPolicyDbIdTaken (policies : List CryptoPolicy) (dbId : ℤ) : Bool :=
  0 < dbId && policies.any (·.dbId == dbId)

/-- The test of an address that the loader stores for an item. -/
def loadCidr (invert : Bool) (item : Text) : CidrTest :=
  (parseCidrAnyOrNegated (neCidrBufWithInvert item invert)).getD ⟨true, false, 0, 0⟩

/-- The port range that the loader stores for an item. -/
def loadPorts (item : Text) : ℤ × ℤ := (parsePortRange item).getD (-1, -1)

/-- A row with its action and its wire id. -/
structure NumberedRow where
  row : PolicyRow
  action : PolicyAction
  wireId : ℤ
  deriving DecidableEq, Repr

/-- One policy of a row. -/
def NumberedRow.policy (n : NumberedRow) (src dst sport dport : Text) : CryptoPolicy :=
  let s := loadCidr n.row.invertSrcIp src
  let d := loadCidr n.row.invertDstIp dst
  { id := n.wireId
    dbId := n.row.id
    priority := n.row.priority
    action := n.action
    protocol := parseProtocolName n.row.proto
    srcPortFrom := (loadPorts sport).1
    srcPortTo := (loadPorts sport).2
    dstPortFrom := (loadPorts dport).1
    dstPortTo := (loadPorts dport).2
    srcAny := s.any
    dstAny := d.any
    srcNegate := s.negate
    dstNegate := d.negate
    srcNet := s.net
    srcMask := s.mask
    dstNet := d.net
    dstMask := d.mask }

/-- The four loops over the items. -/
def NumberedRow.expand (n : NumberedRow) (src dst sport dport : List Text) : List CryptoPolicy :=
  src.flatMap fun si => dst.flatMap fun di => sport.flatMap fun spi => dport.map fun dpi =>
    n.policy si di spi dpi

/-- A row with its action and its wire id, and the wire ids in use after it. -/
def numberRow (used : List ℤ) (row : PolicyRow) : Option (NumberedRow × List ℤ) :=
  (parseActionName row.action).bind fun action =>
    if action = .bypass then some (⟨row, action, 0⟩, used)
    else (allocWirePolicyId row.id used).map fun (wireId, used) => (⟨row, action, wireId⟩, used)

/-- What the loop over the rows keeps: the wire ids in use and the policies. -/
structure LoadState where
  used : List ℤ
  policies : List CryptoPolicy

/-- One round of the loop over the rows. -/
def loadRow (st : LoadState) (row : PolicyRow) : Option LoadState := do
  let (n, used) ← numberRow st.used row
  if configPolicyDbIdTaken st.policies row.id then none
  else
    let src ← neFillNullableList row.srcIp
    let dst ← neFillNullableList row.dstIp
    let sport ← neFillNullableList row.srcPort
    let dport ← neFillNullableList row.dstPort
    -- The test for an overflow stands before each single policy.
    if maxCryptoPolicies < st.policies.length + (n.expand src dst sport dport).length then none
    else some ⟨used, st.policies ++ n.expand src dst sport dport⟩

/-- The policies that `load_profiles_and_policies` loads. -/
def loadPolicies (rows : List PolicyRow) : Option (List CryptoPolicy) :=
  (rows.foldlM loadRow ⟨[], []⟩).map LoadState.policies

/-- The configuration of one profile with these policies; `config_apply_crypto_from_policies` sets
`crypto_enabled`. -/
def loadedConfig (profileId : ℤ) (policies : List CryptoPolicy) : AppConfig :=
  { cryptoEnabled := policies.any (·.action != .bypass)
    profiles := [⟨profileId, List.range policies.length, false⟩]
    policies }

/-! ## What is loaded -/

/-- The rows with their wire ids. -/
def numberRows (used : List ℤ) : List PolicyRow → List NumberedRow
  | [] => []
  | row :: rows =>
    match numberRow used row with
    | none => []
    | some (n, used) => n :: numberRows used rows

/-- The items that the loader gets from a list. -/
def loadedItems (joined : Option Text) : List Text := (neFillNullableList joined).getD []

/-- The policies of a row. -/
def NumberedRow.policies (n : NumberedRow) : List CryptoPolicy :=
  n.expand (loadedItems n.row.srcIp) (loadedItems n.row.dstIp) (loadedItems n.row.srcPort)
    (loadedItems n.row.dstPort)

/-- The loader takes the four lists. -/
structure PolicyRow.Listed (row : PolicyRow) : Prop where
  src : ∃ items, neFillNullableList row.srcIp = some items
  dst : ∃ items, neFillNullableList row.dstIp = some items
  sport : ∃ items, neFillNullableList row.srcPort = some items
  dport : ∃ items, neFillNullableList row.dstPort = some items

/-- Rows that are loaded, with the wire ids in use before them. -/
structure Loads (used : List ℤ) (rows : List PolicyRow) (policies : List CryptoPolicy) : Prop where
  rows_eq : (numberRows used rows).map NumberedRow.row = rows
  listed : ∀ row ∈ rows, row.Listed
  policies_eq : policies = (numberRows used rows).flatMap NumberedRow.policies

variable {st st' : LoadState} {row : PolicyRow} {rows : List PolicyRow}
  {policies : List CryptoPolicy} {n : NumberedRow} {used : List ℤ} {t : FiveTuple}

theorem row_of_numberRow (numbered : numberRow st.used row = some (n, used)) : n.row = row := by
  rw [numberRow, Option.bind_eq_some_iff] at numbered
  obtain ⟨action, -, numbered⟩ := numbered
  split at numbered
  · cases numbered
    rfl
  · obtain ⟨found, -, same⟩ := Option.map_eq_some_iff.mp numbered
    cases same
    rfl

/-- One row. -/
theorem loadRow_some (loaded : loadRow st row = some st') :
    ∃ n, numberRow st.used row = some (n, st'.used) ∧ row.Listed ∧
      st'.policies = st.policies ++ n.policies := by
  simp only [loadRow, Option.bind_eq_bind, Option.bind_eq_some_iff] at loaded
  obtain ⟨⟨n, used⟩, numbered, loaded⟩ := loaded
  split at loaded
  · cases loaded
  · simp only [Option.bind_eq_some_iff] at loaded
    obtain ⟨src, hSrc, dst, hDst, sport, hSport, dport, hDport, loaded⟩ := loaded
    split at loaded
    · cases loaded
    · cases loaded
      refine ⟨n, numbered, ⟨⟨src, hSrc⟩, ⟨dst, hDst⟩, ⟨sport, hSport⟩, ⟨dport, hDport⟩⟩, ?_⟩
      rw [NumberedRow.policies, row_of_numberRow numbered]
      simp only [loadedItems, hSrc, hDst, hSport, hDport, Option.getD_some]

/-- All rows. -/
theorem foldlM_loadRow (loaded : rows.foldlM loadRow st = some st') :
    ∃ policies, Loads st.used rows policies ∧ st'.policies = st.policies ++ policies := by
  induction rows generalizing st with
  | nil =>
    cases loaded
    exact ⟨[], ⟨rfl, nofun, rfl⟩, (List.append_nil _).symm⟩
  | cons row rows ih =>
    rw [List.foldlM_cons, Option.bind_eq_bind, Option.bind_eq_some_iff] at loaded
    obtain ⟨next, first, rest⟩ := loaded
    obtain ⟨n, numbered, listed, grown⟩ := loadRow_some first
    obtain ⟨policies, loads, final⟩ := ih rest
    refine ⟨n.policies ++ policies, ⟨?_, ?_, ?_⟩, ?_⟩
    · rw [numberRows, numbered, List.map_cons, loads.rows_eq, row_of_numberRow numbered]
    · intro other mem
      rcases List.mem_cons.mp mem with rfl | mem
      · exact listed
      · exact loads.listed other mem
    · rw [numberRows, numbered, List.flatMap_cons, ← loads.policies_eq]
    · rw [final, grown, List.append_assoc]

theorem loads_of_loadPolicies (loaded : loadPolicies rows = some policies) :
    Loads [] rows policies := by
  obtain ⟨st, ran, rfl⟩ := Option.map_eq_some_iff.mp loaded
  obtain ⟨policies, loads, final⟩ := foldlM_loadRow ran
  rwa [final]

/-! ## What a row lets through -/

/-- The test of an address in `crypto_policy_match_packet`. -/
def CidrTest.passes (c : CidrTest) (ip : Ipv4) : Bool :=
  cidrMatchWithNegate c.any c.negate ip c.net c.mask

/-- The address passes the test of one of the items. -/
def addressLoaded (joined : Option Text) (invert : Bool) (ip : Ipv4) : Bool :=
  (loadedItems joined).any fun item => (loadCidr invert item).passes ip

/-- The port is in the range of one of the items. -/
def portLoaded (joined : Option Text) (port : BitVec 16) : Bool :=
  (loadedItems joined).any fun item => portMatches (loadPorts item).1 (loadPorts item).2 port

/-- One of the policies of the row matches the packet. -/
def PolicyRow.lets (row : PolicyRow) (t : FiveTuple) : Bool :=
  protocolMatches (parseProtocolName row.proto) t.protocol &&
    addressLoaded row.srcIp row.invertSrcIp t.srcIp &&
    addressLoaded row.dstIp row.invertDstIp t.dstIp &&
    portLoaded row.srcPort t.srcPort && portLoaded row.dstPort t.dstPort

theorem mem_expand {cp : CryptoPolicy} {src dst sport dport : List Text} :
    cp ∈ n.expand src dst sport dport ↔
      ∃ si ∈ src, ∃ di ∈ dst, ∃ spi ∈ sport, ∃ dpi ∈ dport, n.policy si di spi dpi = cp := by
  simp only [NumberedRow.expand, List.mem_flatMap, List.mem_map]

theorem match_policy (src dst sport dport : Text) :
    cryptoPolicyMatchPacket (n.policy src dst sport dport) t = true ↔
      protocolMatches (parseProtocolName n.row.proto) t.protocol = true ∧
        (loadCidr n.row.invertSrcIp src).passes t.srcIp = true ∧
        (loadCidr n.row.invertDstIp dst).passes t.dstIp = true ∧
        portMatches (loadPorts sport).1 (loadPorts sport).2 t.srcPort = true ∧
        portMatches (loadPorts dport).1 (loadPorts dport).2 t.dstPort = true := by
  simp only [cryptoPolicyMatchPacket, Bool.and_eq_true, and_assoc]
  rfl

theorem policies_any_match :
    (n.policies.any fun cp => cryptoPolicyMatchPacket cp t) = n.row.lets t := by
  rw [Bool.eq_iff_iff, List.any_eq_true]
  simp only [PolicyRow.lets, addressLoaded, portLoaded, Bool.and_eq_true, List.any_eq_true]
  constructor
  · rintro ⟨cp, mem, accepted⟩
    obtain ⟨si, hSi, di, hDi, spi, hSpi, dpi, hDpi, rfl⟩ := mem_expand.mp mem
    obtain ⟨proto, src, dst, sport, dport⟩ := (match_policy si di spi dpi).mp accepted
    exact ⟨⟨⟨⟨proto, si, hSi, src⟩, di, hDi, dst⟩, spi, hSpi, sport⟩, dpi, hDpi, dport⟩
  · rintro ⟨⟨⟨⟨proto, si, hSi, src⟩, di, hDi, dst⟩, spi, hSpi, sport⟩, dpi, hDpi, dport⟩
    exact ⟨n.policy si di spi dpi, mem_expand.mpr ⟨si, hSi, di, hDi, spi, hSpi, dpi, hDpi, rfl⟩,
      (match_policy si di spi dpi).mpr ⟨proto, src, dst, sport, dport⟩⟩

/-- What all policies of a row have in common. -/
theorem mem_policies {cp : CryptoPolicy} (mem : cp ∈ n.policies) :
    cp.dbId = n.row.id ∧ cp.priority = n.row.priority ∧ cp.id = n.wireId := by
  obtain ⟨si, -, di, -, spi, -, dpi, -, rfl⟩ := mem_expand.mp mem
  exact ⟨rfl, rfl, rfl⟩

end NeEncryptor
