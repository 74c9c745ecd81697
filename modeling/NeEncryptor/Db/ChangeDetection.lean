import NeEncryptor.Db.Config
import NeEncryptor.Lib.KeyedLists

/-!
# Detection of a changed configuration

`config_db_unchanged` of `main.c` compares the configuration that is running with the one just read.
Interfaces and policies are looked up by name and by `db_id`, and the lists of the profile are
compared by position.
-/

namespace NeEncryptor.Db

open KeyedLists

/-! ## The compared configuration -/

/-- `struct wan_config`, as far as it is loaded. -/
structure WanConfig where
  ifname : String
  dstIp : Ipv4
  dataplane : Bool
  deriving DecidableEq, Repr

/-- `struct bridge_pair`. -/
structure BridgePair where
  localIdx : ℕ
  wanDp : ℕ
  ifname : String
  deriving DecidableEq, Repr

/-- The scalars of `struct profile_config`. -/
structure ProfileFields where
  id : ℤ
  name : String
  enabled : ℤ
  bridgeEnable : ℤ
  localIdentityFingerprint : String
  peerFingerprint : String
  pqcIsInitiator : ℤ
  hasPqcIdentity : ℤ
  pqcPeerPub : String
  deriving DecidableEq, Repr

/-- `struct profile_config`; an entry of `wans` is one of `wan_indices` with its
`wan_bandwidth_weight`. -/
structure ProfileConfig extends ProfileFields where
  bridges : List BridgePair
  localIndices : List ℕ
  wans : List (ℕ × ℤ)
  policyIndices : List ℕ
  deriving DecidableEq, Repr

/-- The scalars of `struct app_config`. -/
structure AppFields where
  cryptoEnabled : ℤ
  fakeEthertypeIpv4 : BitVec 16
  bpfFile : String
  bpfWanFile : String
  deriving DecidableEq, Repr

/-- `struct app_config`; a local is its interface name. The policy indices are places in the list of
policies, as the loader makes them. -/
structure AppConfig extends AppFields where
  locals : List String
  wans : List WanConfig
  profiles : List ProfileConfig
  policies : List CryptoPolicy
  inRange : ∀ p ∈ profiles, ∀ i ∈ p.policyIndices, i < policies.length
  deriving DecidableEq, Repr

/-! ## The comparison -/

/-- `policy_fields_equal`. -/
def policyFieldsEqual (a b : CryptoPolicy) : Bool :=
  a.id == b.id && a.dbId == b.dbId && a.priority == b.priority && a.action == b.action &&
    a.protocol == b.protocol && a.srcPortFrom == b.srcPortFrom && a.srcPortTo == b.srcPortTo &&
    a.dstPortFrom == b.dstPortFrom && a.dstPortTo == b.dstPortTo && a.srcAny == b.srcAny &&
    a.dstAny == b.dstAny && a.srcNegate == b.srcNegate && a.dstNegate == b.dstNegate &&
    a.srcNet == b.srcNet && a.srcMask == b.srcMask && a.dstNet == b.dstNet &&
    a.dstMask == b.dstMask

/-- `policy_by_db_id`. -/
def policyByDbId (cfg : AppConfig) (dbId : ℤ) : Option CryptoPolicy :=
  lookup CryptoPolicy.dbId cfg.policies dbId

/-- `policies_db_unchanged`. -/
def policiesDbUnchanged (old new : AppConfig) : Bool :=
  if old.policies.length ≠ new.policies.length then false
  else
    (old.policies.all fun op => (policyByDbId new op.dbId).any fun np => policyFieldsEqual op np) &&
      new.policies.all fun np => (policyByDbId old np.dbId).any fun op => policyFieldsEqual op np

/-- `local_by_ifname`. -/
def localByIfname (cfg : AppConfig) (ifname : String) : Option String :=
  lookup id cfg.locals ifname

/-- `wan_by_ifname`. -/
def wanByIfname (cfg : AppConfig) (ifname : String) : Option WanConfig :=
  lookup WanConfig.ifname cfg.wans ifname

/-- `wan_db_equal`. -/
def wanDbEqual (a b : WanConfig) : Bool :=
  a.ifname == b.ifname && a.dstIp == b.dstIp && a.dataplane == b.dataplane

/-- The `db_id` of the policies of a profile. -/
def policyDbIds (p : ProfileConfig) (cfg : AppConfig) : List ℤ :=
  p.policyIndices.filterMap fun i => (cfg.policies[i]?).map CryptoPolicy.dbId

/-- `profile_db_unchanged`. -/
def profileDbUnchanged (old new : ProfileConfig) (ocfg ncfg : AppConfig) : Bool :=
  if old.toProfileFields ≠ new.toProfileFields ∨ old.bridges.length ≠ new.bridges.length ∨
      old.policyIndices.length ≠ new.policyIndices.length ∨
      old.localIndices.length ≠ new.localIndices.length ∨ old.wans.length ≠ new.wans.length then
    false
  else
    ((policyDbIds old ocfg).all fun odb => (policyDbIds new ncfg).any fun ndb => odb == ndb) &&
      ((policyDbIds new ncfg).all fun ndb => (policyDbIds old ocfg).any fun odb => odb == ndb) &&
      old.localIndices == new.localIndices && old.wans == new.wans && old.bridges == new.bridges

/-- `lan_wan_db_unchanged`, and the same two loops of `config_db_unchanged`. -/
def lanWanDbUnchanged (old new : AppConfig) : Bool :=
  if old.locals.length ≠ new.locals.length ∨ old.wans.length ≠ new.wans.length then false
  else
    (old.locals.all fun ol => (localByIfname new ol).any fun nl => ol == nl) &&
      old.wans.all fun ow => (wanByIfname new ow.ifname).any fun nw => wanDbEqual ow nw

/-- `config_db_unchanged`. -/
def configDbUnchanged (old new : AppConfig) : Bool :=
  if old.profiles.length ≠ new.profiles.length ∨ old.toAppFields ≠ new.toAppFields then false
  else if !lanWanDbUnchanged old new then false
  else if !policiesDbUnchanged old new then false
  else
    match old.profiles, new.profiles with
    | op :: _, np :: _ => profileDbUnchanged op np old new
    | _, _ => false

/-! ## What the comparison is meant to be -/

/-- The interfaces and policies that the lists of a profile stand for. -/
def ProfileConfig.localNames (p : ProfileConfig) (cfg : AppConfig) : List (Option String) :=
  p.localIndices.map fun i => cfg.locals[i]?

@[inherit_doc ProfileConfig.localNames]
def ProfileConfig.weights (p : ProfileConfig) (cfg : AppConfig) : List (Option WanConfig × ℤ) :=
  p.wans.map fun w => (cfg.wans[w.1]?, w.2)

@[inherit_doc ProfileConfig.localNames]
def ProfileConfig.ownPolicies (p : ProfileConfig) (cfg : AppConfig) : List CryptoPolicy :=
  p.policyIndices.filterMap fun i => cfg.policies[i]?

/-- The bridges of a profile, with the LAN and the dataplane WAN of each. -/
def ProfileConfig.bridgePairs (p : ProfileConfig) (cfg : AppConfig) :
    List (Option String × Option WanConfig × String) :=
  p.bridges.map fun b =>
    (cfg.locals[b.localIdx]?, (cfg.wans.filter WanConfig.dataplane)[b.wanDp]?, b.ifname)

/-- Profiles that are equal up to the order of LANs, WANs and policies. -/
structure SameProfile (old new : ProfileConfig) (ocfg ncfg : AppConfig) : Prop where
  fields : old.toProfileFields = new.toProfileFields
  locals : (old.localNames ocfg).Perm (new.localNames ncfg)
  weights : (old.weights ocfg).Perm (new.weights ncfg)
  policies : (old.ownPolicies ocfg).Perm (new.ownPolicies ncfg)
  bridges : old.bridgePairs ocfg = new.bridgePairs ncfg

/-- Configurations that are equal up to the order of LANs, WANs and policies. -/
structure SameConfig (old new : AppConfig) : Prop where
  fields : old.toAppFields = new.toAppFields
  profileCount : old.profiles.length = new.profiles.length
  locals : old.locals.Perm new.locals
  wans : old.wans.Perm new.wans
  policies : old.policies.Perm new.policies
  profile : ∃ op ∈ old.profiles.head?, ∃ np ∈ new.profiles.head?, SameProfile op np old new

/-- What lets the comparison see that two configurations are the same: no policy row has two
different entries, no WAN interface has two, and the lists of the profile have one order. -/
structure Plain (old new : AppConfig) : Prop where
  policies : Uniform CryptoPolicy.dbId old.policies
  wans : Uniform WanConfig.ifname old.wans
  orders : ∀ op ∈ old.profiles.head?, ∀ np ∈ new.profiles.head?,
    op.localIndices = np.localIndices ∧ op.wans = np.wans ∧ op.bridges = np.bridges

/-- Two configurations with the same entries: the fields and the counts are the same, each LAN and
each WAN of the first is the one of its name in the second, the policies are the same with one entry
for each row, and the lists of the profile are the same. -/
structure SameEntries (old new : AppConfig) : Prop where
  fields : old.toAppFields = new.toAppFields
  profileCount : old.profiles.length = new.profiles.length
  localCount : old.locals.length = new.locals.length
  wanCount : old.wans.length = new.wans.length
  policyCount : old.policies.length = new.policies.length
  locals : ∀ l ∈ old.locals, l ∈ new.locals
  wans : Found WanConfig.ifname old.wans new.wans
  policies : ∀ cp, cp ∈ old.policies ↔ cp ∈ new.policies
  oldRows : Uniform CryptoPolicy.dbId old.policies
  newRows : Uniform CryptoPolicy.dbId new.policies
  profile : ∃ op ∈ old.profiles.head?, ∃ np ∈ new.profiles.head?,
    op.toProfileFields = np.toProfileFields ∧ op.localIndices = np.localIndices ∧
      op.wans = np.wans ∧ op.bridges = np.bridges ∧
      op.policyIndices.length = np.policyIndices.length ∧
      ∀ id, id ∈ policyDbIds op old ↔ id ∈ policyDbIds np new

/-- What the comparison does not look at: how often an entry occurs, and what the indices of the
profile stand for. -/
structure SameRepeats (old new : AppConfig) : Prop where
  locals : old.locals.Perm new.locals
  wans : old.wans.Perm new.wans
  policies : old.policies.Perm new.policies
  numbering : ∀ op ∈ old.profiles.head?, ∀ np ∈ new.profiles.head?,
    (op.localNames old).Perm (np.localNames new) ∧ (op.weights old).Perm (np.weights new) ∧
      (op.ownPolicies old).Perm (np.ownPolicies new) ∧ op.bridgePairs old = np.bridgePairs new

variable {old new : AppConfig} {op np : ProfileConfig}

theorem policyFieldsEqual_iff (a b : CryptoPolicy) : policyFieldsEqual a b = true ↔ a = b := by
  cases a
  cases b
  simp [policyFieldsEqual, and_assoc]

theorem wanDbEqual_iff (a b : WanConfig) : wanDbEqual a b = true ↔ a = b := by
  cases a
  cases b
  simp [wanDbEqual, and_assoc]

/-- A lookup that ends in the entry itself. -/
theorem any_lookup_iff {α κ : Type} [DecidableEq κ] (key : α → κ) (same : α → α → Bool)
    (exact : ∀ a b, same a b = true ↔ a = b) (xs ys : List α) :
    (xs.all fun x => (lookup key ys (key x)).any fun y => same x y) = true ↔ Found key xs ys := by
  rw [List.all_eq_true]
  refine forall₂_congr fun x _ => ?_
  rw [Option.any_eq_true]
  constructor
  · rintro ⟨y, found, equal⟩
    obtain rfl := (exact x y).mp equal
    exact found
  · intro found
    exact ⟨x, found, (exact x x).mpr rfl⟩

theorem policiesDbUnchanged_iff :
    policiesDbUnchanged old new = true ↔ old.policies.length = new.policies.length ∧
      Uniform CryptoPolicy.dbId old.policies ∧ Uniform CryptoPolicy.dbId new.policies ∧
        ∀ cp, cp ∈ old.policies ↔ cp ∈ new.policies := by
  have there := any_lookup_iff CryptoPolicy.dbId policyFieldsEqual policyFieldsEqual_iff
    old.policies new.policies
  have back := any_lookup_iff CryptoPolicy.dbId (fun a b => policyFieldsEqual b a)
    (fun a b => (policyFieldsEqual_iff b a).trans eq_comm) new.policies old.policies
  unfold policiesDbUnchanged policyByDbId
  split
  · rename_i differ
    exact ⟨nofun, fun same => absurd same.1 differ⟩
  · rename_i same
    rw [Bool.and_eq_true, there, back, found_both_iff, and_iff_right (not_not.mp same)]

theorem lanWanDbUnchanged_iff :
    lanWanDbUnchanged old new = true ↔ old.locals.length = new.locals.length ∧
      old.wans.length = new.wans.length ∧ (∀ l ∈ old.locals, l ∈ new.locals) ∧
        Found WanConfig.ifname old.wans new.wans := by
  have locals : (old.locals.all fun ol => (localByIfname new ol).any fun nl => ol == nl) = true ↔
      ∀ l ∈ old.locals, l ∈ new.locals := by
    rw [List.all_eq_true]
    refine forall₂_congr fun l _ => ?_
    rw [Option.any_eq_true]
    constructor
    · rintro ⟨nl, found, same⟩
      exact eq_of_beq same ▸ (lookup_some found).1
    · intro mem
      obtain ⟨nl, found⟩ := lookup_isSome id mem
      exact ⟨nl, found, beq_iff_eq.mpr (lookup_some found).2.symm⟩
  have wans := any_lookup_iff WanConfig.ifname wanDbEqual wanDbEqual_iff old.wans new.wans
  unfold lanWanDbUnchanged wanByIfname
  split
  · rename_i differ
    exact ⟨nofun, fun ⟨localCount, wanCount, _⟩ =>
      absurd differ (by rw [not_or, not_not, not_not]; exact ⟨localCount, wanCount⟩)⟩
  · rename_i same
    rw [not_or, not_not, not_not] at same
    rw [Bool.and_eq_true, locals, wans, and_iff_right same.1, and_iff_right same.2]

theorem profileDbUnchanged_iff :
    profileDbUnchanged op np old new = true ↔
      op.toProfileFields = np.toProfileFields ∧ op.localIndices = np.localIndices ∧
        op.wans = np.wans ∧ op.bridges = np.bridges ∧
        op.policyIndices.length = np.policyIndices.length ∧
        ∀ id, id ∈ policyDbIds op old ↔ id ∈ policyDbIds np new := by
  have ids (xs ys : List ℤ) : ((xs.all fun x => ys.any fun y => x == y) &&
      ys.all fun y => xs.any fun x => x == y) = true ↔ ∀ id, id ∈ xs ↔ id ∈ ys := by
    simp only [Bool.and_eq_true, List.all_eq_true, List.any_eq_true, beq_iff_eq]
    constructor
    · rintro ⟨there, back⟩ id
      constructor
      · intro mem
        obtain ⟨_, found, rfl⟩ := there id mem
        exact found
      · intro mem
        obtain ⟨_, found, rfl⟩ := back id mem
        exact found
    · intro same
      exact ⟨fun x mem => ⟨x, (same x).mp mem, rfl⟩, fun y mem => ⟨y, (same y).mpr mem, rfl⟩⟩
  unfold profileDbUnchanged
  split
  · rename_i differ
    refine ⟨nofun, fun ⟨fields, locals, wans, bridges, policies, _⟩ => absurd differ ?_⟩
    simp [fields, locals, wans, bridges, policies]
  · rename_i same
    simp only [not_or, not_not] at same
    obtain ⟨fields, -, policies, -, -⟩ := same
    rw [Bool.and_eq_true, Bool.and_eq_true, Bool.and_eq_true, ids, beq_iff_eq, beq_iff_eq,
      beq_iff_eq]
    constructor
    · rintro ⟨⟨⟨same, locals⟩, wans⟩, bridges⟩
      exact ⟨fields, locals, wans, bridges, policies, same⟩
    · rintro ⟨-, locals, wans, bridges, -, same⟩
      exact ⟨⟨⟨same, locals⟩, wans⟩, bridges⟩

/-- The comparison answers yes on the configurations with the same entries. -/
theorem configDbUnchanged_iff : configDbUnchanged old new = true ↔ SameEntries old new := by
  unfold configDbUnchanged
  split
  · rename_i differ
    refine ⟨nofun, fun same => absurd differ ?_⟩
    simp [same.fields, same.profileCount]
  rename_i same
  rw [not_or, not_not, not_not] at same
  obtain ⟨profileCount, fields⟩ := same
  split
  · rename_i differ
    refine ⟨nofun, fun same => ?_⟩
    have equal := lanWanDbUnchanged_iff.mpr
      ⟨same.localCount, same.wanCount, same.locals, same.wans⟩
    rw [equal] at differ
    cases differ
  rename_i lanWan
  rw [Bool.not_eq_true', Bool.not_eq_false, lanWanDbUnchanged_iff] at lanWan
  obtain ⟨localCount, wanCount, locals, wans⟩ := lanWan
  split
  · rename_i differ
    refine ⟨nofun, fun same => ?_⟩
    have equal := policiesDbUnchanged_iff.mpr
      ⟨same.policyCount, same.oldRows, same.newRows, same.policies⟩
    rw [equal] at differ
    cases differ
  rename_i policies
  rw [Bool.not_eq_true', Bool.not_eq_false, policiesDbUnchanged_iff] at policies
  obtain ⟨policyCount, oldRows, newRows, policies⟩ := policies
  have rest (same) : SameEntries old new :=
    ⟨fields, profileCount, localCount, wanCount, policyCount, locals, wans, policies, oldRows,
      newRows, same⟩
  cases olds : old.profiles with
  | nil =>
    refine ⟨nofun, fun same => ?_⟩
    obtain ⟨op, here, -⟩ := same.profile
    rw [olds] at here
    cases here
  | cons op ops =>
    cases news : new.profiles with
    | nil =>
      refine ⟨nofun, fun same => ?_⟩
      obtain ⟨op, -, np, here, -⟩ := same.profile
      rw [news] at here
      cases here
    | cons np nps =>
      dsimp only
      rw [profileDbUnchanged_iff]
      constructor
      · intro same
        exact rest ⟨op, by rw [olds]; rfl, np, by rw [news]; rfl, same⟩
      · intro same
        obtain ⟨op', here, np', there, same⟩ := same.profile
        rw [olds] at here
        rw [news] at there
        cases here
        cases there
        exact same

theorem policyDbIds_eq (p : ProfileConfig) (cfg : AppConfig) :
    policyDbIds p cfg = (p.ownPolicies cfg).map CryptoPolicy.dbId :=
  (List.map_filterMap ..).symm

theorem length_ownPolicies {p : ProfileConfig} {cfg : AppConfig} (mem : p ∈ cfg.profiles) :
    (p.ownPolicies cfg).length = p.policyIndices.length := by
  refine List.filterMap_length_eq_length.mpr fun i here => ?_
  rw [List.getElem?_eq_getElem (cfg.inRange p mem i here)]
  rfl

/-- On configurations that are the same, the comparison needs them plain. -/
theorem sameEntries_iff_plain (same : SameConfig old new) :
    SameEntries old new ↔ Plain old new := by
  constructor
  · intro entries
    refine ⟨entries.oldRows, entries.wans.uniform, fun op here np there => ?_⟩
    obtain ⟨op', here', np', there', -, locals, wans, bridges, -⟩ := entries.profile
    obtain rfl := Option.some.inj (here.symm.trans here')
    obtain rfl := Option.some.inj (there.symm.trans there')
    exact ⟨locals, wans, bridges⟩
  · intro plain
    obtain ⟨op, here, np, there, profile⟩ := same.profile
    obtain ⟨locals, wans, bridges⟩ := plain.orders op here np there
    have oldProfile := length_ownPolicies (List.mem_of_mem_head? here)
    have newProfile := length_ownPolicies (List.mem_of_mem_head? there)
    exact {
      fields := same.fields
      profileCount := same.profileCount
      localCount := same.locals.length_eq
      wanCount := same.wans.length_eq
      policyCount := same.policies.length_eq
      locals := fun l => same.locals.mem_iff.mp
      wans := (found_of_perm_iff same.wans).mpr plain.wans
      policies := fun cp => same.policies.mem_iff
      oldRows := plain.policies
      newRows := plain.policies.perm same.policies
      profile := by
        refine ⟨op, here, np, there, profile.fields, locals, wans, bridges, ?_, fun id => ?_⟩
        · rw [← oldProfile, ← newProfile, profile.policies.length_eq]
        · rw [policyDbIds_eq, policyDbIds_eq]
          exact (profile.policies.map CryptoPolicy.dbId).mem_iff }

/-- Configurations with the same entries are the same where the entries repeat alike. -/
theorem SameEntries.same_iff (entries : SameEntries old new) :
    SameConfig old new ↔ SameRepeats old new := by
  constructor
  · intro same
    refine ⟨same.locals, same.wans, same.policies, fun op here np there => ?_⟩
    obtain ⟨op', here', np', there', profile⟩ := same.profile
    obtain rfl := Option.some.inj (here.symm.trans here')
    obtain rfl := Option.some.inj (there.symm.trans there')
    exact ⟨profile.locals, profile.weights, profile.policies, profile.bridges⟩
  · intro repeats
    obtain ⟨op, here, np, there, fields, -⟩ := entries.profile
    obtain ⟨locals, weights, policies, bridges⟩ := repeats.numbering op here np there
    exact ⟨entries.fields, entries.profileCount, repeats.locals, repeats.wans, repeats.policies, op,
      here, np, there, fields, locals, weights, policies, bridges⟩

/-- The comparison is exact on two configurations exactly where they are plain if they are the same,
and repeat their entries alike if these are the same. -/
theorem configDbUnchanged_exact (old new : AppConfig) :
    (configDbUnchanged old new = true ↔ SameConfig old new) ↔
      (SameConfig old new → Plain old new) ∧ (SameEntries old new → SameRepeats old new) := by
  rw [configDbUnchanged_iff]
  constructor
  · intro exact
    exact ⟨fun same => (sameEntries_iff_plain same).mp (exact.mpr same),
      fun entries => entries.same_iff.mp (exact.mp entries)⟩
  · rintro ⟨plain, repeats⟩
    exact ⟨fun entries => entries.same_iff.mpr (repeats entries),
      fun same => (sameEntries_iff_plain same).mpr (plain same)⟩

/-- A configuration is the same as itself. -/
theorem SameConfig.refl {cfg : AppConfig} (profiles : cfg.profiles ≠ []) : SameConfig cfg cfg := by
  obtain ⟨p, ps, split⟩ := List.exists_cons_of_ne_nil profiles
  have head : p ∈ cfg.profiles.head? := by rw [split]; rfl
  exact ⟨rfl, rfl, .refl _, .refl _, .refl _, p, head, p, head, rfl, .refl _, .refl _, .refl _, rfl⟩

/-- The comparison of a configuration with itself. -/
theorem configDbUnchanged_self {cfg : AppConfig} (profiles : cfg.profiles ≠ []) :
    configDbUnchanged cfg cfg = true ↔
      Uniform CryptoPolicy.dbId cfg.policies ∧ Uniform WanConfig.ifname cfg.wans := by
  rw [configDbUnchanged_iff, sameEntries_iff_plain (.refl profiles)]
  constructor
  · intro plain
    exact ⟨plain.policies, plain.wans⟩
  · rintro ⟨policies, wans⟩
    refine ⟨policies, wans, fun p here q there => ?_⟩
    obtain rfl := Option.some.inj (here.symm.trans there)
    exact ⟨rfl, rfl, rfl⟩

/-- A list whose entries all occur in one of the same length, each once, is that list in some
order. -/
theorem SameEntries.perm (entries : SameEntries old new) (locals : old.locals.Nodup)
    (wans : old.wans.Nodup) (policies : old.policies.Nodup) :
    old.locals.Perm new.locals ∧ old.wans.Perm new.wans ∧ old.policies.Perm new.policies :=
  ⟨(List.subperm_of_subset locals entries.locals).perm_of_length_le entries.localCount.ge,
    (List.subperm_of_subset wans fun _ => entries.wans.mem).perm_of_length_le entries.wanCount.ge,
    (List.subperm_of_subset policies fun cp => (entries.policies cp).mp).perm_of_length_le
      entries.policyCount.ge⟩

/-- A bypass entry of a row, from a network. -/
def samplePolicy (dbId : ℤ) (net : Ipv4) : CryptoPolicy where
  id := 0
  dbId
  priority := 10
  action := .bypass
  protocol := policyProtoAny
  srcPortFrom := -1
  srcPortTo := -1
  dstPortFrom := -1
  dstPortTo := -1
  srcAny := false
  dstAny := true
  srcNegate := false
  dstNegate := false
  srcNet := net
  srcMask := 0xFF000000
  dstNet := 0
  dstMask := 0

/-- A configuration with one LAN, one WAN and three entries of policies. -/
def sampleConfig (a b c : CryptoPolicy) : AppConfig where
  cryptoEnabled := 0
  fakeEthertypeIpv4 := 0
  bpfFile := "lib/lan.o"
  bpfWanFile := "lib/wan.o"
  locals := ["eth0"]
  wans := [⟨"eth1", 0, true⟩]
  profiles := [{
    id := 1
    name := "p"
    enabled := 1
    bridgeEnable := 0
    localIdentityFingerprint := ""
    peerFingerprint := ""
    pqcIsInitiator := 0
    hasPqcIdentity := 0
    pqcPeerPub := ""
    bridges := []
    localIndices := [0]
    wans := [(0, 100)]
    policyIndices := [0, 1, 2] }]
  policies := [a, b, c]
  inRange := by
    intro p mem i here
    obtain rfl := List.mem_singleton.mp mem
    exact List.mem_range.mp (show i ∈ List.range 3 from here)

/-- A row with two networks is a change against itself, and a network that one row lists twice and
another once is no change when it is the other way round. -/
theorem configDbUnchanged_inexact :
    (let row := sampleConfig (samplePolicy 1 0x0A000000) (samplePolicy 1 0x0B000000)
        (samplePolicy 2 0x0C000000);
      SameConfig row row ∧ configDbUnchanged row row = false) ∧
    (let a := samplePolicy 1 0x0A000000;
      let b := samplePolicy 2 0x0B000000;
      configDbUnchanged (sampleConfig a a b) (sampleConfig a b b) = true ∧
        ¬ SameConfig (sampleConfig a a b) (sampleConfig a b b)) := by
  refine ⟨⟨.refl (List.cons_ne_nil _ _), by decide +kernel⟩, by decide +kernel, ?_⟩
  intro same
  have counts := same.policies.count_eq (samplePolicy 1 0x0A000000)
  exact absurd counts (by decide +kernel)

end NeEncryptor.Db
