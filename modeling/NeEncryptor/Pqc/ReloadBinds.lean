import NeEncryptor.Pqc.ReloadSteps

/-!
# Policies that are bound

A load looks up the tunnel and the identities of each encrypt policy and binds it.  The table has an
entry for each policy id that was ever bound; the entry of a policy that is gone is cleared, but it
stays, so that a process that has seen `MAX_POLICY_BINDINGS` ids binds no further one.
-/

namespace NeEncryptor.Pqc

open Transition

/-- The row of the tunnel of a policy. -/
structure TunnelRow where
  tunnelName : String
  tunnelIp : String
  peerTunnelIp : String

/-- The row of the keys of a policy: `local`, `remote` and `key_id`. -/
structure KeyRow where
  localKey : String
  remote : String
  keyId : String

/-- What a load asks: the two queries, `SIOCGIFADDR`, and the vault. -/
structure PqcEnv where
  tunnel : ℤ → Option TunnelRow
  keys : ℤ → Option KeyRow
  ifaceAddr : String → Option String
  remotePublic : String → Option String
  /-- `sig_pqc_find_identity`. -/
  findIdentity : String → Option (String × String)

/-- The end of the tunnel that is not this appliance's. -/
def PqcEnv.peerIp (env : PqcEnv) (row : TunnelRow) : String :=
  let localIp := (env.ifaceAddr row.tunnelName).getD "0.0.0.0"
  if localIp = row.tunnelIp then row.peerTunnelIp
  else if localIp = row.peerTunnelIp then row.tunnelIp
  else row.peerTunnelIp

/-- The identity that `sig_pqc_load_and_bind_policy` binds a policy with. -/
def PqcEnv.sigPqcLoadAndBindPolicy (env : PqcEnv) (policyId : ℤ) : Option BindIdentity :=
  match env.keys policyId with
  | none => none
  | some key =>
    if key.remote = "" then none
    else
      match env.remotePublic key.remote, env.findIdentity key.localKey, env.tunnel policyId with
      | some peerPub, some (priv, pub), some tunnel =>
        some {
          localPriv := some priv
          localPub := some pub
          peerPub := some peerPub
          peerIp := env.peerIp tunnel
          wanIfname := tunnel.tunnelName
          keyId := key.keyId
          isTunnel := true
          roleMode := .dynamic }
      | _, _, _ => none

/-- The policies with a valid tunnel and identities. -/
def PqcEnv.wanted (env : PqcEnv) (policies : List ℤ) : List (ℤ × BindIdentity) :=
  policies.filterMap fun policyId =>
    (env.sigPqcLoadAndBindPolicy policyId).map fun identity => (policyId, identity)

/-- The bindings and the reload, with the policies to bind and those that are bound. -/
structure Loads where
  st : Reloads
  wanted : List (ℤ × BindIdentity)
  bound : List ℤ

inductive LoadAct
  /-- `sig_pqc_prepare_reload` for the encrypt policies of a configuration. -/
  | prepare (env : PqcEnv) (policies : List ℤ)
  | other (act : ReloadAct)

namespace Loads

/-- A load binds what it looked up, and it finalizes once it has been through all policies. -/
def step (s : Loads) : LoadAct → Option Loads
  | .prepare env policies =>
    if policies.Nodup then
      (s.st.step (.prepare policies)).map fun st => ⟨st, env.wanted policies, []⟩
    else none
  | .other (.prepare _) => none
  | .other (.bind args) =>
    if (args.policyId, args.identity) ∈ s.wanted then
      (s.st.step (.bind args)).map fun st => { s with st := st, bound := args.policyId :: s.bound }
    else none
  | .other .finalize =>
    if s.st.pc.isIdle ∨ ∀ p ∈ s.wanted, p.1 ∈ s.bound then
      (s.st.step .finalize).map fun st => { s with st := st }
    else none
  | .other act => (s.st.step act).map fun st => { s with st := st }

def initial : Loads := ⟨.initial, [], []⟩

/-- The policies that have an entry. -/
def ids (table : List Held) : List ℤ := table.map fun c => c.b.policyId

/-- A new policy finds room, and no worker takes too long. -/
def Binds (s : Loads) : LoadAct → Prop
  | .other (.bind args) => args.policyId ∈ ids s.st.table ∨ s.st.table.length < maxPolicyBindings
  | .other .bindTimeout => False
  | _ => True

instance : ∀ (s : Loads) (act : LoadAct), Decidable (s.Binds act)
  | s, .other (.bind args) => inferInstanceAs
      (Decidable (args.policyId ∈ ids s.st.table ∨ s.st.table.length < maxPolicyBindings))
  | _, .other .bindTimeout => .isFalse id
  | _, .prepare _ _ | _, .other (.prepare _) | _, .other .bindResume | _, .other .finalize
  | _, .other .finalizeNext | _, .other .finalizeResume | _, .other .finalizeTimeout
  | _, .other (.work _ _) | _, .other (.workerExit _) | _, .other (.workerAbort _)
  | _, .other (.supervise _) | _, .other (.handshakeStart _ _) | _, .other (.other _ _) =>
    .isTrue trivial

/-- The policy has an entry of its own, with its identity. -/
def Bound (table : List Held) (p : ℤ × BindIdentity) : Prop :=
  ∃ c ∈ table, c.b.policyId = p.1 ∧ c.active = true ∧ c.b.identity = p.2

/-- The binding of every policy of the last configuration, once its load is over. -/
def Covered (s : Loads) : Prop :=
  s.st.pc = .idle → ∀ p ∈ s.wanted, ∃ (i : ℕ) (c : Held), s.st.table[i]? = some c ∧
    c.b.policyId = p.1 ∧ c.active = true ∧ c.b.identity = p.2 ∧
    (∀ (j : ℕ) (d : Held), s.st.table[j]? = some d → d.b.policyId = p.1 → j = i) ∧
    ∀ p' ∈ s.wanted, c.b.policyId = p'.1 → p' = p

/-! ### Writes to the table -/

section Table

variable {table : List Held} {i : ℕ} {c c' : Held} {p : ℤ × BindIdentity}

theorem ids_set (here : table[i]? = some c) (same : c'.b.policyId = c.b.policyId) :
    ids (table.set i c') = ids table := by
  unfold ids
  rw [List.map_set, same]
  refine List.ext_getElem? fun j => ?_
  rw [List.getElem?_set, List.getElem?_map]
  by_cases atI : i = j
  · subst atI
    rw [here, Option.map_some, if_pos rfl, if_pos]
    rw [List.length_map]
    exact (List.getElem?_eq_some_iff.mp here).1
  · rw [if_neg atI]

theorem ids_map {f : Held → Held} (same : ∀ c, (f c).b.policyId = c.b.policyId) :
    ids (table.map f) = ids table := by
  unfold ids
  rw [List.map_map]
  exact List.map_congr_left fun c _ => same c

/-- A write to the entry of another policy, or one that keeps what the policy needs. -/
theorem Bound.set (bound : Bound table p) (here : table[i]? = some c)
    (kept : c.b.policyId = p.1 → c.active = true → c.b.identity = p.2 →
      c'.b.policyId = p.1 ∧ c'.active = true ∧ c'.b.identity = p.2) :
    Bound (table.set i c') p := by
  obtain ⟨d, member, named, active, identity⟩ := bound
  obtain ⟨j, there⟩ := List.mem_iff_getElem?.mp member
  by_cases atI : i = j
  · subst atI
    rw [here, Option.some.injEq] at there
    subst there
    refine ⟨c', List.mem_iff_getElem?.mpr ⟨i, ?_⟩, kept named active identity⟩
    rw [List.getElem?_set, if_pos rfl, if_pos (List.getElem?_eq_some_iff.mp here).1]
  · refine ⟨d, List.mem_iff_getElem?.mpr ⟨j, ?_⟩, named, active, identity⟩
    rw [List.getElem?_set, if_neg atI, there]

theorem Bound.map {f : Held → Held} (bound : Bound table p)
    (kept : ∀ c, (f c).b.policyId = c.b.policyId ∧ (f c).active = c.active ∧
      (f c).b.identity = c.b.identity) : Bound (table.map f) p := by
  obtain ⟨c, member, named, active, identity⟩ := bound
  obtain ⟨sameName, sameActive, sameIdentity⟩ := kept c
  exact ⟨f c, List.mem_map_of_mem member, sameName.trans named, sameActive.trans active,
    sameIdentity.trans identity⟩

/-- The entry that was just written. -/
theorem bound_set (here : table[i]? = some c)
    (written : c'.b.policyId = p.1 ∧ c'.active = true ∧ c'.b.identity = p.2) :
    Bound (table.set i c') p := by
  refine ⟨c', List.mem_iff_getElem?.mpr ⟨i, ?_⟩, written⟩
  rw [List.getElem?_set, if_pos rfl, if_pos (List.getElem?_eq_some_iff.mp here).1]

end Table

/-! ### One step -/

/-- The load waits for the worker of a policy. -/
def Awaits (pc : LoadPc) (p : ℤ × BindIdentity) : Prop :=
  ∃ policies i args, pc = .bindWait policies i args ∧ (args.policyId, args.identity) = p

/-- All policies of the configuration were gone through. -/
def loadDone : LoadPc → Bool
  | .loading _ | .bindWait .. => false
  | .idle | .finalizing .. | .finalizeWait .. => true

/-- What the steps keep: the entry that a load waits for is that of its policy, and the one that it
clears is not active. -/
structure BindInv (s : Loads) : Prop where
  once : (ids s.st.table).Nodup
  distinct : (s.wanted.map Prod.fst).Nodup
  waits : ∀ policies i args, s.st.pc = .bindWait policies i args →
    (args.policyId, args.identity) ∈ s.wanted ∧
      ∀ c, s.st.table[i]? = some c → c.b.policyId = args.policyId
  cleans : ∀ policies i, s.st.pc = .finalizeWait policies i →
    ∀ c, s.st.table[i]? = some c → c.active = false
  bound : ∀ p ∈ s.wanted, p.1 ∈ s.bound → Bound s.st.table p ∨ Awaits s.st.pc p
  complete : loadDone s.st.pc = true → ∀ p ∈ s.wanted, p.1 ∈ s.bound

variable {s s' : Loads} {i : ℕ} {c c' : Held} {pc : LoadPc} {bound : List ℤ}

/-- A configuration has one identity for a policy. -/
theorem BindInv.one (inv : BindInv s) {p p' : ℤ × BindIdentity} (here : p ∈ s.wanted)
    (there : p' ∈ s.wanted) (same : p.1 = p'.1) : p = p' :=
  List.inj_on_of_nodup_map inv.distinct here there same

/-- A write that leaves the entry to its policy. -/
theorem BindInv.put (inv : BindInv s) (here : s.st.table[i]? = some c)
    (same : c'.b.policyId = c.b.policyId)
    (waits : ∀ policies k args, pc = .bindWait policies k args →
      (args.policyId, args.identity) ∈ s.wanted ∧
        ∀ d, s.st.table[k]? = some d → d.b.policyId = args.policyId)
    (cleans : ∀ policies k, pc = .finalizeWait policies k →
      ∀ d, (s.st.table.set i c')[k]? = some d → d.active = false)
    (covers : ∀ p ∈ s.wanted, p.1 ∈ bound → Bound (s.st.table.set i c') p ∨ Awaits pc p)
    (complete : loadDone pc = true → ∀ p ∈ s.wanted, p.1 ∈ bound) :
    BindInv ⟨{ s.st.put i c' with pc := pc }, s.wanted, bound⟩ where
  once := (ids_set here same).symm ▸ inv.once
  distinct := inv.distinct
  waits := by
    intro policies k args waiting
    obtain ⟨listed, named⟩ := waits policies k args waiting
    refine ⟨listed, fun d there => ?_⟩
    change (s.st.put i c').table[k]? = some d at there
    rw [Reloads.getElem?_put] at there
    split at there
    case isTrue atI =>
      cases there
      exact same.trans (named c (atI.1 ▸ here))
    case isFalse => exact named d there
  cleans := cleans
  bound := covers
  complete := complete

/-- A write that keeps what the policy needs, with the load where it is. -/
theorem BindInv.write (inv : BindInv s) (here : s.st.table[i]? = some c)
    (kept : c'.b.policyId = c.b.policyId ∧ c'.active = c.active ∧ c'.b.identity = c.b.identity) :
    BindInv { s with st := s.st.put i c' } := by
  obtain ⟨same, sameActive, sameIdentity⟩ := kept
  refine (inv.put here same inv.waits (fun policies k waiting d there => ?_)
    (fun p listed isBound => ?_) inv.complete :
      BindInv ⟨{ s.st.put i c' with pc := s.st.pc }, s.wanted, s.bound⟩)
  · change (s.st.put i c').table[k]? = some d at there
    rw [Reloads.getElem?_put] at there
    split at there
    case isTrue atI =>
      cases there
      exact sameActive.trans (inv.cleans policies k waiting c (atI.1 ▸ here))
    case isFalse => exact inv.cleans policies k waiting d there
  · refine (inv.bound p listed isBound).imp_left fun has => has.set here ?_
    intro named active identity
    exact ⟨same.trans named, sameActive.trans active, sameIdentity.trans identity⟩

/-- A change of every entry that keeps what its policy needs. -/
theorem BindInv.map (inv : BindInv s) {f : Held → Held}
    (kept : ∀ c, (f c).b.policyId = c.b.policyId ∧ (f c).active = c.active ∧
      (f c).b.identity = c.b.identity) :
    BindInv { s with st := { s.st with table := s.st.table.map f } } where
  once := by
    change (ids (s.st.table.map f)).Nodup
    rw [ids_map fun c => (kept c).1]
    exact inv.once
  distinct := inv.distinct
  waits := by
    intro policies i args waiting
    obtain ⟨listed, named⟩ := inv.waits policies i args waiting
    refine ⟨listed, fun d there => ?_⟩
    rw [List.getElem?_map] at there
    obtain ⟨c, here, rfl⟩ := Option.map_eq_some_iff.mp there
    exact (kept c).1.trans (named c here)
  cleans := by
    intro policies i waiting d there
    rw [List.getElem?_map] at there
    obtain ⟨c, here, rfl⟩ := Option.map_eq_some_iff.mp there
    exact (kept c).2.1.trans (inv.cleans policies i waiting c here)
  bound := fun p listed isBound => (inv.bound p listed isBound).imp_left fun has => has.map kept
  complete := inv.complete

/-- The load goes on while it waits for nobody. -/
theorem BindInv.move (inv : BindInv s) (loaded : List ℤ)
    (waits : ∀ policies i args, pc ≠ .bindWait policies i args)
    (cleans : ∀ policies i, pc ≠ .finalizeWait policies i)
    (before : ∀ p ∈ s.wanted, p.1 ∈ s.bound → Bound s.st.table p)
    (complete : loadDone pc = true → ∀ p ∈ s.wanted, p.1 ∈ s.bound) :
    BindInv { s with st := { s.st with pc := pc, loaded := loaded } } where
  once := inv.once
  distinct := inv.distinct
  waits := fun policies i args waiting => absurd waiting (waits policies i args)
  cleans := fun policies i waiting => absurd waiting (cleans policies i)
  bound := fun p listed isBound => .inl (before p listed isBound)
  complete := complete

/-- A load that waits for nobody has bound the policies that it has gone through. -/
theorem BindInv.bound_of (inv : BindInv s) (ready : s.st.pc.bindsAfter = none) :
    ∀ p ∈ s.wanted, p.1 ∈ s.bound → Bound s.st.table p := by
  intro p listed isBound
  refine (inv.bound p listed isBound).resolve_right ?_
  rintro ⟨policies, i, args, waiting, -⟩
  rw [waiting] at ready
  cases ready

/-- A write to an entry that is not active. -/
theorem BindInv.clear (inv : BindInv s) (here : s.st.table[i]? = some c)
    (inactive : c.active = false) (ready : s.st.pc.bindsAfter = none) (isOver : loadDone s.st.pc = true)
    (same : c'.b.policyId = c.b.policyId)
    (waits : ∀ policies k args, pc ≠ .bindWait policies k args)
    (cleans : ∀ policies k, pc = .finalizeWait policies k → k = i ∧ c'.active = false) :
    BindInv { s with st := { s.st.put i c' with pc := pc } } := by
  refine inv.put here same (fun policies k args waiting => absurd waiting (waits policies k args))
    (fun policies k waiting d there => ?_) (fun p listed isBound => .inl ?_)
    fun _ => inv.complete isOver
  · obtain ⟨rfl, off⟩ := cleans policies k waiting
    rw [List.getElem?_set, if_pos rfl, if_pos (List.getElem?_eq_some_iff.mp here).1,
      Option.some.injEq] at there
    rw [← there, off]
  · refine (inv.bound_of ready p listed isBound).set here fun _ active _ => ?_
    rw [inactive] at active
    cases active

/-- What a bind can do, with what it found. -/
theorem bind_cases {st st' : Reloads} {args : BindArgs}
    (stepped : st.step (.bind args) = some st') :
    ∃ policies, st.pc = .loading policies ∧
      ((args.policyId ∉ ids st.table ∧ st.table.length < maxPolicyBindings ∧
          st' = { st with table := st.table ++ [.bindNew args] }) ∨
        (args.policyId ∉ ids st.table ∧ maxPolicyBindings ≤ st.table.length ∧ st' = st) ∨
        ∃ i c, st.table[i]? = some c ∧ c.b.policyId = args.policyId ∧
          st' = st.bindFound policies args i c) := by
  unfold Reloads.step at stepped
  dsimp only at stepped
  split at stepped
  case h_2 => cases stepped
  case h_1 policies loading =>
  refine ⟨policies, loading, ?_⟩
  split at stepped
  case isFalse => cases stepped
  case isTrue =>
  split at stepped
  case h_1 absent =>
    have missing : args.policyId ∉ ids st.table := by
      intro listed
      obtain ⟨c, member, named⟩ := List.mem_map.mp listed
      have other := List.findIdx?_eq_none_iff.mp absent c member
      simp [named] at other
    split at stepped
    case isTrue room => exact .inl ⟨missing, room, (Option.some.inj stepped).symm⟩
    case isFalse full =>
      exact .inr (.inl ⟨missing, Nat.le_of_not_lt full, (Option.some.inj stepped).symm⟩)
  case h_2 i found =>
    obtain ⟨c, here, written⟩ := Option.map_eq_some_iff.mp stepped
    refine .inr (.inr ⟨i, c, here, ?_, written.symm⟩)
    obtain ⟨inside, named, -⟩ := List.findIdx?_eq_some_iff_getElem.mp found
    have same : st.table[i] = c := (List.getElem?_eq_some_iff.mp here).2
    rw [same] at named
    exact beq_iff_eq.mp named

theorem bindFields_of (args : BindArgs) (fresh : Bool) (b : Binding) :
    (b.bindFields args.now args.requestId fresh args.policyId args.profileId
        args.identity).policyId = args.policyId ∧
      (b.bindFields args.now args.requestId fresh args.policyId args.profileId
        args.identity).identity = args.identity := by
  obtain ⟨-, -, -, identity, policyId⟩ := Binding.bindFields_keeps args.now args.requestId fresh
    args.policyId args.profileId args.identity b
  exact ⟨policyId, identity⟩

/-- The entry of a policy gets it with its identity. -/
theorem BindInv.rebound (inv : BindInv s) {args : BindArgs}
    (listed : (args.policyId, args.identity) ∈ s.wanted) (here : s.st.table[i]? = some c)
    (named : c.b.policyId = args.policyId)
    (written : c'.b.policyId = args.policyId ∧ c'.active = true ∧ c'.b.identity = args.identity)
    (before : ∀ p ∈ s.wanted, p.1 ∈ bound → p.1 = args.policyId ∨ Bound s.st.table p)
    (policies : List ℤ) :
    BindInv ⟨{ s.st.put i c' with pc := .loading policies }, s.wanted, bound⟩ := by
  refine inv.put here (written.1.trans named.symm) (fun _ _ _ waiting => nomatch waiting)
    (fun _ _ waiting => nomatch waiting) (fun p isWanted isBound => .inl ?_)
    fun isOver => nomatch isOver
  rcases before p isWanted isBound with same | has
  · obtain rfl := inv.one isWanted listed same
    exact bound_set here written
  · refine has.set here fun isIts active identity => ?_
    obtain rfl := inv.one isWanted listed (isIts.symm.trans named)
    exact written

theorem bindInv_bind (inv : BindInv s) {args : BindArgs} {st' : Reloads}
    (binds : s.Binds (.other (.bind args))) (listed : (args.policyId, args.identity) ∈ s.wanted)
    (stepped : s.st.step (.bind args) = some st') :
    BindInv ⟨st', s.wanted, args.policyId :: s.bound⟩ := by
  obtain ⟨policies, loading, new | full | ⟨i, c, here, named, rfl⟩⟩ := bind_cases stepped
  · obtain ⟨missing, -, rfl⟩ := new
    have before := inv.bound_of (by rw [loading]; rfl)
    obtain ⟨isIts, identity⟩ := bindFields_of args true Binding.unbound
    refine ⟨?_, inv.distinct, fun _ _ _ waiting => (nomatch loading.symm.trans waiting),
      fun _ _ waiting => (nomatch loading.symm.trans waiting), fun p isWanted isBound => .inl ?_,
      fun isOver => ?_⟩
    · change (ids (s.st.table ++ [.bindNew args])).Nodup
      have newId : (Held.bindNew args).b.policyId = args.policyId := isIts
      unfold ids at missing ⊢
      rw [List.map_append, List.map_singleton, newId, List.nodup_append]
      refine ⟨inv.once, List.nodup_singleton _, fun id old id' new same => missing ?_⟩
      rw [List.mem_singleton.mp new] at same
      exact same ▸ old
    · rcases List.mem_cons.mp isBound with same | old
      · obtain rfl := inv.one isWanted listed same
        exact ⟨.bindNew args, by simp, isIts, rfl, identity⟩
      · obtain ⟨d, member, rest⟩ := before p isWanted old
        exact ⟨d, List.mem_append_left _ member, rest⟩
    · rw [loading] at isOver
      cases isOver
  · rcases binds with has | room
    · exact absurd has full.1
    · exact absurd full.2.1 (Nat.not_le_of_lt room)
  · have before : ∀ p ∈ s.wanted, p.1 ∈ args.policyId :: s.bound →
        p.1 = args.policyId ∨ Bound s.st.table p := fun p isWanted isBound =>
      (List.mem_cons.mp isBound).imp_right (inv.bound_of (by rw [loading]; rfl) p isWanted)
    unfold Reloads.bindFound
    split
    case isTrue =>
      obtain ⟨isIts, identity⟩ := bindFields_of args false c.b
      have written : BindInv ⟨{ s.st.put i (c.rebind args) with pc := .loading policies },
          s.wanted, args.policyId :: s.bound⟩ :=
        inv.rebound listed here named ⟨isIts, rfl, identity⟩ before policies
      rw [← loading] at written
      exact written
    case isFalse =>
    split
    case isTrue =>
      refine inv.put here rfl (fun _ k args' waiting => ?_) (fun _ _ waiting => nomatch waiting)
        (fun p isWanted isBound => ?_) fun isOver => nomatch isOver
      · cases waiting
        exact ⟨listed, fun d there => by rw [here, Option.some.injEq] at there; exact there ▸ named⟩
      · rcases before p isWanted isBound with same | has
        · exact .inr ⟨policies, i, args, rfl, (inv.one isWanted listed same).symm⟩
        · exact .inl (has.set here fun isIts active identity => ⟨isIts, active, identity⟩)
    case isFalse =>
      obtain ⟨isIts, identity⟩ := bindFields_of args true c.b.resetForBind
      have written : BindInv ⟨{ s.st.put i (c.bindChanged args) with pc := .loading policies },
          s.wanted, args.policyId :: s.bound⟩ :=
        inv.rebound listed here named ⟨isIts, rfl, identity⟩ before policies
      rw [← loading] at written
      exact written

theorem bindInv_finalizeNext (inv : BindInv s) {st' : Reloads}
    (stepped : s.st.step .finalizeNext = some st') : BindInv { s with st := st' } := by
  obtain ⟨policies, i, finalizing, ⟨-, rfl⟩ | ⟨c, here, rfl⟩⟩ := Reloads.finalizeNext_some stepped
  all_goals
    have ready : s.st.pc.bindsAfter = none := by rw [finalizing]; rfl
    have isOver : loadDone s.st.pc = true := by rw [finalizing]; rfl
  · exact inv.move policies (fun _ _ _ waiting => nomatch waiting)
      (fun _ _ waiting => nomatch waiting) (inv.bound_of ready) fun _ => inv.complete isOver
  · unfold Reloads.finalizeFound
    split
    case isTrue =>
      exact inv.move s.st.loaded (fun _ _ _ waiting => nomatch waiting)
        (fun _ _ waiting => nomatch waiting) (inv.bound_of ready) fun _ => inv.complete isOver
    case isFalse isInactive =>
      have inactive := Bool.eq_false_iff.mpr isInactive
      split
      · exact inv.clear here inactive ready isOver rfl (fun _ _ _ waiting => nomatch waiting)
          fun _ _ waiting => nomatch waiting
      split
      · refine inv.clear here inactive ready isOver rfl (fun _ _ _ waiting => nomatch waiting) ?_
        intro _ _ waiting
        cases waiting
        exact ⟨rfl, inactive⟩
      · exact inv.clear here inactive ready isOver rfl (fun _ _ _ waiting => nomatch waiting)
          fun _ _ waiting => nomatch waiting

/-- A step that is not one of the load's binds keeps the entries of its policies. -/
theorem bindInv_other (inv : BindInv s) {act : ReloadAct} {st' : Reloads}
    (binds : s.Binds (.other act)) (finishes : act = .finalize → ∀ p ∈ s.wanted, p.1 ∈ s.bound)
    (notPrepare : ∀ policies, act ≠ .prepare policies) (notBind : ∀ args, act ≠ .bind args)
    (stepped : s.st.step act = some st') : BindInv { s with st := st' } := by
  cases act with
  | prepare policies => exact absurd rfl (notPrepare policies)
  | bind args => exact absurd rfl (notBind args)
  | bindResume =>
    obtain ⟨policies, i, args, c, waiting, here, rfl⟩ := Reloads.bindResume_some stepped
    obtain ⟨listed, named⟩ := inv.waits policies i args waiting
    obtain ⟨isIts, identity⟩ := bindFields_of args true c.b.resetForBind
    refine inv.rebound listed here (named c here) ⟨isIts, rfl, identity⟩
      (fun p isWanted isBound => ?_) policies
    refine (inv.bound p isWanted isBound).symm.imp_left ?_
    rintro ⟨policies', i', args', waiting', rfl⟩
    rw [waiting] at waiting'
    cases waiting'
    rfl
  | bindTimeout => exact binds.elim
  | finalize =>
    obtain ⟨ready, rfl⟩ := Reloads.finalize_some stepped
    exact inv.move s.st.loaded (fun _ _ _ waiting => nomatch waiting)
      (fun _ _ waiting => nomatch waiting) (inv.bound_of ready) fun _ => finishes rfl
  | finalizeNext => exact bindInv_finalizeNext inv stepped
  | finalizeResume =>
    obtain ⟨policies, i, c, waiting, here, rfl⟩ := Reloads.finalizeResume_some stepped
    exact inv.clear here (inv.cleans policies i waiting c here) (by rw [waiting]; rfl)
      (by rw [waiting]; rfl) rfl (fun _ _ _ waiting => nomatch waiting)
      fun _ _ waiting => nomatch waiting
  | finalizeTimeout =>
    obtain ⟨policies, i, waiting, rfl⟩ := Reloads.finalizeTimeout_some stepped
    exact inv.move s.st.loaded (fun _ _ _ waiting => nomatch waiting)
      (fun _ _ waiting => nomatch waiting) (inv.bound_of (by rw [waiting]; rfl))
      fun _ => inv.complete (by rw [waiting]; rfl)
  | work i op =>
    obtain ⟨c, here, -, rfl⟩ := Reloads.onWorker_some stepped
    obtain ⟨policyId, identity, -⟩ := op.keeps c.b
    exact inv.write here ⟨policyId, rfl, identity⟩
  | workerExit i =>
    obtain ⟨c, here, -, rfl⟩ := Reloads.onWorker_some stepped
    exact inv.write here ⟨rfl, rfl, rfl⟩
  | workerAbort i =>
    obtain ⟨c, here, -, rfl⟩ := Reloads.onWorker_some stepped
    exact inv.write here ⟨rfl, rfl, rfl⟩
  | supervise created =>
    cases stepped
    refine inv.map fun c => ?_
    unfold Held.supervise
    split
    · obtain ⟨policyId, identity, -⟩ := Reloads.start_keeps (created c.b.policyId) c.b
      exact ⟨policyId, rfl, identity⟩
    · exact ⟨rfl, rfl, rfl⟩
  | handshakeStart profileId created =>
    cases stepped
    refine inv.map fun c => ?_
    unfold Held.handshakeStart
    split
    · obtain ⟨policyId, identity, -⟩ := Reloads.start_keeps (created c.b.policyId) c.b
      exact ⟨policyId, rfl, identity⟩
    · exact ⟨rfl, rfl, rfl⟩
  | other i op =>
    obtain ⟨c, here, rfl⟩ := Option.map_eq_some_iff.mp stepped
    have tame := Binding.tame_other op c.b
    exact inv.write here ⟨tame.policyId, rfl, tame.identity⟩

theorem wanted_distinct (env : PqcEnv) {policies : List ℤ} (distinct : policies.Nodup) :
    ((env.wanted policies).map Prod.fst).Nodup := by
  refine distinct.sublist ?_
  unfold PqcEnv.wanted
  induction policies with
  | nil => exact .slnil
  | cons policyId policies ih =>
    rw [List.filterMap_cons]
    split
    · exact (ih distinct.of_cons).cons policyId
    · rename_i p isWanted
      obtain ⟨identity, -, rfl⟩ := Option.map_eq_some_iff.mp isWanted
      exact (ih distinct.of_cons).cons_cons policyId

theorem step_other {act : ReloadAct} (notBind : ∀ args, act ≠ .bind args)
    (stepped : s.step (.other act) = some s') :
    (∃ st, s.st.step act = some st ∧ s' = { s with st := st }) ∧
      (∀ policies, act ≠ .prepare policies) ∧
      (act = .finalize → s.st.pc.isIdle = true ∨ ∀ p ∈ s.wanted, p.1 ∈ s.bound) := by
  cases act with
  | prepare policies => cases stepped
  | bind args => exact absurd rfl (notBind args)
  | finalize =>
    simp only [step] at stepped
    split at stepped
    · rename_i finishes
      obtain ⟨st, taken, rfl⟩ := Option.map_eq_some_iff.mp stepped
      exact ⟨⟨st, taken, rfl⟩, fun _ => nofun, fun _ => finishes⟩
    · cases stepped
  | supervise created | handshakeStart profileId created =>
    cases stepped
    exact ⟨⟨_, rfl, rfl⟩, fun _ => nofun, nofun⟩
  | _ =>
    obtain ⟨st, taken, rfl⟩ := Option.map_eq_some_iff.mp stepped
    exact ⟨⟨st, taken, rfl⟩, fun _ => nofun, nofun⟩

theorem bindInv_step (inv : BindInv s) {act : LoadAct} (binds : s.Binds act)
    (stepped : s.step act = some s') : BindInv s' := by
  cases act with
  | prepare env policies =>
    simp only [step] at stepped
    split at stepped
    case isFalse => cases stepped
    case isTrue distinct =>
    obtain ⟨st, prepared, rfl⟩ := Option.map_eq_some_iff.mp stepped
    obtain ⟨-, rfl⟩ := Reloads.prepare_some prepared
    refine ⟨?_, wanted_distinct env distinct, fun _ _ _ waiting => (nomatch waiting),
      fun _ _ waiting => (nomatch waiting), fun _ _ isBound => (nomatch isBound),
      fun isOver => nomatch isOver⟩
    have same : ids (s.st.table.map fun c => { c with active := false }) = ids s.st.table :=
      ids_map fun _ => rfl
    exact same.symm ▸ inv.once
  | other act =>
    by_cases isBind : ∃ args, act = .bind args
    · obtain ⟨args, rfl⟩ := isBind
      simp only [step] at stepped
      split at stepped
      case isFalse => cases stepped
      case isTrue listed =>
      obtain ⟨st, taken, rfl⟩ := Option.map_eq_some_iff.mp stepped
      exact bindInv_bind inv binds listed taken
    · have notBind : ∀ args, act ≠ .bind args := fun args same => isBind ⟨args, same⟩
      obtain ⟨⟨st, taken, rfl⟩, notPrepare, finishes⟩ := step_other notBind stepped
      refine bindInv_other inv binds (fun isFinalize => ?_) notPrepare notBind taken
      refine (finishes isFinalize).elim (fun idle => inv.complete ?_) id
      rw [LoadPc.isIdle_iff.mp idle]
      rfl

theorem bindInv_initial : BindInv initial :=
  ⟨List.nodup_nil, List.nodup_nil, fun _ _ _ waiting => (nomatch waiting),
    fun _ _ waiting => (nomatch waiting), fun _ listed => (nomatch listed),
    fun _ _ listed => nomatch listed⟩

/-- In runs that never bind more policies than there is room for and that never give up on a worker,
every load binds every policy of its configuration. -/
theorem covered_of_reachable (reached : ReachableWith step Binds initial s) : s.Covered := by
  have inv : BindInv s :=
    reached.invariant bindInv_initial fun _ _ _ inv binds stepped => bindInv_step inv binds stepped
  intro idle p listed
  obtain ⟨c, member, named, active, identity⟩ :=
    inv.bound_of (by rw [idle]; rfl) p listed (inv.complete (by rw [idle]; rfl) p listed)
  obtain ⟨i, here⟩ := List.mem_iff_getElem?.mp member
  refine ⟨i, c, here, named, active, identity, fun j d there isIts => ?_,
    fun p' isWanted isIts => ?_⟩
  · have inside : j < (ids s.st.table).length := by
      rw [ids, List.length_map]
      exact (List.getElem?_eq_some_iff.mp there).1
    refine (List.getElem?_inj inside inv.once).mp ?_
    rw [ids, List.getElem?_map, List.getElem?_map, there, here]
    exact congrArg some (isIts.trans named.symm)
  · exact inv.one isWanted listed (isIts.symm.trans named)

/-- A tunnel and keys for every policy. -/
def allValid : PqcEnv where
  tunnel := fun _ => some ⟨"wan0", "10.0.0.1", "10.0.0.2"⟩
  keys := fun _ => some ⟨"local", "remote", "k1"⟩
  ifaceAddr := fun _ => some "10.0.0.1"
  remotePublic := fun _ => some "peer"
  findIdentity := fun _ => some ("priv", "pub")

/-- A load of a configuration, with no worker in its way: `seen` policies have an entry then. -/
def loadOf (policies : List ℤ) (seen : ℕ) : List LoadAct :=
  .prepare allValid policies ::
    (policies.map fun policyId =>
      .other (.bind ⟨0, 1, policyId, 1, sampleIdentity .dynamic⟩)) ++
    .other .finalize :: List.replicate (seen + 1) (.other .finalizeNext)

/-- A configuration that is replaced by one with another policy, and that comes back. -/
theorem covered_replaced :
    ∃ s : Loads, (s.wanted.map Prod.fst = [7] ∧ s.st.table.length = 2) ∧ s.Covered := by
  have ran : (runWith step Binds initial (loadOf [7] 1 ++ loadOf [8] 2 ++ loadOf [7] 2)).any
      (fun s => s.wanted.map Prod.fst = [7] ∧ s.st.table.length = 2) = true := by decide +kernel
  obtain ⟨s, reached, ends⟩ := (Option.any_eq_true _ _).mp ran
  exact ⟨s, of_decide_eq_true ends, covered_of_reachable (.of_runWith _ reached)⟩

/-! ### More policies than there is room for -/

/-- A reachable state in which no worker runs. -/
structure Quiet (s : Loads) : Prop where
  reached : Reachable step initial s
  stopped : ∀ c ∈ s.st.table, c.b.threadStarted = false

/-- The arguments that `allValid` gives for a policy. -/
def validArgs (policyId : ℤ) : BindArgs := ⟨0, 1, policyId, 1, sampleIdentity .dynamic⟩

theorem mem_wanted {policies : List ℤ} {policyId : ℤ} (listed : policyId ∈ policies) :
    (policyId, sampleIdentity .dynamic) ∈ allValid.wanted policies :=
  List.mem_filterMap.mpr ⟨policyId, listed, rfl⟩

/-- With room for them, the policies of a load get entries one after the other. -/
theorem quiet_binds {policies todo : List ℤ} (quiet : s.Quiet)
    (loading : s.st.pc = .loading policies) (wanted : s.wanted = allValid.wanted policies)
    (listed : ∀ policyId ∈ todo, policyId ∈ policies)
    (fresh : (ids s.st.table ++ todo).Nodup)
    (room : s.st.table.length + todo.length ≤ maxPolicyBindings) :
    ∃ s' : Loads, s'.Quiet ∧ s'.st.pc = .loading policies ∧ s'.wanted = s.wanted ∧
      ids s'.st.table = ids s.st.table ++ todo ∧ s'.bound = todo.reverse ++ s.bound := by
  induction todo generalizing s with
  | nil => exact ⟨s, quiet, loading, rfl, (List.append_nil _).symm, rfl⟩
  | cons policyId todo ih =>
    rw [List.append_cons] at fresh
    have isNew : policyId ∉ ids s.st.table := fun old =>
      (List.nodup_append.mp (List.nodup_append.mp fresh).1).2.2 policyId old policyId
        (List.mem_singleton_self policyId) rfl
    have absent : (s.st.table.findIdx? fun c => c.b.policyId == policyId) = none := by
      rw [List.findIdx?_eq_none_iff]
      intro c member
      exact beq_eq_false_iff_ne.mpr fun named => isNew (List.mem_map.mpr ⟨c, member, named⟩)
    have small : s.st.table.length < maxPolicyBindings := by
      rw [List.length_cons] at room
      omega
    have taken : s.step (.other (.bind (validArgs policyId))) =
        some ⟨{ s.st with table := s.st.table ++ [.bindNew (validArgs policyId)] }, s.wanted,
          policyId :: s.bound⟩ := by
      have isWanted :
          ((validArgs policyId).policyId, (validArgs policyId).identity) ∈ s.wanted := by
        rw [wanted]
        exact mem_wanted (listed policyId List.mem_cons_self)
      have accepted : (validArgs policyId).valid = true ∧
          (validArgs policyId).policyId ∈ policies := ⟨rfl, listed policyId List.mem_cons_self⟩
      simp only [step, if_pos isWanted, Reloads.step, loading, if_pos accepted]
      have absent' : (s.st.table.findIdx? fun c => c.b.policyId == (validArgs policyId).policyId) =
          none := absent
      simp only [absent', if_pos small, Option.map_some]
      rfl
    have next : Quiet ⟨{ s.st with table := s.st.table ++ [.bindNew (validArgs policyId)] },
        s.wanted, policyId :: s.bound⟩ := by
      refine ⟨quiet.reached.tail trivial taken, fun c member => ?_⟩
      rcases List.mem_append.mp member with old | new
      · exact quiet.stopped c old
      · rw [List.mem_singleton.mp new]
        rfl
    have newIds : ids (s.st.table ++ [.bindNew (validArgs policyId)]) =
        ids s.st.table ++ [policyId] := by
      unfold ids
      rw [List.map_append]
      rfl
    obtain ⟨s', quiet', loading', wanted', ids', bound'⟩ := ih next loading wanted
      (fun other member => listed other (List.mem_cons_of_mem _ member)) (newIds.symm ▸ fresh)
      (by simp only [List.length_append, List.length_cons, List.length_nil] at room ⊢; omega)
    refine ⟨s', quiet', loading', wanted', ?_, ?_⟩
    · rw [ids', newIds, List.append_assoc, List.singleton_append]
    · rw [bound', List.reverse_cons, List.append_assoc, List.singleton_append]

/-- A round over an entry without a worker. -/
theorem finalizeFound_stopped {st : Reloads} {policies : List ℤ} {i : ℕ} {c : Held}
    (here : st.table[i]? = some c) (stopped : ∀ c ∈ st.table, c.b.threadStarted = false) :
    ∃ table, st.finalizeFound policies i c =
        { st with table := table, pc := .finalizing policies (i + 1) } ∧
      ids table = ids st.table ∧ ∀ c ∈ table, c.b.threadStarted = false := by
  have mine := stopped c (List.mem_of_getElem? here)
  have put {c' : Held} (off : c'.b.threadStarted = false) :
      ∀ d ∈ st.table.set i c', d.b.threadStarted = false := by
    intro d member
    rcases List.mem_or_eq_of_mem_set member with old | rfl
    · exact stopped d old
    · exact off
  unfold Reloads.finalizeFound
  split
  · exact ⟨st.table, rfl, rfl, stopped⟩
  split
  · exact ⟨_, rfl, ids_set here rfl, put mine⟩
  rw [if_neg (Bool.eq_false_iff.mp mine)]
  exact ⟨_, rfl, ids_set here rfl, put rfl⟩

/-- A load ends, with the entries that there are. -/
theorem quiet_finalizes {policies : List ℤ} {i : ℕ} (quiet : s.Quiet)
    (finalizing : s.st.pc = .finalizing policies i) :
    ∃ s' : Loads, s'.Quiet ∧ s'.st.pc = .idle ∧ s'.wanted = s.wanted ∧
      ids s'.st.table = ids s.st.table := by
  induction left : s.st.table.length - i generalizing s i with
  | zero =>
    have past : s.st.table[i]? = none := List.getElem?_eq_none (by omega)
    have taken : s.step (.other .finalizeNext) =
        some { s with st := { s.st with pc := .idle, loaded := policies } } := by
      simp only [step, Reloads.step, finalizing, past, Option.map_some]
    exact ⟨_, ⟨quiet.reached.tail trivial taken, quiet.stopped⟩, rfl, rfl, rfl⟩
  | succ n ih =>
    have inside : i < s.st.table.length := by omega
    have here := List.getElem?_eq_getElem inside
    obtain ⟨table, found, sameIds, stopped⟩ :=
      @finalizeFound_stopped s.st policies i _ here quiet.stopped
    have taken : s.step (.other .finalizeNext) =
        some { s with st := { s.st with table := table, pc := .finalizing policies (i + 1) } } := by
      simp only [step, Reloads.step, finalizing, here, found, Option.map_some]
    have sameLength : table.length = s.st.table.length := by
      rw [← List.length_map (f := fun c : Held => c.b.policyId), ← ids, sameIds, ids,
        List.length_map]
    obtain ⟨s', quiet', idle, wanted, ids'⟩ :=
      ih (s := { s with st := { s.st with table := table, pc := .finalizing policies (i + 1) } })
        ⟨quiet.reached.tail trivial taken, stopped⟩ rfl (by dsimp only; omega)
    exact ⟨s', quiet', idle, wanted, ids'.trans sameIds⟩

/-- The start of a load. -/
theorem quiet_prepare (quiet : s.Quiet) (idle : s.st.pc = .idle) {policies : List ℤ}
    (distinct : policies.Nodup) :
    ∃ s' : Loads, s'.Quiet ∧ s'.st.pc = .loading policies ∧
      s'.wanted = allValid.wanted policies ∧ ids s'.st.table = ids s.st.table ∧ s'.bound = [] := by
  let cleared := s.st.table.map fun c => { c with active := false }
  have taken : s.step (.prepare allValid policies) =
      some ⟨{ s.st with table := cleared, pc := .loading policies },
        allValid.wanted policies, []⟩ := by
    simp only [step, if_pos distinct, Reloads.step, idle, Option.map_some, cleared]
  refine ⟨_, ⟨quiet.reached.tail trivial taken, fun c member => ?_⟩, rfl, rfl,
    ids_map fun _ => rfl, rfl⟩
  obtain ⟨old, isOld, rfl⟩ := List.mem_map.mp member
  exact quiet.stopped old isOld

/-- The end of a load that has been through its policies. -/
theorem quiet_end {policies : List ℤ} (quiet : s.Quiet) (loading : s.st.pc = .loading policies)
    (all : ∀ p ∈ s.wanted, p.1 ∈ s.bound) :
    ∃ s' : Loads, s'.Quiet ∧ s'.st.pc = .idle ∧ s'.wanted = s.wanted ∧
      ids s'.st.table = ids s.st.table := by
  have taken : s.step (.other .finalize) =
      some { s with st := { s.st with pc := .finalizing policies 0 } } := by
    simp only [step, if_pos (Or.inr all), Reloads.step, loading, Option.map_some]
  exact quiet_finalizes (s := { s with st := { s.st with pc := .finalizing policies 0 } })
    ⟨quiet.reached.tail trivial taken, quiet.stopped⟩ rfl

theorem mem_of_wanted {env : PqcEnv} {policies : List ℤ} {p : ℤ × BindIdentity}
    (isWanted : p ∈ env.wanted policies) : p.1 ∈ policies := by
  obtain ⟨policyId, listed, isPair⟩ := List.mem_filterMap.mp isWanted
  obtain ⟨identity, -, rfl⟩ := Option.map_eq_some_iff.mp isPair
  exact listed

/-- After a configuration of `MAX_POLICY_BINDINGS` policies, one with a single new policy leaves it
without an entry. -/
theorem new_policy_unbound {policies : List ℤ} {policyId : ℤ}
    (distinct : (policies ++ [policyId]).Nodup) (full : policies.length = maxPolicyBindings) :
    ∃ s : Loads, Reachable step initial s ∧ s.st.pc = .idle ∧
      s.wanted = allValid.wanted [policyId] ∧ policyId ∉ ids s.st.table := by
  obtain ⟨nodup, -, apart⟩ := List.nodup_append.mp distinct
  have isNew : policyId ∉ policies := fun listed =>
    apart policyId listed policyId (List.mem_singleton_self policyId) rfl
  -- the configuration that fills the table
  obtain ⟨s₁, quiet₁, loading₁, wanted₁, ids₁, bound₁⟩ :=
    quiet_prepare (s := initial) ⟨.refl, fun _ member => nomatch member⟩ rfl nodup
  have noIds : ids s₁.st.table = [] := ids₁
  have empty : s₁.st.table.length = 0 := by
    rw [List.map_eq_nil_iff.mp noIds, List.length_nil]
  obtain ⟨s₂, quiet₂, loading₂, wanted₂, ids₂, bound₂⟩ :=
    quiet_binds quiet₁ loading₁ wanted₁ (fun _ listed => listed)
      (by rw [noIds, List.nil_append]; exact nodup) (by omega)
  rw [noIds, List.nil_append] at ids₂
  obtain ⟨s₃, quiet₃, idle₃, -, ids₃⟩ := quiet_end quiet₂ loading₂ fun p isWanted => by
    rw [bound₂, bound₁, List.append_nil, List.mem_reverse]
    rw [wanted₂, wanted₁] at isWanted
    exact mem_of_wanted isWanted
  -- the configuration with the new policy
  obtain ⟨s₄, quiet₄, loading₄, wanted₄, ids₄, bound₄⟩ :=
    quiet_prepare quiet₃ idle₃ (List.nodup_singleton policyId)
  have sameIds : ids s₄.st.table = policies := ids₄.trans (ids₃.trans ids₂)
  have noRoom : ¬ s₄.st.table.length < maxPolicyBindings := by
    have length : (ids s₄.st.table).length = s₄.st.table.length := List.length_map _
    rw [← length, sameIds, full]
    exact Nat.lt_irrefl _
  have absent : (s₄.st.table.findIdx? fun c => c.b.policyId == (validArgs policyId).policyId) =
      none := by
    rw [List.findIdx?_eq_none_iff]
    intro c member
    refine beq_eq_false_iff_ne.mpr fun named => isNew ?_
    rw [← sameIds]
    exact List.mem_map.mpr ⟨c, member, named⟩
  have taken : s₄.step (.other (.bind (validArgs policyId))) =
      some { s₄ with bound := policyId :: s₄.bound } := by
    have isWanted : ((validArgs policyId).policyId, (validArgs policyId).identity) ∈ s₄.wanted := by
      rw [wanted₄]
      exact mem_wanted (List.mem_singleton_self policyId)
    have accepted : (validArgs policyId).valid = true ∧
        (validArgs policyId).policyId ∈ [policyId] := ⟨rfl, List.mem_singleton_self policyId⟩
    simp only [step, if_pos isWanted, Reloads.step, loading₄, if_pos accepted, absent,
      if_neg noRoom, Option.map_some]
    rfl
  obtain ⟨s₅, quiet₅, idle₅, wanted₅, ids₅⟩ :=
    quiet_end (s := { s₄ with bound := policyId :: s₄.bound })
      ⟨quiet₄.reached.tail trivial taken, quiet₄.stopped⟩ loading₄ fun p isWanted => by
        rw [wanted₄] at isWanted
        rw [List.mem_singleton.mp (mem_of_wanted isWanted)]
        exact List.mem_cons_self
  refine ⟨s₅, quiet₅.reached, idle₅, wanted₅.trans wanted₄, ?_⟩
  rw [ids₅]
  exact sameIds.symm ▸ isNew

theorem not_covered : ¬ ∀ s, Reachable step initial s → s.Covered := by
  intro always
  have distinct : ((List.range 128).map Int.ofNat ++ [128]).Nodup := by decide +kernel
  obtain ⟨s, reached, idle, wanted, missing⟩ :=
    new_policy_unbound distinct (by rw [List.length_map, List.length_range]; rfl)
  have listed : (128, sampleIdentity .dynamic) ∈ s.wanted := by
    rw [wanted]
    exact mem_wanted (List.mem_singleton_self 128)
  obtain ⟨i, c, here, named, -⟩ := always s reached idle _ listed
  exact missing (List.mem_map.mpr ⟨c, List.mem_of_getElem? here, named⟩)

end Loads

end NeEncryptor.Pqc
