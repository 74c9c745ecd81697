import NeEncryptor.Pqc.Feed

/-!
# The table of bindings

`g_policy_bindings` with `g_policy_bindings_active`: binding a policy, the two ends of a reload, and the
lookup of a policy.  Every slot carries the identity its key was negotiated with, and a binding that was
retried by hand remembers that it still held a CURRENT key.
-/

namespace NeEncryptor.Pqc

/-- A used cell of `g_policy_bindings`. -/
structure Cell where
  b : Binding
  /-- `g_policy_bindings_active`. -/
  active : Bool
  /-- The identity each key was negotiated with. -/
  negotiatedAs : KeySlots BindIdentity
  /-- A manual retry found a CURRENT key, and no handshake has succeeded since. -/
  retried : Bool

/-- `g_policy_bindings` up to `g_policy_bindings_count`. -/
abbrev BindingTable := List Cell

/-- `MAX_POLICY_BINDINGS`. -/
def maxPolicyBindings : ℕ := 128

namespace Binding

/-- What a changed identity resets. -/
def resetForBind (b : Binding) : Binding :=
  { b.pqcHsClearCache with
    threadStarted := false
    threadExitSig := false
    keyReady := false
    rekeyRequested := false
    handshakeGiveUp := false
    handshakeStartTime := 0
    rotationGiveUp := false
    rotationStartTime := 0
    sendPoke := true
    keepaliveEnabled := false
    keepaliveMonitorStartTime := 0
    lastKeepaliveRxTime := 0
    nextAutoRetryTime := 0
    prevDiscardAfterMs := 0 }

/-- `sig_pqc_bind_policy` on the binding it finds; `stops` tells whether a running worker stops within
`PQC_HS_WORKER_STOP_TIMEOUT_MS`. -/
def sigPqcBindPolicy (now : ℕ) (requestId : BitVec 64) (profileId : ℤ) (identity : BindIdentity)
    (stops : Bool) (b : Binding) : Binding :=
  if identity = b.identity then b.bindFields now requestId false b.policyId profileId identity
  else if b.threadStarted && !stops then { b with threadExitSig := true }
  else b.resetForBind.bindFields now requestId true b.policyId profileId identity

/-- The wipe of `sig_pqc_finalize_reload`, which leaves the key ids. -/
def wipeSlots (s : KeySlots KeySlot) : KeySlots KeySlot :=
  ⟨⟨0, s.prev.keyId, false⟩, ⟨0, s.current.keyId, false⟩, ⟨0, s.next.keyId, false⟩⟩

/-- There is something to clear in a binding that is no longer active. -/
def inUse (b : Binding) : Bool :=
  b.identity.localPriv.isSome || b.identity.localPub.isSome || b.identity.peerPub.isSome ||
    b.keyReady || b.threadStarted

/-- The deactivation in `sig_pqc_finalize_reload`. -/
def deactivate (b : Binding) : Binding :=
  { b with
    threadExitSig := if b.threadStarted then false else b.threadExitSig
    threadStarted := false
    keyReady := false
    identity := { b.identity with localPriv := none, localPub := none, peerPub := none }
    slots := wipeSlots b.slots }

/-- What `sig_pqc_finalize_reload` resets in every inactive binding. -/
def resetInactive (b : Binding) : Binding :=
  { b.pqcHsClearCache with
    keepaliveEnabled := false
    localRequestId := 0
    peerRequestId := 0
    localKeepaliveSeq := 0
    peerKeepaliveEpoch := 0
    peerKeepaliveSeq := 0
    keepaliveMonitorStartTime := 0
    lastKeepaliveRxTime := 0
    nextAutoRetryTime := 0
    prevDiscardAfterMs := 0 }

end Binding

namespace Cell

/-- The cell of a policy that is bound for the first time. -/
def bound (now : ℕ) (requestId : BitVec 64) (policyId profileId : ℤ) (identity : BindIdentity) :
    Cell :=
  ⟨.bindNew now requestId policyId profileId identity, true, ⟨identity, identity, identity⟩, false⟩

/-- An operation of the binding that negotiates no key. -/
def map (f : Binding → Binding) (c : Cell) : Cell := { c with b := f c.b }

/-- `handle_handshake_success` with the key of a handshake that has just ended. -/
def success (now : ℕ) (key : TrafficKey) (c : Cell) : Cell :=
  { c with
    b := c.b.handleHandshakeSuccess now key
    negotiatedAs := ⟨c.negotiatedAs.current, c.b.identity, c.negotiatedAs.next⟩
    retried := false }

/-- `pqc_hs_stage_next_key`. -/
def stage (key : TrafficKey) (c : Cell) : Cell :=
  match c.b.pqcHsStageNextKey key with
  | some b => { c with b := b, negotiatedAs := { c.negotiatedAs with next := c.b.identity } }
  | none => c

/-- `pqc_hs_promote_staged_key`. -/
def promoteStaged (now : ℕ) (c : Cell) : Cell :=
  match c.b.pqcHsPromoteStagedKey now with
  | some b =>
    { c with
      b := b
      negotiatedAs := ⟨c.negotiatedAs.current, c.negotiatedAs.next, c.negotiatedAs.next⟩
      retried := false }
  | none => c

/-- `sig_pqc_trigger_retry`. -/
def retry (now : ℕ) (requestId : BitVec 64) (c : Cell) : Cell :=
  { c with
    b := c.b.sigPqcTriggerRetry now requestId
    retried := c.retried || c.b.slots.current.valid }

/-- One round of `sig_pqc_finalize_reload`. -/
def finalizeReload (stops : ℤ → Bool) (c : Cell) : Cell :=
  if c.active then c
  else if !c.b.inUse then c.map .resetInactive
  else if c.b.threadStarted && !stops c.b.policyId then
    c.map fun b => { b with threadExitSig := true }
  else { c with b := c.b.deactivate.resetInactive, retried := false }

end Cell

namespace BindingTable

/-- The binding that the loops over `policy_id` stop at. -/
def lookup (t : BindingTable) (policyId : ℤ) : Option Cell := t.find? (·.b.policyId == policyId)

/-- Writes to the binding that `lookup` finds. -/
def onBinding (policyId : ℤ) (f : Cell → Cell) : BindingTable → BindingTable
  | [] => []
  | c :: t => if c.b.policyId = policyId then f c :: t else c :: onBinding policyId f t

/-- `sig_pqc_bind_policy`; a full table binds no further policy. -/
def bind (now : ℕ) (requestId : BitVec 64) (policyId profileId : ℤ) (identity : BindIdentity)
    (stops : Bool) (t : BindingTable) : BindingTable :=
  if (t.lookup policyId).isSome then
    t.onBinding policyId fun c =>
      { c with b := c.b.sigPqcBindPolicy now requestId profileId identity stops, active := true }
  else if t.length < maxPolicyBindings then
    t ++ [.bound now requestId policyId profileId identity]
  else t

/-- `sig_pqc_prepare_reload`. -/
def prepareReload (t : BindingTable) : BindingTable := t.map fun c => { c with active := false }

/-- `sig_pqc_finalize_reload`. -/
def finalizeReload (stops : ℤ → Bool) (t : BindingTable) : BindingTable :=
  t.map (Cell.finalizeReload stops)

/-- `sig_pqc_get_keys`, which does not look at `key_ready`. -/
def sigPqcGetKeys (t : BindingTable) (policyId : ℤ) : Option (KeySlots KeySlot) :=
  (t.lookup policyId).map (·.b.slots)

/-! ## Lookup -/

theorem mem_of_lookup {t : BindingTable} {policyId : ℤ} {c : Cell}
    (found : t.lookup policyId = some c) : c ∈ t ∧ c.b.policyId = policyId :=
  ⟨List.mem_of_find?_eq_some found, by simpa using List.find?_some found⟩

/-- The policies of a table, in order. -/
def ids (t : BindingTable) : List ℤ := t.map (·.b.policyId)

theorem lookup_isSome_iff {t : BindingTable} {policyId : ℤ} :
    (t.lookup policyId).isSome = true ↔ policyId ∈ t.ids := by
  rw [lookup, ids, List.find?_isSome, List.mem_map]
  simp only [beq_iff_eq]

theorem ids_map {t : BindingTable} {f : Cell → Cell}
    (kept : ∀ c, (f c).b.policyId = c.b.policyId) : ids (t.map f) = t.ids := by
  unfold ids
  rw [List.map_map]
  exact List.map_congr_left fun c _ => kept c

theorem mem_onBinding {t : BindingTable} {policyId : ℤ} {f : Cell → Cell} {c : Cell}
    (member : c ∈ t.onBinding policyId f) :
    c ∈ t ∨ ∃ old, t.lookup policyId = some old ∧ c = f old := by
  induction t with
  | nil => cases member
  | cons old t ih =>
    rw [onBinding] at member
    by_cases named : old.b.policyId = policyId
    · rw [if_pos named, List.mem_cons] at member
      rcases member with rfl | rest
      · exact .inr ⟨old, by simp [lookup, named], rfl⟩
      · exact .inl (List.mem_cons_of_mem _ rest)
    · rw [if_neg named, List.mem_cons] at member
      rcases member with rfl | rest
      · exact .inl List.mem_cons_self
      · rcases ih rest with here | ⟨old', found, written⟩
        · exact .inl (List.mem_cons_of_mem _ here)
        · refine .inr ⟨old', ?_, written⟩
          rw [lookup, List.find?_cons_of_neg (by simpa using named)]
          exact found

theorem ids_onBinding {t : BindingTable} {policyId : ℤ} {f : Cell → Cell}
    (kept : ∀ c, (f c).b.policyId = c.b.policyId) :
    ids (t.onBinding policyId f) = t.ids := by
  induction t with
  | nil => rfl
  | cons c t ih =>
    rw [onBinding]
    split
    · simp only [ids, List.map_cons, kept]
    · simp only [ids, List.map_cons] at ih ⊢
      rw [ih]

end BindingTable

end NeEncryptor.Pqc
