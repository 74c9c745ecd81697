import NeEncryptor.Crypto.SessionRuns
import NeEncryptor.Pqc.Worker

/-!
# The lifetime of the session keys

`crypto_runtime.c` counts how long a CURRENT key has been in use and asks for a new session when
that is too long.  The request is a flag of the context and a flag of the binding, which different
events clear.
-/

namespace NeEncryptor

open Copies CryptoRuntime Pqc Transition

/-! ## The clock of a context -/

/-- The CURRENT key of a context, `pqc_key_in_use_ms`, `pqc_timed_key` and `pqc_rekey_sent`. -/
structure Life where
  current : TrafficKey
  inUse : ℕ
  timed : TrafficKey
  sent : Bool
  deriving DecidableEq

def lifeOf (ctx : PacketCryptoCtx) : Life :=
  ⟨ctx.keys.current, ctx.pqcKeyInUseMs, ctx.pqcTimedKey, ctx.pqcRekeySent⟩

/-- The CURRENT key after a refresh. -/
def refreshedCurrent (found : Option (KeySlots KeySlot)) (current : TrafficKey) : TrafficKey :=
  (found.map fun slots => loadSlot slots.current).getD current

/-- A refresh, as far as the lifetime is concerned. -/
def refreshedLife (now : ℕ) (found : Option (KeySlots KeySlot)) (l : Life) : Life :=
  let current := refreshedCurrent found l.current
  if current = 0 then ⟨0, 0, 0, false⟩
  else if current = l.timed then { l with current := current }
  else ⟨current, now, current, false⟩

theorem refreshedKeys_current (found : Option (KeySlots KeySlot)) (keys : KeySlots TrafficKey) :
    (refreshedKeys found keys).current = refreshedCurrent found keys.current := by
  unfold refreshedKeys refreshedCurrent
  cases found with
  | some slots => rfl
  | none =>
    by_cases used : keyNonzero keys.current = true
    · simp [used]
    · have unused : keys.current = 0 := not_not.mp fun other => used ((keyNonzero_iff _).mpr other)
      rw [if_neg used, Option.map_none, Option.getD_none, unused]

@[simp] theorem refreshedCurrent_again (found : Option (KeySlots KeySlot)) (current : TrafficKey) :
    refreshedCurrent found (refreshedCurrent found current) = refreshedCurrent found current := by
  cases found <;> rfl

/-- The clock is a part of the contexts that refreshes act on alone. -/
theorem refreshedPart_life : RefreshedPart lifeOf refreshedLife ⟨0, 0, 0, false⟩ where
  ids := fun _ _ _ _ _ => rfl
  refresh := by
    intro ctx now view fed
    rw [refreshCtx, refreshPqcKeys_eq view fed, nePqcOnKeyMaterial]
    have current := refreshedKeys_current (view ctx.policyId) ctx.keys
    rw [if_neg (by simp [fed])]
    unfold refreshedLife
    dsimp only [lifeOf]
    rw [← current]
    generalize refreshedKeys (view ctx.policyId) ctx.keys = keys
    by_cases unused : keys.current = 0
    · rw [if_pos (by simp [keyNonzero, unused]), if_pos unused, unused]
    · have used : keyNonzero keys.current = true := (keyNonzero_iff _).mpr unused
      rw [if_neg (by simp [used]), if_neg unused]
      by_cases same : keys.current = ctx.pqcTimedKey
      · simp only [if_pos same]
        exact (if_pos same).symm
      · simp only [if_neg same]
        exact (if_neg same).symm
  again := by
    intro now found l
    by_cases unused : refreshedCurrent found l.current = 0
    · have still : refreshedCurrent found 0 = 0 := by rw [← unused, refreshedCurrent_again]
      rw [refreshedLife, refreshedLife, if_pos unused, if_pos still]
    · have still : refreshedCurrent found (refreshedCurrent found l.current) ≠ 0 := by
        rwa [refreshedCurrent_again]
      by_cases same : refreshedCurrent found l.current = l.timed
      · simp only [refreshedLife, if_neg unused, if_pos same, refreshedCurrent_again]
      · simp only [refreshedLife, if_neg unused, if_neg same, refreshedCurrent_again, if_true]
  new := rfl

/-- `NE_PQC_KEY_LIFETIME_MS`. -/
def nePqcKeyLifetimeMs : ℕ := 30 * 24 * 60 * 60 * 1000

/-- `ne_pqc_start_lifetime_clock`. -/
def nePqcStartLifetimeClock (now : ℕ) (ctx : PacketCryptoCtx) : PacketCryptoCtx :=
  { ctx with pqcTimedKey := ctx.keys.current, pqcKeyInUseMs := now, pqcRekeySent := false }

/-- The tick asks for a new session for the context. -/
def expires (now : ℕ) (ctx : PacketCryptoCtx) : Bool :=
  ctx.pqcFromHandshake && ctx.pqcKeyInUseMs != 0 &&
    decide (ctx.pqcKeyInUseMs + nePqcKeyLifetimeMs ≤ now) && !ctx.pqcRekeySent

/-- The round of `fwd_crypto_pqc_key_lifetime_tick` for a ready context. -/
def tickCtx (now : ℕ) (ctx : PacketCryptoCtx) : PacketCryptoCtx :=
  if !ctx.pqcFromHandshake then ctx
  else if ctx.pqcKeyInUseMs = 0 then
    if keyNonzero ctx.keys.current then nePqcStartLifetimeClock now ctx else ctx
  else if expires now ctx then { ctx with pqcRekeySent := true }
  else ctx

/-- `request_ids` and `request_started`. -/
def tickRequests (now : ℕ) (entries : List CryptoEntry) : List (ℤ × ℕ) :=
  entries.filterMap fun e => e.ctx.bind fun ctx =>
    if expires now ctx then some (ctx.policyId, ctx.pqcKeyInUseMs) else none

/-- What the tick does where a request is rejected. -/
def rearm (request : ℤ × ℕ) (entries : List CryptoEntry) : List CryptoEntry :=
  match entries.findIdx? fun e => e.ctx.any fun ctx =>
      ctx.policyId == request.1 && ctx.pqcKeyInUseMs == request.2 with
  | some i => entries.modify i (.mapCtx fun ctx => { ctx with pqcRekeySent := false })
  | none => entries

/-- `sig_pqc_request_new_session` returns 0. -/
def Pqc.BindingTable.acceptsRequest (t : BindingTable) (policyId : ℤ) : Bool :=
  (t.lookup policyId).any fun c => c.b.keyReady

/-! ## Runs -/

/-- The bindings and the contexts, with the requests of a tick that is under way.  `since` is when
the CURRENT key of a context was stored in it, or in the one that a rebuild took over. -/
structure LifetimeState (n : ℕ) where
  s : SessionState n
  todo : List (ℤ × ℕ)
  rejected : Option (ℤ × ℕ)
  since : ℕ → ℕ

inductive LifetimeAct
  | session (act : SessionAct)
  /-- `initiate_l3_key_rotation` has come back without a new key. -/
  | rotationFailed (policyId : ℤ)
  /-- `fwd_crypto_pqc_key_lifetime_tick`, up to its first request. -/
  | tick (now : ℕ)
  | request
  | rearm

variable {n : ℕ}

/-- When a step refreshes contexts. -/
def SessionAct.refreshTime : SessionAct → Option ℕ
  | .rebuild now _ | .sync now _ | .diversify now _ => some now
  | _ => none

/-- The index of the context that a rebuild takes over. -/
def oldIndex (old : List CryptoEntry) (dbId : ℤ) : Option ℕ :=
  old.findIdx? fun e => e.policy.dbId == dbId && e.ctx.isSome

/-- The index of the context that the one at `i` was before. -/
def SessionAct.origin (old : List CryptoEntry) (i : ℕ) : SessionAct → Option ℕ
  | .rebuild _ cfg => (cfg.policies[i]?).bind fun cp => oldIndex old cp.dbId
  | _ => some i

/-- The CURRENT key at an index. -/
def currentAt (entries : List CryptoEntry) (i : ℕ) : Option TrafficKey :=
  (ctxAt entries i).map fun ctx => ctx.keys.current

/-- A key that is still the one of the context, or of the one that was taken over, is not stored
anew. -/
def SessionAct.sinceAfter (act : SessionAct) (old new : List CryptoEntry) (since : ℕ → ℕ)
    (i : ℕ) : ℕ :=
  match act.refreshTime, act.origin old i with
  | none, _ => since i
  | some now, none => now
  | some now, some j => if currentAt new i = currentAt old j then since j else now

namespace LifetimeState

def initial : LifetimeState n := ⟨.initial, [], none, fun _ => 0⟩

def entries (l : LifetimeState n) : List CryptoEntry := l.s.rt.active.entries

def withEntries (l : LifetimeState n) (entries : List CryptoEntry) : LifetimeState n :=
  { l with s.rt.active.entries := entries }

def step (P : Primitives) (l : LifetimeState n) : LifetimeAct → Option (LifetimeState n)
  | .session act =>
    let s := l.s.next P act
    some { l with
      s := s
      since := act.sinceAfter l.entries s.rt.active.entries l.since }
  | .rotationFailed policyId =>
    some { l with s.table := l.s.table.onBinding policyId (.map .rotationReturned) }
  | .tick now =>
    if l.todo = [] ∧ l.rejected = none then
      some { l.withEntries (l.entries.map (.mapCtx (tickCtx now))) with
        todo := tickRequests now l.entries }
    else none
  | .request =>
    match l.todo, l.rejected with
    | r :: rest, none =>
      if l.s.table.acceptsRequest r.1 then
        some { l with
          s.table := l.s.table.onBinding r.1 (.map .sigPqcRequestNewSession)
          todo := rest }
      else some { l with todo := rest, rejected := some r }
    | _, _ => none
  | .rearm =>
    match l.rejected with
    | some r => some { l.withEntries (rearm r l.entries) with rejected := none }
    | none => none

end LifetimeState

/-! ## What the bindings owe -/

namespace Pqc

/-- The binding has been asked for a new session, or is without one, or has another CURRENT key. -/
def Binding.Owes (b : Binding) (current : TrafficKey) : Prop :=
  b.rekeyRequested = true ∨ b.keyReady = false ∨ loadSlot b.slots.current ≠ current

/-- The same for the binding of a policy. -/
def BindingTable.Owes (t : BindingTable) (policyId : ℤ) (current : TrafficKey) : Prop :=
  ∃ c, t.lookup policyId = some c ∧ c.b.Owes current

/-- A step that leaves CURRENT alone and takes no request back from a ready binding. -/
structure Binding.Patient (b b' : Binding) : Prop where
  current : b'.slots.current = b.slots.current
  ready : b.keyReady = false → b'.keyReady = false
  requested : b.rekeyRequested = true → b'.rekeyRequested = true ∨ b'.keyReady = false

namespace Binding

variable {b b' b'' : Binding} {current : TrafficKey}

theorem Patient.refl (b : Binding) : Patient b b := ⟨rfl, id, .inl⟩

theorem Patient.trans (first : Patient b b') (second : Patient b' b'') : Patient b b'' where
  current := second.current.trans first.current
  ready := second.ready ∘ first.ready
  requested := fun asked =>
    (first.requested asked).elim second.requested fun unready => .inr (second.ready unready)

theorem Patient.owes (patient : Patient b b') (owes : b.Owes current) : b'.Owes current := by
  rcases owes with asked | unready | other
  · exact (patient.requested asked).imp_right .inl
  · exact .inr (.inl (patient.ready unready))
  · exact .inr (.inr (patient.current ▸ other))

theorem owes_of_unready (unready : b.keyReady = false) : b.Owes current := .inr (.inl unready)

theorem patient_feedPacket (m : Msg) (b : Binding) : Patient b (b.pqcFeedPacket m) := by
  unfold pqcFeedPacket
  split
  · exact ⟨rfl, id, .inl⟩
  · exact .refl b

theorem patient_keepaliveRecovery (now : ℕ) (b : Binding) :
    Patient b (b.keepaliveRecovery now) := by
  unfold keepaliveRecovery
  dsimp only
  split_ifs
  · exact ⟨rfl, id, fun _ => .inl rfl⟩
  · exact ⟨rfl, fun _ => rfl, fun _ => .inr rfl⟩
  · exact ⟨rfl, fun _ => rfl, fun _ => .inr rfl⟩

theorem patient_acceptKeepalive (P : Primitives) (now : ℕ) (st : KeepaliveStatus) (b : Binding) :
    Patient b (b.acceptKeepalive P now st) := by
  have recorded : Patient b (b.recordKeepalive now st) := ⟨rfl, id, .inl⟩
  unfold acceptKeepalive compareFingerprint
  dsimp only
  split_ifs
  all_goals first
    | exact ⟨rfl, id, .inl⟩
    | exact recorded.trans (patient_keepaliveRecovery now _)

theorem patient_feed (P : Primitives) (now : ℕ) (m : Msg) (b : Binding) :
    Patient b (b.sigPqcFeedRxPacket P now m) := by
  unfold sigPqcFeedRxPacket
  cases m with
  | keepalive st =>
    dsimp only
    split_ifs
    · exact .refl b
    · exact .refl b
    · exact patient_acceptKeepalive P now st b
    · exact patient_feedPacket _ b
  | poke requestId =>
    dsimp only
    unfold acceptRequest
    dsimp only
    split_ifs
    · exact .refl b
    · exact .refl b
    · exact ⟨rfl, id, fun _ => .inl rfl⟩
    · exact ⟨rfl, fun _ => rfl, fun _ => .inr rfl⟩
  | hello h =>
    have woken : Patient b (b.wakeForHello now) := by
      unfold wakeForHello
      dsimp only
      split_ifs
      · exact ⟨rfl, fun _ => rfl, fun _ => .inr rfl⟩
      · exact ⟨rfl, fun _ => rfl, fun _ => .inr rfl⟩
      · exact .refl b
    exact woken.trans (patient_feedPacket _ _)
  | resp _ _ | ready _ | commit _ => exact patient_feedPacket _ b

theorem patient_retry (now : ℕ) (requestId : BitVec 64) (b : Binding) :
    Patient b (b.sigPqcTriggerRetry now requestId) := by
  unfold sigPqcTriggerRetry
  dsimp only
  split <;> exact ⟨rfl, fun _ => rfl, fun _ => .inr rfl⟩

theorem patient_requestNewSession (b : Binding) : Patient b b.sigPqcRequestNewSession := by
  unfold sigPqcRequestNewSession
  split
  · exact .refl b
  · exact ⟨rfl, id, fun _ => .inl rfl⟩

theorem patient_workerHousekeeping (now : ℕ) (b : Binding) :
    Patient b (b.workerHousekeeping now) := by
  unfold workerHousekeeping livenessTick autoRetry
  dsimp only
  split_ifs <;> exact ⟨rfl, id, .inl⟩

theorem patient_giveUp (b : Binding) : Patient b b.giveUp := by
  unfold giveUp
  split <;> exact ⟨rfl, id, .inl⟩

theorem patient_rotationReturned (b : Binding) : Patient b b.rotationReturned := by
  unfold rotationReturned
  split <;> exact ⟨rfl, id, .inl⟩

theorem patient_discardPrev (b : Binding) : Patient b b.sigPqcDiscardPrevKey := by
  unfold sigPqcDiscardPrevKey
  split <;> exact ⟨rfl, id, .inl⟩

theorem patient_bindFields (now : ℕ) (requestId : BitVec 64) (fresh : Bool) (policyId profileId : ℤ)
    (identity : BindIdentity) (b : Binding) :
    Patient b (b.bindFields now requestId fresh policyId profileId identity) := by
  unfold bindFields
  dsimp only
  split_ifs <;> exact ⟨rfl, id, .inl⟩

theorem patient_bindPolicy (now : ℕ) (requestId : BitVec 64) (profileId : ℤ)
    (identity : BindIdentity) (stops : Bool) (b : Binding) :
    Patient b (b.sigPqcBindPolicy now requestId profileId identity stops) := by
  unfold sigPqcBindPolicy
  split_ifs
  · exact patient_bindFields now requestId false b.policyId profileId identity b
  · exact ⟨rfl, id, .inl⟩
  · have reset : Patient b b.resetForBind := ⟨rfl, fun _ => rfl, fun _ => .inr rfl⟩
    exact reset.trans (patient_bindFields now requestId true b.policyId profileId identity _)

/-- A handshake leaves another key than the one before. -/
theorem owes_success (now : ℕ) {key : TrafficKey} (fresh : key ≠ current) (b : Binding) :
    (b.handleHandshakeSuccess now key).Owes current := by
  refine .inr (.inr ?_)
  unfold handleHandshakeSuccess
  dsimp only
  split <;> exact fresh

end Binding

/-! ### The table -/

namespace BindingTable

variable {t : BindingTable} {policyId : ℤ} {current : TrafficKey}

theorem lookup_onBinding {id : ℤ} {f : Cell → Cell} (same : ∀ c, (f c).b.policyId = c.b.policyId) :
    (t.onBinding id f).lookup policyId =
      if policyId = id then (t.lookup policyId).map f else t.lookup policyId := by
  induction t with
  | nil => simp [onBinding, lookup]
  | cons c t ih =>
    rw [onBinding]
    by_cases isFirst : c.b.policyId = id
    · rw [if_pos isFirst]
      by_cases named : c.b.policyId = policyId
      · rw [lookup, lookup, List.find?_cons_of_pos (by simpa [same] using named),
          List.find?_cons_of_pos (by simpa using named), if_pos (named.symm.trans isFirst)]
        rfl
      · rw [lookup, lookup, List.find?_cons_of_neg (by simpa [same] using named),
          List.find?_cons_of_neg (by simpa using named),
          if_neg fun other => named (isFirst.trans other.symm)]
    · rw [if_neg isFirst]
      by_cases named : c.b.policyId = policyId
      · rw [lookup, lookup, List.find?_cons_of_pos (by simpa using named),
          List.find?_cons_of_pos (by simpa using named),
          if_neg fun other => isFirst (named.trans other)]
      · rw [lookup, lookup, List.find?_cons_of_neg (by simpa using named),
          List.find?_cons_of_neg (by simpa using named)]
        exact ih

theorem lookup_map {f : Cell → Cell} (same : ∀ c, (f c).b.policyId = c.b.policyId) :
    lookup (t.map f) policyId = (t.lookup policyId).map f := by
  rw [lookup, lookup, List.find?_map]
  have pred : ((fun c : Cell => c.b.policyId == policyId) ∘ f) =
      fun c => c.b.policyId == policyId := by
    funext c
    exact congrArg (· == policyId) (same c)
  rw [pred]

theorem Owes.onBinding (owes : t.Owes policyId current) {id : ℤ} {f : Cell → Cell}
    (same : ∀ c, (f c).b.policyId = c.b.policyId)
    (kept : ∀ c, policyId = id → t.lookup policyId = some c → c.b.Owes current →
      (f c).b.Owes current) : Owes (t.onBinding id f) policyId current := by
  obtain ⟨c, found, owed⟩ := owes
  by_cases named : policyId = id
  · exact ⟨f c, by rw [lookup_onBinding same, if_pos named, found]; rfl, kept c named found owed⟩
  · exact ⟨c, by rw [lookup_onBinding same, if_neg named, found], owed⟩

/-- A patient step on a binding. -/
theorem Owes.onPatient (owes : t.Owes policyId current) {id : ℤ} {f : Binding → Binding}
    (same : ∀ b, (f b).policyId = b.policyId) (patient : ∀ b : Binding, b.Patient (f b)) :
    Owes (t.onBinding id (.map f)) policyId current :=
  owes.onBinding (fun c => same c.b) fun c _ _ owed => (patient c.b).owes owed

theorem Owes.map (owes : t.Owes policyId current) {f : Cell → Cell}
    (same : ∀ c, (f c).b.policyId = c.b.policyId)
    (kept : ∀ c, c.b.Owes current → (f c).b.Owes current) : Owes (t.map f) policyId current := by
  obtain ⟨c, found, owed⟩ := owes
  exact ⟨f c, by rw [lookup_map same, found]; rfl, kept c owed⟩

theorem owes_finalizeReload (stops : ℤ → Bool) (c : Cell) (owed : c.b.Owes current) :
    (c.finalizeReload stops).b.Owes current := by
  unfold Cell.finalizeReload
  split_ifs
  · exact owed
  · exact Binding.Patient.owes ⟨rfl, id, .inl⟩ owed
  · exact Binding.Patient.owes ⟨rfl, id, .inl⟩ owed
  · exact Binding.owes_of_unready rfl

/-- No handshake agrees on the key that is in use. -/
def FreshFor (t : BindingTable) (policyId : ℤ) (current : TrafficKey) : SessionAct → Prop
  | .success _ id key => id = policyId → key ≠ current
  | .promoteStaged _ id => id = policyId → ∀ c, t.lookup id = some c → c.b.slots.next.key ≠ current
  | _ => True

theorem Owes.bind (owes : t.Owes policyId current) (now : ℕ) (requestId : BitVec 64)
    (id profileId : ℤ) (identity : BindIdentity) (stops : Bool) :
    Owes (t.bind now requestId id profileId identity stops) policyId current := by
  unfold BindingTable.bind
  split_ifs
  · refine owes.onBinding (fun c => ?_) fun c _ _ owed =>
      (Binding.patient_bindPolicy now requestId profileId identity stops c.b).owes owed
    unfold Binding.sigPqcBindPolicy
    split_ifs
    · exact (Binding.bindFields_keeps now requestId false _ profileId identity c.b).2.2.2.2
    · rfl
    · exact (Binding.bindFields_keeps now requestId true _ profileId identity _).2.2.2.2
  · obtain ⟨c, found, owed⟩ := owes
    refine ⟨c, ?_, owed⟩
    rw [lookup, List.find?_append]
    exact Option.or_eq_some_iff.mpr (.inl found)
  · exact owes

/-- What a binding owes for a key it goes on owing, as long as no handshake agrees on that key. -/
theorem Owes.onTable (owes : t.Owes policyId current) (P : Primitives) (act : SessionAct)
    (fresh : t.FreshFor policyId current act) : Owes (act.onTable P t) policyId current := by
  cases act with
  | bind now requestId id profileId identity stops =>
    exact owes.bind now requestId id profileId identity stops
  | retry now requestId id =>
    exact owes.onBinding (fun c => (Binding.sameOwner_triggerRetry now requestId c.b).1)
      fun c _ _ owed => (Binding.patient_retry now requestId c.b).owes owed
  | feed now id m =>
    exact owes.onPatient (fun b => (Binding.sameOwner_feed now m b).1)
      fun b => Binding.patient_feed P now m b
  | requestNewSession id =>
    exact owes.onPatient (fun b => (Binding.sameOwner_requestNewSession b).1)
      Binding.patient_requestNewSession
  | loopHead now id =>
    exact owes.onPatient (fun b => (Binding.sameOwner_workerHousekeeping now b).1)
      fun b => Binding.patient_workerHousekeeping now b
  | giveUp id =>
    refine owes.onPatient (fun b => ?_) Binding.patient_giveUp
    unfold Binding.giveUp
    split <;> rfl
  | thread policyId' started => exact owes.onPatient (fun _ => rfl) fun _ => ⟨rfl, id, .inl⟩
  | success now id key =>
    exact owes.onBinding (fun c => (Binding.sameOwner_handshakeSuccess now key c.b).1)
      fun c named _ _ => Binding.owes_success now (fresh named.symm) c.b
  | stage id key =>
    refine owes.onBinding (fun c => ?_) fun c _ _ owed => ?_
    all_goals
      unfold Cell.stage Binding.pqcHsStageNextKey
      split
      rename_i b staged
    · split_ifs at staged
      rw [← Option.some_inj.mp staged]
    · rfl
    · split_ifs at staged
      rw [← Option.some_inj.mp staged]
      exact owed
    · exact owed
  | promoteStaged now id =>
    refine owes.onBinding (fun c => ?_) fun c named found owed => ?_
    all_goals
      unfold Cell.promoteStaged Binding.pqcHsPromoteStagedKey
      split
      rename_i b promoted
    · split_ifs at promoted
      rw [← Option.some_inj.mp promoted]
      exact (Binding.sameOwner_handshakeSuccess now _ c.b).1
    · rfl
    · split_ifs at promoted
      rw [← Option.some_inj.mp promoted]
      exact Binding.owes_success now (fresh named.symm c (named ▸ found)) c.b
    · exact owed
  | discardPrev id =>
    exact owes.onPatient (fun b => (Binding.sameOwner_discardPrevKey b).1)
      Binding.patient_discardPrev
  | prepareReload => exact owes.map (fun _ => rfl) fun _ owed => owed
  | finalizeReload stops =>
    exact owes.map (Cell.finalizeReload_policyId stops) fun c owed =>
      owes_finalizeReload stops c owed
  | rebuild _ _ | sync _ _ | diversify _ _ | discardCtx _ | snapshot _ _ => exact owes

end BindingTable

end Pqc

end NeEncryptor
