import NeEncryptor.Crypto.KeyLifetime

/-!
# Runs of the lifetime clock

The clock of a context tells when its CURRENT key was stored, and a request that was sent stays with
the binding until a handshake brings another key.
-/

namespace NeEncryptor

open Copies CryptoRuntime Pqc Transition

variable {n : ℕ} {P : Primitives}

/-- The lifetimes of the keys of a table. -/
abbrev lives (entries : List CryptoEntry) : ℕ → Option (ℤ × Life) := partCopies lifeOf entries

/-- What holds of the lifetime of a key of a policy. -/
structure LifeOk (t : BindingTable) (todo : List (ℤ × ℕ)) (since : ℕ) (policyId : ℤ) (life : Life) :
    Prop where
  known : life.current ≠ 0 → (t.lookup policyId).isSome = true
  unused : life.current = 0 → life = ⟨0, 0, 0, false⟩
  timed : life.current ≠ 0 → life.timed = life.current
  clock : life.current ≠ 0 → since ≠ 0 → life.inUse = since
  asked : life.sent = true → (∃ r ∈ todo, r.1 = policyId) ∨ t.Owes policyId life.current

section Life

variable {t : BindingTable} {todo : List (ℤ × ℕ)} {since : ℕ} {policyId : ℤ} {life : Life}

theorem lifeOk_zero (t : BindingTable) (todo : List (ℤ × ℕ)) (since : ℕ) (policyId : ℤ) :
    LifeOk t todo since policyId ⟨0, 0, 0, false⟩ where
  known := fun used => absurd rfl used
  unused := fun _ => rfl
  timed := fun used => absurd rfl used
  clock := fun used => absurd rfl used
  asked := nofun

theorem LifeOk.used_of_sent (ok : LifeOk t todo since policyId life) (sent : life.sent = true) :
    life.current ≠ 0 := by
  intro unused
  rw [ok.unused unused] at sent
  cases sent

theorem refreshedCurrent_known (known : life.current ≠ 0 → (t.lookup policyId).isSome = true)
    (used : refreshedCurrent (t.sigPqcGetKeys policyId) life.current ≠ 0) :
    (t.lookup policyId).isSome = true := by
  unfold BindingTable.sigPqcGetKeys at used
  cases found : t.lookup policyId with
  | some c => rfl
  | none =>
    rw [found] at used known
    exact known used

/-- A refresh keeps the clock of a key that stays, and starts it for another one. -/
theorem LifeOk.refresh (ok : LifeOk t todo since policyId life) (now : ℕ) :
    LifeOk t todo
      (if refreshedCurrent (t.sigPqcGetKeys policyId) life.current = life.current then since
        else now)
      policyId (refreshedLife now (t.sigPqcGetKeys policyId) life) := by
  have known := refreshedCurrent_known ok.known
  unfold refreshedLife
  dsimp only
  generalize refreshedCurrent (t.sigPqcGetKeys policyId) life.current = current at known ⊢
  by_cases unused : current = 0
  · rw [if_pos unused]
    exact lifeOk_zero t todo _ policyId
  rw [if_neg unused]
  by_cases timed : current = life.timed
  · have used : life.current ≠ 0 := by
      intro isZero
      rw [ok.unused isZero] at timed
      exact unused timed
    have same : current = life.current := timed.trans (ok.timed used)
    rw [if_pos timed, if_pos same, same]
    exact ok
  · have other : current ≠ life.current := by
      intro same
      exact timed (same.trans (ok.timed (same ▸ unused)).symm)
    rw [if_neg timed, if_neg other]
    exact ⟨fun _ => known unused, fun isZero => absurd isZero unused, fun _ => rfl,
      fun _ _ => rfl, nofun⟩

theorem refreshedLife_current (now : ℕ) (found : Option (KeySlots KeySlot)) (life : Life) :
    (refreshedLife now found life).current = refreshedCurrent found life.current := by
  unfold refreshedLife
  dsimp only
  split_ifs with unused
  · exact unused.symm
  · rfl
  · rfl

theorem LifeOk.refreshAt (ok : LifeOk t todo since policyId life) (now : ℕ)
    {new old : Option TrafficKey}
    (isNew : new = some (refreshedLife now (t.sigPqcGetKeys policyId) life).current)
    (isOld : old = some life.current) :
    LifeOk t todo (if new = old then since else now) policyId
      (refreshedLife now (t.sigPqcGetKeys policyId) life) := by
  subst isNew isOld
  simp only [Option.some_inj, refreshedLife_current]
  exact ok.refresh now

/-- What happens to the bindings, with no handshake that agrees on the key. -/
theorem LifeOk.onTable {t' : BindingTable} {todo' : List (ℤ × ℕ)}
    (ok : LifeOk t todo since policyId life)
    (known : (t.lookup policyId).isSome = true → (t'.lookup policyId).isSome = true)
    (asked : life.sent = true → (∃ r ∈ todo, r.1 = policyId) ∨ t.Owes policyId life.current →
      (∃ r ∈ todo', r.1 = policyId) ∨ t'.Owes policyId life.current) :
    LifeOk t' todo' since policyId life :=
  ⟨known ∘ ok.known, ok.unused, ok.timed, ok.clock, fun sent => asked sent (ok.asked sent)⟩

/-- The round of a tick. -/
theorem LifeOk.tick {ctx : PacketCryptoCtx} (ok : LifeOk t [] since policyId (lifeOf ctx))
    (now : ℕ) (listed : expires now ctx = true → ∃ r ∈ todo, r.1 = policyId) :
    LifeOk t todo since policyId (lifeOf (tickCtx now ctx)) := by
  have owes : (lifeOf ctx).sent = true → t.Owes policyId (lifeOf ctx).current := fun sent =>
    (ok.asked sent).resolve_left (by simp)
  have same : LifeOk t todo since policyId (lifeOf ctx) :=
    ok.onTable id fun sent _ => .inr (owes sent)
  unfold tickCtx
  split_ifs with fed stopped used expired
  · exact same
  · have current : ctx.keys.current ≠ 0 := (keyNonzero_iff _).mp used
    refine ⟨ok.known, fun isZero => absurd isZero current, fun _ => rfl, fun _ started => ?_, nofun⟩
    have clock := ok.clock current started
    exact absurd (clock.symm.trans stopped) started
  · exact same
  · refine ⟨ok.known, fun isZero => ?_, ok.timed, ok.clock, fun _ => .inl (listed expired)⟩
    have inUse : (lifeOf ctx).inUse = 0 := by rw [ok.unused isZero]
    exact absurd inUse stopped
  · exact same

end Life

/-! ## The invariant -/

theorem lives_eq_some_iff {entries : List CryptoEntry} {i : ℕ} {policyId : ℤ} {life : Life} :
    lives entries i = some (policyId, life) ↔
      ∃ ctx, ctxAt entries i = some ctx ∧ ctx.policyId = policyId ∧ lifeOf ctx = life := by
  simp [lives, partCopies]

theorem currentAt_of_lives {entries : List CryptoEntry} {i : ℕ} {policyId : ℤ} {life : Life}
    (here : lives entries i = some (policyId, life)) :
    currentAt entries i = some life.current := by
  obtain ⟨ctx, isCtx, -, rfl⟩ := lives_eq_some_iff.mp here
  rw [currentAt, isCtx]
  rfl

/-- The context that a rebuild takes over. -/
theorem oldCtx_eq (old : List CryptoEntry) (dbId : ℤ) :
    oldCtx old dbId = (oldIndex old dbId).bind (ctxAt old) := by
  unfold oldCtx oldIndex
  induction old with
  | nil => rfl
  | cons e old ih =>
    rw [List.findSome?_cons, List.findIdx?_cons]
    by_cases named : e.policy.dbId = dbId
    · rw [if_pos named]
      cases here : e.ctx with
      | some ctx => simp [named, ctxAt, here]
      | none =>
        simp only [ih, Option.isSome_none, Bool.and_false, Bool.false_eq_true, if_false]
        rw [Option.bind_map]
        rfl
    · rw [if_neg named, beq_eq_false_iff_ne.mpr named]
      simp only [ih, Bool.false_and, Bool.false_eq_true, if_false]
      rw [Option.bind_map]
      rfl

theorem ctxAt_map (entries : List CryptoEntry) (f : PacketCryptoCtx → PacketCryptoCtx) (i : ℕ) :
    ctxAt (entries.map (.mapCtx f)) i = (ctxAt entries i).map f := by
  rw [ctxAt, ctxAt, List.getElem?_map]
  cases entries[i]? <;> rfl

theorem lives_modify {entries : List CryptoEntry} {f : PacketCryptoCtx → PacketCryptoCtx}
    (same : ∀ ctx, (f ctx).policyId = ctx.policyId ∧ lifeOf (f ctx) = lifeOf ctx) (k : ℕ) :
    lives (entries.modify k (.mapCtx f)) = lives entries := by
  funext i
  unfold lives partCopies
  rw [ctxAt_modify]
  split
  · rw [Option.map_map]
    refine congrArg (fun g => Option.map g (ctxAt entries i)) (funext fun ctx => ?_)
    exact Prod.ext (same ctx).1 (same ctx).2
  · rfl

namespace LifetimeState

structure Inv (l : LifetimeState n) : Prop where
  owned : Owned l.entries
  lifetimes : ∀ i policyId life, lives l.entries i = some (policyId, life) →
    LifeOk l.s.table l.todo (l.since i) policyId life

/-- No handshake agrees on a key that a context of the policy has in use. -/
def Fresh (l : LifetimeState n) : LifetimeAct → Prop
  | .session act => ∀ i ctx, ctxAt l.entries i = some ctx →
    l.s.table.FreshFor ctx.policyId ctx.keys.current act
  | _ => True

theorem inv_initial : Inv (initial : LifetimeState n) where
  owned := by rintro i e ⟨⟩
  lifetimes := by rintro i o v ⟨⟩

variable {l : LifetimeState n}

/-- The lifetimes that a rebuild leaves. -/
theorem lifetimes_rebuild (inv : Inv l) (now : ℕ) (cfg : AppConfig) {i : ℕ} {policyId : ℤ}
    {life : Life}
    (here : lives ((SessionAct.rebuild now cfg).onRuntime l.s.table l.s.rt).active.entries i =
      some (policyId, life)) :
    LifeOk l.s.table l.todo ((SessionAct.rebuild now cfg).sinceAfter l.entries
      ((SessionAct.rebuild now cfg).onRuntime l.s.table l.s.rt).active.entries l.since i)
      policyId life := by
  have current := currentAt_of_lives here
  unfold SessionAct.sinceAfter SessionAct.refreshTime SessionAct.origin
  dsimp only
  rw [current]
  by_cases disabled : (!cfg.cryptoEnabled) = true
  · unfold SessionAct.onRuntime at here
    simp only [fwdCryptoRebuild, if_pos disabled] at here
    cases here
  have enabled : cfg.cryptoEnabled = true := by simpa using disabled
  have entries : lives (l.s.rt.fwdCryptoRebuild now (fun _ => l.s.table.sigPqcGetKeys)
      cfg).active.entries = _ := (rebuild_parts refreshedPart_life l.s.rt enabled).2
  rw [SessionAct.onRuntime, entries, partCopies_rebuilt refreshedPart_life] at here
  obtain ⟨cp, isPolicy, isCopy⟩ := Option.bind_eq_some_iff.mp here
  rw [List.getElem?_take] at isPolicy
  split at isPolicy
  swap
  · cases isPolicy
  rw [isPolicy, Option.bind_some]
  split at isCopy
  swap
  · cases isCopy
  obtain ⟨rfl, rfl⟩ := Prod.mk.inj (Option.some_inj.mp isCopy)
  have oldCtx_eq := oldCtx_eq l.entries cp.dbId
  cases origin : oldIndex l.entries cp.dbId with
  | none =>
    rw [origin, Option.bind_none] at oldCtx_eq
    rw [oldPart, show oldCtx l.s.rt.active.entries cp.dbId = none from oldCtx_eq]
    have ok := (lifeOk_zero l.s.table l.todo now cp.dbId).refresh now
    rwa [ite_self] at ok
  | some j =>
    obtain ⟨inside, named, -⟩ := List.findIdx?_eq_some_iff_getElem.mp origin
    rw [Bool.and_eq_true, beq_iff_eq] at named
    obtain ⟨ctx, isCtx⟩ := Option.isSome_iff_exists.mp named.2
    have isEntry := List.getElem?_eq_getElem inside
    have atOrigin : ctxAt l.entries j = some ctx := by
      rw [ctxAt, isEntry, Option.bind_some, isCtx]
    rw [origin, Option.bind_some, atOrigin] at oldCtx_eq
    rw [oldPart, show oldCtx l.s.rt.active.entries cp.dbId = some ctx from oldCtx_eq]
    have owner : ctx.policyId = cp.dbId :=
      ((inv.owned j _ isEntry).owner ctx isCtx).trans named.1
    have was : lives l.entries j = some (cp.dbId, lifeOf ctx) :=
      lives_eq_some_iff.mpr ⟨ctx, atOrigin, owner, rfl⟩
    exact (inv.lifetimes j _ _ was).refreshAt now rfl (currentAt_of_lives was)

/-- The lifetimes after refreshes of some contexts. -/
theorem lifetimes_refreshed (inv : Inv l) {act : SessionAct} {now : ℕ} {refreshes : ℕ → Bool}
    (time : act.refreshTime = some now) (kept : ∀ i, act.origin l.entries i = some i)
    {new : List CryptoEntry}
    (rewritten : lives new = rewrite (fun i policyId life =>
      if refreshes i then refreshedLife now (l.s.table.sigPqcGetKeys policyId) life else life)
      (lives l.entries))
    {i : ℕ} {policyId : ℤ} {life : Life} (here : lives new i = some (policyId, life)) :
    LifeOk l.s.table l.todo (act.sinceAfter l.entries new l.since i) policyId life := by
  have current := currentAt_of_lives here
  unfold SessionAct.sinceAfter
  rw [time, kept]
  dsimp only
  obtain ⟨old, was, rfl⟩ := rewrite_eq_some_iff.mp (rewritten ▸ here)
  have ok := inv.lifetimes i policyId old was
  by_cases refreshed : refreshes i = true
  · rw [if_pos refreshed] at current ⊢
    exact ok.refreshAt now current (currentAt_of_lives was)
  · rw [if_neg refreshed] at current ⊢
    rwa [if_pos (current.trans (currentAt_of_lives was).symm)]

/-- A step on the contexts. -/
theorem lifetimes_onRuntime (inv : Inv l) (act : SessionAct) {i : ℕ} {policyId : ℤ} {life : Life}
    (here : lives (act.onRuntime l.s.table l.s.rt).active.entries i = some (policyId, life)) :
    LifeOk l.s.table l.todo (act.sinceAfter l.entries
      (act.onRuntime l.s.table l.s.rt).active.entries l.since i) policyId life := by
  cases act with
  | rebuild now cfg => exact lifetimes_rebuild inv now cfg here
  | sync now cfg =>
    obtain ⟨refreshes, -, rewritten⟩ := SessionState.partCopies_sync refreshedPart_life now cfg
      (s := l.s) inv.owned
    exact lifetimes_refreshed inv rfl (fun _ => rfl) rewritten here
  | diversify now profileId =>
    exact lifetimes_refreshed inv rfl (fun _ => rfl)
      (partCopies_diversified refreshedPart_life now (fun _ => l.s.table.sigPqcGetKeys) profileId
        inv.owned) here
  | discardCtx id =>
    refine inv.lifetimes i policyId life ?_
    rw [← here]
    unfold SessionAct.onRuntime
    simp only [fwdCryptoDiscardPqcPrevKey]
    split
    · rfl
    · split
      · exact congrFun (lives_modify (f := wipePrev) (fun _ => ⟨rfl, rfl⟩) _).symm i
      · rfl
  | bind _ _ _ _ _ _ | retry _ _ _ | feed _ _ _ | requestNewSession _ | loopHead _ _ | giveUp _
  | thread _ _ | success _ _ _ | stage _ _ | promoteStaged _ _ | discardPrev _ | prepareReload
  | finalizeReload _ | snapshot _ _ => exact inv.lifetimes i policyId life here

theorem Fresh.of_lives {act : SessionAct} (fresh : Fresh l (.session act)) {i : ℕ}
    {policyId : ℤ} {life : Life}
    (here : lives (act.onRuntime l.s.table l.s.rt).active.entries i = some (policyId, life)) :
    l.s.table.FreshFor policyId life.current act := by
  cases act with
  | rebuild _ _ | sync _ _ | diversify _ _ | discardCtx _ => trivial
  | bind _ _ _ _ _ _ | retry _ _ _ | feed _ _ _ | requestNewSession _ | loopHead _ _ | giveUp _
  | thread _ _ | success _ _ _ | stage _ _ | promoteStaged _ _ | discardPrev _ | prepareReload
  | finalizeReload _ | snapshot _ _ =>
    obtain ⟨ctx, isCtx, rfl, rfl⟩ := lives_eq_some_iff.mp here
    exact fresh i ctx isCtx

theorem inv_session {act : SessionAct} (inv : Inv l) (fresh : Fresh l (.session act)) {s' : _}
    (enabled : step P l (.session act) = some s') : Inv s' := by
  obtain rfl := Option.some_inj.mp enabled
  refine ⟨SessionState.owned_onRuntime act inv.owned, fun i policyId life here => ?_⟩
  refine (lifetimes_onRuntime inv act here).onTable (lookup_onTable act) fun _ asked => ?_
  exact asked.imp_right fun owes => owes.onTable P act (fresh.of_lives here)

/-- A step on a binding alone that is patient with it. -/
theorem Inv.onPatient (inv : Inv l) {id : ℤ} {f : Binding → Binding} {todo : List (ℤ × ℕ)}
    {rejected : Option (ℤ × ℕ)} (same : ∀ b, (f b).policyId = b.policyId)
    (patient : ∀ b : Binding, b.Patient (f b))
    (served : ∀ r ∈ l.todo, r ∉ todo →
      (l.s.table.lookup r.1).isSome = true → ∀ current : TrafficKey,
        BindingTable.Owes (l.s.table.onBinding id (.map f)) r.1 current) :
    Inv { l with
      s.table := l.s.table.onBinding id (.map f)
      todo := todo
      rejected := rejected } := by
  refine ⟨inv.owned, fun i policyId life here => ?_⟩
  have ok := inv.lifetimes i policyId life here
  refine ok.onTable (fun known => ?_) fun sent asked => ?_
  · rw [BindingTable.lookup_onBinding (f := Cell.map f) fun c => same c.b]
    split
    · rwa [Option.isSome_map]
    · exact known
  · rcases asked with ⟨r, listed, rfl⟩ | owes
    · by_cases still : r ∈ todo
      · exact .inl ⟨r, still, rfl⟩
      · exact .inr (served r listed still (ok.known (ok.used_of_sent sent)) life.current)
    · exact .inr (owes.onPatient same patient)

theorem inv_request (inv : Inv l) {s' : _} (enabled : step P l .request = some s') : Inv s' := by
  unfold step at enabled
  dsimp only at enabled
  split at enabled
  swap
  · cases enabled
  rename_i r rest todo _
  by_cases accepted : l.s.table.acceptsRequest r.1 = true
  · rw [if_pos accepted, Option.some_inj] at enabled
    obtain rfl := enabled
    refine inv.onPatient (fun b => (Binding.sameOwner_requestNewSession b).1)
      Binding.patient_requestNewSession fun r' listed unlisted known current => ?_
    have named : r' = r := by
      rw [todo, List.mem_cons] at listed
      exact listed.resolve_right unlisted
    subst named
    obtain ⟨c, found⟩ := Option.isSome_iff_exists.mp known
    have ready : c.b.keyReady = true := by
      unfold BindingTable.acceptsRequest at accepted
      rwa [found, Option.any_some] at accepted
    refine ⟨c.map .sigPqcRequestNewSession, ?_, .inl ?_⟩
    · rw [BindingTable.lookup_onBinding
        fun c => (Binding.sameOwner_requestNewSession c.b).1, if_pos rfl, found]
      rfl
    · unfold Cell.map Binding.sigPqcRequestNewSession
      split
      · rename_i asked
        simpa [ready] using asked
      · rfl
  · rw [if_neg accepted, Option.some_inj] at enabled
    obtain rfl := enabled
    refine ⟨inv.owned, fun i policyId life here => ?_⟩
    have ok := inv.lifetimes i policyId life here
    refine ok.onTable id fun sent asked => ?_
    rcases asked with ⟨r', listed, rfl⟩ | owes
    · rw [todo, List.mem_cons] at listed
      rcases listed with rfl | listed
      · -- a rejected request is one for a binding without a session
        obtain ⟨c, found⟩ := Option.isSome_iff_exists.mp (ok.known (ok.used_of_sent sent))
        refine .inr ⟨c, found, Binding.owes_of_unready ?_⟩
        unfold BindingTable.acceptsRequest at accepted
        rw [found, Option.any_some] at accepted
        exact eq_false_of_ne_true accepted
      · exact .inl ⟨r', listed, rfl⟩
    · exact .inr owes

theorem inv_rearm (inv : Inv l) {s' : _} (enabled : step P l .rearm = some s') : Inv s' := by
  unfold step at enabled
  dsimp only at enabled
  split at enabled
  swap
  · cases enabled
  rename_i r _
  obtain rfl := Option.some_inj.mp enabled
  unfold rearm
  split
  swap
  · exact ⟨inv.owned, inv.lifetimes⟩
  rename_i k _
  refine ⟨inv.owned.modify fun e isEntry ctx isCtx =>
    ⟨(inv.owned k e isEntry).owner ctx isCtx, (inv.owned k e isEntry).fed ctx isCtx⟩, ?_⟩
  intro i policyId life here
  obtain ⟨ctx, isCtx, rfl, rfl⟩ := lives_eq_some_iff.mp here
  have isCtx : ctxAt (l.entries.modify k (.mapCtx fun ctx => { ctx with pqcRekeySent := false }))
      i = some ctx := isCtx
  rw [ctxAt_modify] at isCtx
  split at isCtx
  · obtain ⟨was, isWas, rfl⟩ := Option.map_eq_some_iff.mp isCtx
    have ok := inv.lifetimes i _ _ (lives_eq_some_iff.mpr ⟨was, isWas, rfl, rfl⟩)
    refine ⟨ok.known, fun unused => ?_, ok.timed, ok.clock, nofun⟩
    have zero := ok.unused unused
    unfold lifeOf at zero ⊢
    rw [Life.mk.injEq] at zero ⊢
    exact ⟨zero.1, zero.2.1, zero.2.2.1, rfl⟩
  · exact inv.lifetimes i _ _ (lives_eq_some_iff.mpr ⟨ctx, isCtx, rfl, rfl⟩)

theorem tickCtx_ids (now : ℕ) (ctx : PacketCryptoCtx) :
    (tickCtx now ctx).policyId = ctx.policyId ∧
      (tickCtx now ctx).pqcFromHandshake = ctx.pqcFromHandshake := by
  unfold tickCtx nePqcStartLifetimeClock
  split_ifs <;> exact ⟨rfl, rfl⟩

theorem inv_tick (inv : Inv l) {now : ℕ} {s' : _} (enabled : step P l (.tick now) = some s') :
    Inv s' := by
  unfold step at enabled
  dsimp only at enabled
  split at enabled
  swap
  · cases enabled
  rename_i idle
  obtain rfl := Option.some_inj.mp enabled
  refine ⟨?_, fun i policyId life here => ?_⟩
  · intro i e isEntry
    have isEntry : (l.entries.map (.mapCtx (tickCtx now)))[i]? = some e := isEntry
    rw [List.getElem?_map] at isEntry
    obtain ⟨was, isWas, rfl⟩ := Option.map_eq_some_iff.mp isEntry
    refine (inv.owned i was isWas).mapCtx fun ctx isCtx => ?_
    obtain ⟨sameId, sameFed⟩ := tickCtx_ids now ctx
    rw [sameId, sameFed]
    exact ⟨(inv.owned i was isWas).owner ctx isCtx, (inv.owned i was isWas).fed ctx isCtx⟩
  · obtain ⟨ctx, isCtx, rfl, rfl⟩ := lives_eq_some_iff.mp here
    have isCtx : ctxAt (l.entries.map (.mapCtx (tickCtx now))) i = some ctx := isCtx
    rw [ctxAt_map] at isCtx
    obtain ⟨was, isWas, rfl⟩ := Option.map_eq_some_iff.mp isCtx
    have ok := inv.lifetimes i _ _ (lives_eq_some_iff.mpr ⟨was, isWas, rfl, rfl⟩)
    rw [idle.1] at ok
    rw [(tickCtx_ids now was).1]
    refine ok.tick now fun expired => ⟨(was.policyId, was.pqcKeyInUseMs), ?_, rfl⟩
    obtain ⟨e, isEntry, isCtx⟩ := Option.bind_eq_some_iff.mp isWas
    refine List.mem_filterMap.mpr ⟨e, List.mem_of_getElem? isEntry, ?_⟩
    rw [isCtx, Option.bind_some, if_pos expired]

theorem inv_step {act : LifetimeAct} (inv : Inv l) (fresh : Fresh l act) {s' : _}
    (enabled : step P l act = some s') : Inv s' := by
  cases act with
  | session act => exact inv_session inv fresh enabled
  | rotationFailed id =>
    obtain rfl := Option.some_inj.mp enabled
    refine inv.onPatient (fun b => ?_) Binding.patient_rotationReturned
      fun r listed unlisted => absurd listed unlisted
    unfold Binding.rotationReturned
    split <;> rfl
  | tick now => exact inv_tick inv enabled
  | request => exact inv_request inv enabled
  | rearm => exact inv_rearm inv enabled

theorem inv_of_reached (reached : ReachableWith (step P) Fresh initial l) : Inv l :=
  reached.invariant inv_initial fun _ _ _ inv fresh enabled => inv_step inv fresh enabled

/-- The clocks of the keys in use tell when the keys were stored, and once the requests of a tick
are made, a request that was sent is with its binding until a handshake has brought another key. -/
structure KeysTimed (l : LifetimeState n) : Prop where
  clock : ∀ i ctx, ctxAt l.entries i = some ctx → ctx.keys.current ≠ 0 → l.since i ≠ 0 →
    ctx.pqcKeyInUseMs = l.since i
  asked : l.todo = [] → ∀ i ctx, ctxAt l.entries i = some ctx → ctx.pqcRekeySent = true →
    l.s.table.Owes ctx.policyId ctx.keys.current

theorem keys_timed (reached : ReachableWith (step P) Fresh initial l) : KeysTimed l := by
  have inv := inv_of_reached reached
  constructor
  · intro i ctx isCtx used started
    exact (inv.lifetimes i _ _ (lives_eq_some_iff.mpr ⟨ctx, isCtx, rfl, rfl⟩)).clock used started
  · intro made i ctx isCtx sent
    have ok := inv.lifetimes i _ _ (lives_eq_some_iff.mpr ⟨ctx, isCtx, rfl, rfl⟩)
    rw [made] at ok
    exact (ok.asked sent).resolve_left (by simp)

/-! ## Samples -/

/-- The contexts of `sampleReady` are built. -/
def sampleTimed : LifetimeState 0 :=
  (run (step samplePrimitives) initial
    [.session (.bind 1 9 7 1 (sampleIdentity .initiator) true), .session (.success 2 7 5),
      .session (.rebuild 3 SessionState.sampleConfig)]).getD initial

theorem sampleTimed_reached :
    ReachableWith (step samplePrimitives) Fresh initial sampleTimed := by
  refine .tail (.tail (.tail .refl (a := .session (.bind 1 9 7 1 (sampleIdentity .initiator) true))
    ?_ rfl) (a := .session (.success 2 7 5)) ?_ rfl)
    (a := .session (.rebuild 3 SessionState.sampleConfig)) ?_ rfl
  · rintro i ctx ⟨⟩
  · rintro i ctx ⟨⟩
  · exact fun _ _ _ => trivial

/-- A tick finds a key too old. -/
theorem keys_timed_expired :
    ∃ l : LifetimeState 0, ((l.todo = [] ∧ l.since 0 = 3) ∧
      (ctxAt l.entries 0).any (fun ctx => ctx.pqcRekeySent && ctx.keys.current == 5) = true) ∧
      KeysTimed l := by
  have ran : ((step samplePrimitives sampleTimed (.tick (3 + nePqcKeyLifetimeMs))).bind
      fun l => step samplePrimitives l .request).any (fun l =>
        decide ((l.todo = [] ∧ l.since 0 = 3) ∧
          (ctxAt l.entries 0).any (fun ctx => ctx.pqcRekeySent && ctx.keys.current == 5) =
            true)) = true := by
    decide +kernel
  obtain ⟨l, isLast, ends⟩ := (Option.any_eq_true _ _).mp ran
  obtain ⟨l', ticked, requested⟩ := Option.bind_eq_some_iff.mp isLast
  refine ⟨l, of_decide_eq_true ends, keys_timed (P := samplePrimitives) ?_⟩
  exact .tail (.tail sampleTimed_reached (a := .tick _) trivial ticked) (a := .request) trivial
    requested

/-- The ready contexts. -/
def contexts (l : LifetimeState n) : List PacketCryptoCtx := l.entries.filterMap CryptoEntry.ctx

/-- At time `now`, a request for a new session that was sent for a key that is too old is with its
binding. -/
def Asked (now : ℕ) (l : LifetimeState n) : Prop :=
  ∀ ctx ∈ l.contexts, ctx.keys.current ≠ 0 → ctx.pqcKeyInUseMs + nePqcKeyLifetimeMs ≤ now →
    ctx.pqcRekeySent = true →
    (l.s.table.lookup ctx.policyId).any (fun c => c.b.rekeyRequested || !c.b.keyReady) = true

instance (now : ℕ) : DecidablePred (Asked (n := n) now) := fun l => inferInstanceAs (Decidable
  (∀ ctx ∈ l.contexts, ctx.keys.current ≠ 0 → ctx.pqcKeyInUseMs + nePqcKeyLifetimeMs ≤ now →
    ctx.pqcRekeySent = true →
    (l.s.table.lookup ctx.policyId).any (fun c => c.b.rekeyRequested || !c.b.keyReady) = true))

/-- A handshake for a key that was too old at `now`, before the refresh that brings its key. -/
def keyNotFetched (now : ℕ) : List LifetimeAct :=
  [.session (.bind 1 9 7 1 (sampleIdentity .initiator) true), .session (.success 2 7 5),
    .session (.rebuild 3 SessionState.sampleConfig), .tick now, .request,
    .session (.success now 7 6)]

/-- A tick between a handshake and the refresh that brings its key finds a request that nothing of the
binding shows any more. -/
theorem renewed_not_asked :
    ¬ ∀ (l l' : LifetimeState 0) (now : ℕ), Reachable (step samplePrimitives) initial l →
      step samplePrimitives l (.tick now) = some l' → l'.todo = [] → Asked now l' := by
  intro always
  let now := 3 + nePqcKeyLifetimeMs
  obtain ⟨l, reached, bad⟩ : ∃ l : LifetimeState 0,
      Reachable (step samplePrimitives) initial l ∧ ((step samplePrimitives l (.tick now)).any
        fun l' => decide (l'.todo = []) && !decide (Asked now l')) = true :=
    exists_reachable_of_run (keyNotFetched now) (by decide +kernel)
  obtain ⟨l', ticked, bad⟩ := (Option.any_eq_true _ _).mp bad
  rw [Bool.and_eq_true, decide_eq_true_iff, Bool.not_eq_true', decide_eq_false_iff_not] at bad
  exact bad.2 (always l l' now reached ticked bad.1)

end LifetimeState

end NeEncryptor
