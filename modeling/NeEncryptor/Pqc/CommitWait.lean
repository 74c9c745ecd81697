import NeEncryptor.Pqc.Refinement

/-!
# The commit wait

`pqc_hs_initiator_commit_staged` repeats READY until a COMMIT of its session arrives; it is the only
wait of the worker without a time limit.  The responder answers as long as it still has the RESP of
that session in its cache, and the key of it in NEXT or CURRENT.
-/

namespace NeEncryptor.Pqc

namespace View

variable {P : Primitives} {v v' : View}

/-- The responder can answer a READY of session `s`. -/
def Answers (v : View) (s : SessionId) : Prop :=
  v.rReady = true ∧ ∃ i e, v.cache i = some e ∧ e.hello.session = s ∧ e.requiresCommit = true ∧
    (e.keyPromoted = true ∨ v.rKeys.next = some e.masterKey)

/-- No step takes away from an unfinished rekey what its commit needs. -/
def KeepsRekey (v : View) : Event → Prop
  | .draw h _ => ∀ x ∈ v.hist.drawn, x.session ≠ h.session
  | .take h _ => ∀ s, v.phase.openRotation = some s →
      (h.session = s → v.rReady = true) ∧
      (h.session ≠ s → ∀ i e, v.cache i = some e → e.hello.session = s →
        e.keyPromoted = true ∧ i ≠ v.cacheNext)
  | .reply _ e' => v.rReady = true → ∀ s, v.phase.openRotation = some s →
      e'.requiresCommit = true ∨ e'.keyPromoted = true ∨
        ∀ i e, v.cache i = some e → e.hello.session = s → e.keyPromoted = true
  | .retryRes | .restartRes => ∀ s, v.phase.openRotation = some s →
      ∀ i e, v.cache i = some e → e.hello.session ≠ s
  | _ => True

/-- A rekey that the responder has taken can be answered. -/
structure Waiting (v : View) : Prop where
  awaitTaken : ∀ h, v.phase = .await h → ∃ t ∈ v.hist.taken, t.hello.session = h.session
  answers : ∀ s, v.phase.openRotation = some s → ∀ t ∈ v.hist.taken, t.hello.session = s →
    v.Answers s

theorem waiting_start : Waiting .start := by
  constructor <;> simp [start]

/-- What the responder answers does not depend on the initiator, on CURRENT and PREV or on the
messages that exist. -/
theorem Answers.of_same {s : SessionId} (h : v.Answers s) (ready : v'.rReady = v.rReady)
    (cache : v'.cache = v.cache) (next : v'.rKeys.next = v.rKeys.next) : v'.Answers s := by
  unfold Answers
  rw [ready, cache, next]
  exact h

/-- A step of the initiator that opens no rekey, or one that leaves the responder alone. -/
theorem Waiting.of_frame (inv : Waiting v) (taken : v'.hist.taken = v.hist.taken)
    (ready : v'.rReady = v.rReady) (cache : v'.cache = v.cache)
    (next : v'.rKeys.next = v.rKeys.next)
    (waits : ∀ h, v'.phase = .await h → ∃ t ∈ v.hist.taken, t.hello.session = h.session)
    (opened : ∀ s, v'.phase.openRotation = some s → v.phase.openRotation = some s) :
    Waiting v' := by
  refine ⟨taken ▸ waits, fun s hs t ht same => ?_⟩
  exact (inv.answers s (opened s hs) t (taken ▸ ht) same).of_same ready cache next

/-- Promoting another entry than the one a rekey waits for. -/
theorem Answers.promoteRes_other {s : SessionId} {slot i : Fin 4} {e e' : HsCacheEntry}
    (other : i ≠ slot) (cached : v.cache i = some e) (session : e.hello.session = s)
    (commits : e.requiresCommit = true) (promoted : e.keyPromoted = true) :
    (v.promoteRes slot e').Answers s := by
  refine ⟨rfl, i, e, ?_, session, commits, .inl promoted⟩
  exact (Function.update_of_ne other _ _).trans cached

/-- Promoting the entry a rekey waits for. -/
theorem Answers.promoteRes_self {s : SessionId} {slot : Fin 4} {e : HsCacheEntry}
    (session : e.hello.session = s) (commits : e.requiresCommit = true) :
    (v.promoteRes slot e).Answers s :=
  ⟨rfl, slot, spent e, Function.update_self .., session, commits, .inl rfl⟩

theorem waiting_take (inv : Waiting v) {h : Hello} {key : TrafficKey}
    (keeps : KeepsRekey v (.take h key)) (applied : v.apply P (.take h key) = some v') :
    Waiting v' := by
  simp only [apply, Option.ite_none_right_eq_some, Option.some_inj] at applied
  obtain ⟨-, rfl⟩ := applied
  refine ⟨fun x hx => ?_, fun s opened t ht session => ?_⟩
  · obtain ⟨t, ht, same⟩ := inv.awaitTaken x hx
    exact ⟨t, List.mem_cons_of_mem _ ht, same⟩
  · obtain ⟨mine, others⟩ := keeps s opened
    by_cases same : h.session = s
    · have ready := mine same
      refine ⟨ready, v.cacheNext, _, Function.update_self .., same, ready, .inr ?_⟩
      dsimp only
      rw [if_pos ready]
    · have old : t ∈ v.hist.taken := by
        rcases List.mem_cons.mp ht with rfl | old
        · exact absurd session same
        · exact old
      obtain ⟨ready, i, e, cached, entry, commits, -⟩ := inv.answers s opened t old session
      obtain ⟨promoted, kept⟩ := others same i e cached entry
      exact ⟨ready, i, e, (Function.update_of_ne kept _ _).trans cached, entry, commits,
        .inl promoted⟩

theorem waiting_reply (inv : Waiting v) {slot : Fin 4} {e' : HsCacheEntry}
    (keeps : KeepsRekey v (.reply slot e')) (applied : v.apply P (.reply slot e') = some v') :
    Waiting v' := by
  simp only [apply, Option.ite_none_right_eq_some, Option.some_inj] at applied
  obtain ⟨cached', rfl⟩ := applied
  split
  · exact inv.of_frame rfl rfl rfl rfl inv.awaitTaken fun _ => id
  · rename_i first
    simp only [Bool.or_eq_true, not_or] at first
    refine ⟨inv.awaitTaken, fun s opened t ht session => ?_⟩
    obtain ⟨ready, i, e, cached, entry, commits, -⟩ := inv.answers s opened t ht session
    have promoted : e.keyPromoted = true := by
      rcases keeps ready s opened with isRekey | isPromoted | all
      · exact absurd isRekey first.1
      · exact absurd isPromoted first.2
      · exact all i e cached entry
    have other : i ≠ slot := by
      rintro rfl
      rw [cached] at cached'
      cases cached'
      exact first.1 commits
    exact Answers.promoteRes_other (v := { v with toIni := _ }) other cached entry commits promoted

theorem waiting_ready (led : Ledger P v) (inv : Waiting v) {slot : Fin 4} {e' : HsCacheEntry}
    (applied : v.apply P (.ready slot e') = some v') : Waiting v' := by
  simp only [apply, Option.ite_none_right_eq_some, Option.some_inj] at applied
  obtain ⟨⟨-, cached', commits', staged⟩, rfl⟩ := applied
  split
  · exact inv.of_frame rfl rfl rfl rfl inv.awaitTaken fun _ => id
  · rename_i unspent
    have next' : v.rKeys.next = some e'.masterKey := staged.resolve_left unspent
    refine ⟨inv.awaitTaken, fun s opened t ht session => ?_⟩
    obtain ⟨-, i, e, cached, entry, commits, answer⟩ := inv.answers s opened t ht session
    by_cases same : i = slot
    · subst same
      rw [cached] at cached'
      cases cached'
      exact Answers.promoteRes_self (v := { v with toIni := _ }) entry commits
    · have promoted : e.keyPromoted = true := by
        by_contra unspentToo
        -- NEXT holds one key, and a key belongs to one session.
        have next := answer.resolve_left unspentToo
        obtain ⟨t₁, ht₁, rec₁⟩ := led.cacheTaken i e cached
        obtain ⟨t₂, ht₂, rec₂⟩ := led.cacheTaken slot e' cached'
        have keys : t₁.key = t₂.key := by
          rw [← rec₁.master (by simpa using unspentToo), ← rec₂.master (by simpa using unspent)]
          exact Option.some_inj.mp (next.symm.trans next')
        have one := led.taken_of_key ht₁ ht₂ keys
        exact same (led.distinct i slot e e' cached cached'
          (by rw [← rec₁.hello, ← rec₂.hello, one]))
      exact Answers.promoteRes_other (v := { v with toIni := _ }) same cached entry commits promoted

theorem waiting_apply {ev : Event} (led : Ledger P v) (inv : Waiting v) (keeps : KeepsRekey v ev)
    (h : v.apply P ev = some v') : Waiting v' := by
  cases ev with
  | take x key => exact waiting_take inv keeps h
  | reply slot e => exact waiting_reply inv keeps h
  | ready slot e => exact waiting_ready led inv h
  | draw x rekey =>
    simp only [apply, Option.ite_none_right_eq_some, Option.some_inj] at h
    obtain ⟨-, rfl⟩ := h
    refine ⟨?_, fun s opened t ht session => ?_⟩
    · cases rekey <;> simp
    · have mine : x.session = s := by cases rekey <;> simp_all [Phase.openRotation]
      exact absurd (session.trans mine.symm) (keeps _ (led.takenDrawn t ht))
  | leave | commit x key =>
    simp only [apply, Option.ite_none_right_eq_some, Option.some_inj] at h
    obtain ⟨-, rfl⟩ := h
    exact inv.of_frame rfl rfl rfl rfl (by simp) (by simp [Phase.openRotation])
  | stage x ct =>
    simp only [apply, Option.ite_none_right_eq_some, Option.some_inj] at h
    obtain ⟨⟨phase, -, sent⟩, rfl⟩ := h
    refine inv.of_frame rfl rfl rfl rfl (fun y hy => ?_) fun s hs => ?_
    · cases hy
      obtain ⟨t, ht, same, -⟩ := led.respTaken _ _ sent
      exact ⟨t, ht, same⟩
    · rw [phase]
      exact hs
  | abandon x =>
    simp only [apply, Option.ite_none_right_eq_some, Option.some_inj] at h
    obtain ⟨phase, rfl⟩ := h
    exact inv.of_frame rfl rfl rfl rfl (by simp) (by rw [phase]; exact fun _ => id)
  | commitFails x =>
    simp only [apply, Option.ite_none_right_eq_some, Option.some_inj] at h
    obtain ⟨⟨phase, -⟩, rfl⟩ := h
    exact inv.of_frame rfl rfl rfl rfl (by simp) (by rw [phase]; exact fun _ => id)
  | sendIni m | accept x ct | sendRes m | arm st | discardRes =>
    simp only [apply, Option.ite_none_right_eq_some, Option.some_inj] at h
    obtain ⟨-, rfl⟩ := h
    exact inv.of_frame rfl rfl rfl rfl inv.awaitTaken fun _ => id
  | discardIni | retryIni | disarm =>
    cases h
    exact inv.of_frame rfl rfl rfl rfl inv.awaitTaken fun _ => id
  | restartIni =>
    cases h
    exact inv.of_frame rfl rfl rfl rfl (by simp) (by simp [Phase.openRotation])
  | clear =>
    simp only [apply, Option.ite_none_right_eq_some, Option.some_inj] at h
    obtain ⟨notReady, rfl⟩ := h
    refine ⟨inv.awaitTaken, fun s opened t ht session => ?_⟩
    have ready := (inv.answers s opened t ht session).1
    rw [notReady] at ready
    cases ready
  | retryRes =>
    cases h
    refine ⟨inv.awaitTaken, fun s opened t ht session => ?_⟩
    obtain ⟨-, i, e, cached, entry, -⟩ := inv.answers s opened t ht session
    exact absurd entry (keeps s opened i e cached)
  | restartRes =>
    cases h
    refine ⟨inv.awaitTaken, fun s opened t ht session => ?_⟩
    obtain ⟨-, i, e, cached, entry, -⟩ := inv.answers s opened t ht session
    exact absurd entry (keeps s opened i e cached)

theorem waiting_reachable (run : Transition.ReachableWith (View.apply P) KeepsRekey .start v) :
    Ledger P v ∧ Waiting v := by
  refine run.invariant (I := fun v => Ledger P v ∧ Waiting v) ⟨ledger_start, waiting_start⟩
    fun _ _ _ inv keeps h => ?_
  exact ⟨ledger_apply inv.1 h, waiting_apply inv.1 inv.2 keeps h⟩

theorem Waiting.answers_await {h : Hello} (inv : Waiting v) (phase : v.phase = .await h) :
    v.Answers h.session := by
  obtain ⟨t, taken, same⟩ := inv.awaitTaken h phase
  exact inv.answers h.session (by rw [phase]; rfl) t taken same

end View

/-- The cache slot a loop over `hs_cache` stops at is the only one that meets `p`. -/
theorem findCache_unique {cache : Fin 4 → Option HsCacheEntry} {p : HsCacheEntry → Bool}
    {i : Fin 4} {e : HsCacheEntry} (cached : cache i = some e) (meets : p e = true)
    (only : ∀ j x, cache j = some x → p x = true → j = i) : findCache cache p = some (i, e) := by
  cases found : findCache cache p with
  | none =>
    have := findCache_none.mp found i e cached
    rw [meets] at this
    cases this
  | some entry =>
    obtain ⟨j, x⟩ := entry
    obtain ⟨here, meets'⟩ := findCache_some found
    have same := only j x here meets'
    subst same
    rw [here] at cached
    cases cached
    rfl

namespace Node

/-- The initiator leaves the commit wait by itself: at some later time, without a message. -/
def LeavesByItself (P : Primitives) (n : Node IniPc) : Prop :=
  ∃ (d : Draws) (later : ℕ), (initiatorWork P d
    { n with now := n.now + later, b := { n.b with rxQueue := [] } }).1.commitWaits = none

/-- The commit wait has no time limit: only a stop request ends it without a message. -/
theorem leavesByItself_iff (P : Primitives) {n : Node IniPc} {s : SessionId}
    (waits : n.commitWaits = some s) : n.LeavesByItself P ↔ n.b.threadExitSig = true := by
  unfold commitWaits at waits
  split at waits
  · rename_i pc
    have d : Draws := ⟨none, none, 0, false, false⟩
    constructor
    · rintro ⟨d, later, left⟩
      by_contra stop
      simp [initiatorWork, pc, stop, rxRecv, commitWaits] at left
    · intro stop
      exact ⟨d, 0, by simp [initiatorWork, pc, stop, commitWaits]⟩
  · cases waits

end Node

namespace World

variable {P : Primitives} {w : World} {a : Act}

/-- The responder holds a RESP of session `s` whose key it staged or already promoted. -/
def HoldsCommit (b : Binding) (s : SessionId) : Prop :=
  ∃ i, ∃ e ∈ b.hsCache i, e.hello.session = s ∧ e.requiresCommit = true ∧
    (e.keyPromoted = true ∨ b.slots.next.key? = some e.masterKey)

instance (b : Binding) (s : SessionId) : Decidable (HoldsCommit b s) :=
  decidable_of_iff (((List.finRange 4).any fun i => (b.hsCache i).any fun e =>
    e.hello.session == s && e.requiresCommit &&
      (e.keyPromoted || b.slots.next.key? == some e.masterKey)) = true)
    (by simp [HoldsCommit, Option.any_eq_true, and_assoc])

/-- Whoever is in the commit wait can leave it, or a READY brings the COMMIT. -/
def CommitAnswerable (P : Primitives) (w : World) : Prop :=
  ∀ s, w.ini.commitWaits = some s → w.ini.LeavesByItself P ∨
    (w.res.b.keyReady = true ∧ HoldsCommit w.res.b s ∧
      ∀ now, (w.res.b.pqcHsHandleReady now s).2 = [.commit s])

/-- While a rekey is unfinished, its HELLO is taken only by a responder with a key in use, and the
RESP and the staged key of it are neither overwritten nor erased. -/
def KeepsRekey (w : World) : Act → Prop
  | .workIni d => ∀ draw ∈ d.session, ∀ h ∈ w.hist.drawn, h.session ≠ draw.1
  | .workRes _ => ∀ s ∈ w.ini.openRotation,
      (∀ h ∈ w.res.takes, (h.session = s → w.res.b.keyReady = true) ∧
        (h.session ≠ s → ∀ i, ∀ e ∈ w.res.b.hsCache i, e.hello.session = s →
          e.keyPromoted = true ∧ i ≠ w.res.b.hsCacheNext)) ∧
      ∀ e' ∈ w.res.answersFrom, e'.requiresCommit = true ∨ e'.keyPromoted = true ∨
        ∀ i, ∀ e ∈ w.res.b.hsCache i, e.hello.session = s → e.keyPromoted = true
  | .retryRes _ | .restartRes _ _ =>
      ∀ s ∈ w.ini.openRotation, ∀ i, ∀ e ∈ w.res.b.hsCache i, e.hello.session ≠ s
  | _ => True

-- Quantifiers over the cache are decided through `Bool`, which the kernel evaluates quickly.
instance (w : World) : DecidablePred w.KeepsRekey
  | .workIni d => inferInstanceAs (Decidable (∀ draw ∈ d.session, _))
  | .workRes _ => decidable_of_iff ((w.ini.openRotation.all fun s =>
      (w.res.takes.all fun h => if h.session = s then w.res.b.keyReady else
        (List.finRange 4).all fun i => (w.res.b.hsCache i).all fun e =>
          e.hello.session != s || e.keyPromoted && i != w.res.b.hsCacheNext) &&
      w.res.answersFrom.all fun e' => e'.requiresCommit || e'.keyPromoted ||
        (List.finRange 4).all fun i => (w.res.b.hsCache i).all fun e =>
          e.hello.session != s || e.keyPromoted) = true)
      (by
        simp only [KeepsRekey, Option.all_eq_true, Bool.and_eq_true, Option.mem_def]
        refine forall₂_congr fun s _ => and_congr (forall₂_congr fun h _ => ?_)
          (forall₂_congr fun e' _ => ?_)
        · split
          · simp [*]
          · simp [*, Option.all_eq_true, or_iff_not_imp_left]
        · simp [Option.all_eq_true, or_iff_not_imp_left])
  | .retryRes _ | .restartRes _ _ => decidable_of_iff ((w.ini.openRotation.all fun s =>
      (List.finRange 4).all fun i => (w.res.b.hsCache i).all fun e => e.hello.session != s) = true)
      (by simp [KeepsRekey, Option.all_eq_true])
  | .tickIni _ | .tickRes _ | .deliverIni _ | .deliverRes _ | .requestIni | .requestRes
  | .retryIni _ | .stopIni | .stopRes | .startIni | .startRes | .restartIni _ _ => .isTrue trivial

theorem openRotation_view (w : World) : w.view.phase.openRotation = w.ini.openRotation := by
  unfold view Node.openRotation
  cases w.ini.pc <;> rfl

theorem keepsRekey_caused {v : View} {ev : Event} (keeps : w.KeepsRekey a)
    (caused : Caused w a v ev) : View.KeepsRekey v ev := by
  cases ev with
  | draw h rekey =>
    obtain ⟨⟨d, rfl, drawn⟩, hist⟩ := caused
    intro x hx
    exact keeps _ drawn x (hist ▸ hx)
  | take h key =>
    obtain ⟨⟨d, rfl⟩, takes, rfl⟩ := caused
    intro s opened
    rw [openRotation_view] at opened
    obtain ⟨mine, others⟩ := (keeps s opened).1 h takes
    exact ⟨mine, fun other i e cached => others other i e cached⟩
  | reply slot e' =>
    obtain ⟨⟨d, rfl⟩, ⟨answers, rfl⟩ | ⟨-, -, -, rekey⟩⟩ := caused
    · intro _ s opened
      rw [openRotation_view] at opened
      exact (keeps s opened).2 e' answers
    · intro ready s _
      exact .inl (rekey.trans ready)
  | retryRes =>
    obtain ⟨⟨id, rfl⟩, rfl⟩ := caused
    intro s opened i e cached
    rw [openRotation_view] at opened
    exact keeps s opened i e cached
  | restartRes =>
    obtain ⟨⟨now, id, rfl⟩, rfl⟩ := caused
    intro s opened i e cached
    rw [openRotation_view] at opened
    exact keeps s opened i e cached
  | _ => trivial

/-- A responder that holds the RESP of a session answers its READY, whatever the clock says. -/
theorem handleReady_commits {b : Binding} {s : SessionId} (holds : HoldsCommit b s)
    (distinct : ∀ i j e e', b.hsCache i = some e → b.hsCache j = some e' →
      e.hello.session = e'.hello.session → i = j) (now : ℕ) :
    (b.pqcHsHandleReady now s).2 = [.commit s] := by
  obtain ⟨i, e, cached, session, commits, answer⟩ := holds
  have found : findCache b.hsCache (fun e => e.requiresCommit && e.hello.session == s) =
      some (i, e) := by
    refine findCache_unique cached (by simp [commits, session]) fun j x here meets => ?_
    have same : x.hello.session = s := by simpa using (Bool.and_eq_true_iff.mp meets).2
    exact distinct j i x e here cached (same.trans session.symm)
  unfold Binding.pqcHsHandleReady
  rw [found]
  dsimp only
  split
  · rfl
  · rename_i unspent
    obtain ⟨valid, key⟩ : b.slots.next.valid = true ∧ b.slots.next.key = e.masterKey := by
      simpa [KeySlot.key?] using answer.resolve_left unspent
    simp [valid, key, Binding.pqcHsPromoteStagedKey]

/-- A responder that can answer the READY of whoever waits for COMMIT. -/
theorem answerable_of_answers
    (distinct : ∀ i j e e', w.res.b.hsCache i = some e → w.res.b.hsCache j = some e' →
      e.hello.session = e'.hello.session → i = j)
    (answers : ∀ h, w.ini.pc.phase = .await h → w.view.Answers h.session) :
    w.CommitAnswerable P := by
  intro s waits
  right
  obtain ⟨h, phase, session⟩ : ∃ h, w.ini.pc.phase = .await h ∧ h.session = s := by
    unfold Node.commitWaits at waits
    split at waits
    · rename_i kem _ _ _ pc
      cases waits
      exact ⟨⟨s, kem⟩, by simp [pc, IniPc.phase], rfl⟩
    · cases waits
  obtain ⟨ready, i, e, cached, entry, commits, answer⟩ := answers h phase
  have holds : HoldsCommit w.res.b s := ⟨i, e, cached, entry.trans session, commits, answer⟩
  exact ⟨ready, holds, handleReady_commits holds distinct⟩

/-- A commit wait that nothing the responder holds can end. -/
def trapped (w : World) : Bool :=
  match w.ini.commitWaits with
  | some s => !w.ini.b.threadExitSig && !decide (HoldsCommit w.res.b s)
  | none => false

theorem not_answerable_of_trapped (trapped : w.trapped = true) : ¬ w.CommitAnswerable P := by
  intro answerable
  unfold World.trapped at trapped
  split at trapped
  · rename_i s waits
    obtain ⟨running, forgotten⟩ : w.ini.b.threadExitSig = false ∧ ¬ HoldsCommit w.res.b s := by
      simpa using trapped
    rcases answerable s waits with leaves | ⟨-, holds, -⟩
    · rw [Node.leavesByItself_iff P waits, running] at leaves
      cases leaves
    · exact forgotten holds
  · cases trapped

end World

end NeEncryptor.Pqc
