import NeEncryptor.Pqc.Refinement

/-!
# Key overlap

Each side decides from its own `key_ready` whether a handshake is the first one, whose key is used at
once, or a rekey, which stages NEXT.  As long as both decide alike and no session id recurs, the
CURRENT key of each side is held by the other.  `Overlap` follows the two keys through a cutover: until
COMMIT arrives, the responder is either still on the initiator's CURRENT key or already on its NEXT.
-/

namespace NeEncryptor.Pqc

namespace View

variable {P : Primitives} {v v' : View}

/-- Both sides take a handshake for the same kind, no session id recurs, and nobody stops half-way. -/
def OneKind (v : View) : Event → Prop
  | .draw h _ => ∀ x ∈ v.hist.drawn, x.session ≠ h.session
  | .take h _ => ∀ t ∈ v.hist.taken, t.hello.session ≠ h.session
  | .accept h _ => ∀ t ∈ v.hist.taken, t.hello.session = h.session → t.rotation = false
  | .reply _ e => v.rReady = true → e.requiresCommit = true ∨ e.keyPromoted = true
  | .abandon _ | .retryIni | .restartIni | .retryRes | .restartRes => False
  | _ => True

theorem freshSessions_of_oneKind {ev : Event} (h : OneKind v ev) : FreshSessions v ev := by
  cases ev with
  | draw x rekey | take x key => exact h
  | _ => trivial

/-- The key of session `s` became the responder's CURRENT key on a READY. -/
def CutOver (v : View) (s : SessionId) : Prop :=
  ∃ t ∈ v.hist.taken, t.hello.session = s ∧ t.key ∈ v.hist.readyPromoted

/-- The cutover of the key agreed on in `t`, before the initiator has seen the COMMIT. -/
def HalfWay (v : View) (t : Taken) : Prop :=
  v.iKeys.next = some t.key ∧
    ((v.iKeys.current = v.rKeys.current ∧ t.key ∉ v.hist.readyPromoted) ∨
      (v.rKeys.current = some t.key ∧ v.rKeys.prev = v.iKeys.current ∧
        t.key ∈ v.hist.readyPromoted))

/-- Where the keys of the two sides are. -/
structure Overlap (v : View) : Prop where
  iniCurrent : v.iReady = true → ∃ k, v.iKeys.current = some k
  resReady : v.iReady = true → v.rReady = true
  cold : v.iReady = false →
    v.hist.staged = [] ∧ v.hist.currents = [] ∧ v.phase.openRotation = none
  known : ∀ k, k ∈ v.hist.staged ∨ k ∈ v.hist.currents → ∃ t ∈ v.hist.taken, t.key = k
  firstKey : ∀ t ∈ v.hist.taken, t.rotation = false → (∃ ct, .resp t.hello.session ct ∈ v.toIni) →
    v.rReady = true ∧ (v.hist.readyPromoted = [] → v.rKeys.current = some t.key)
  firstSent : ∀ i e, v.cache i = some e → e.requiresCommit = false → e.keyPromoted = true →
    ∃ ct, .resp e.hello.session ct ∈ v.toIni
  unspent : ∀ i e, v.cache i = some e → e.keyPromoted = false →
    e.masterKey ∉ v.hist.readyPromoted
  spentRekey : ∀ i e, v.cache i = some e → e.requiresCommit = true → e.keyPromoted = true →
    v.CutOver e.hello.session
  readyWaits : ∀ t ∈ v.hist.taken, .ready t.hello.session ∈ v.toRes →
    t.key ∉ v.hist.readyPromoted → ∃ h, v.phase = .await h ∧ h.session = t.hello.session
  rotateFresh : ∀ h, v.phase = .rotate h → ∀ t ∈ v.hist.taken, t.hello.session = h.session →
    t.key ∉ v.hist.staged
  openFresh : ∀ s, v.phase.openRotation = some s → ∀ t ∈ v.hist.taken, t.hello.session = s →
    t.key ∉ v.hist.currents
  commitSent : ∀ s, .commit s ∈ v.toIni → v.CutOver s
  armedCurrent : v.armed = true → ∃ k ∈ v.hist.currents, v.rKeys.current = some k
  settled : v.iReady = true → (∀ h, v.phase ≠ .await h) → v.iKeys.current = v.rKeys.current
  cutover : ∀ h, v.phase = .await h →
    ∃ t ∈ v.hist.taken, t.hello.session = h.session ∧ v.HalfWay t

theorem overlap_start : Overlap .start := by
  constructor <;> simp [start, Phase.openRotation]

theorem CutOver.of_grown {s : SessionId} (h : v.CutOver s)
    (taken : v.hist.taken ⊆ v'.hist.taken)
    (promoted : v.hist.readyPromoted ⊆ v'.hist.readyPromoted) : v'.CutOver s := by
  obtain ⟨t, ht, same, key⟩ := h
  exact ⟨t, taken ht, same, promoted key⟩

/-- In an unfinished rekey the initiator has a key in use. -/
theorem Overlap.ready_of_open (inv : Overlap v) {s : SessionId}
    (opened : v.phase.openRotation = some s) : v.iReady = true := by
  by_contra notReady
  have := (inv.cold (by simpa using notReady)).2.2
  rw [opened] at this
  cases this

theorem Overlap.ready_of_await (inv : Overlap v) {h : Hello} (phase : v.phase = .await h) :
    v.iReady = true :=
  inv.ready_of_open (s := h.session) (by rw [phase]; rfl)

theorem overlap_sendIni (inv : Overlap v) {m : Msg}
    (applied : v.apply P (.sendIni m) = some v') : Overlap v' := by
  simp only [apply, Option.ite_none_right_eq_some, Option.some_inj] at applied
  obtain ⟨signed, rfl⟩ := applied
  refine { inv with readyWaits := fun t ht sent unpromoted => ?_ }
  rcases List.mem_cons.mp sent with rfl | old
  · obtain ⟨opened, notSending⟩ := signed
    cases phase : v.phase <;> simp_all [Phase.openRotation, Phase.sending]
  · exact inv.readyWaits t ht old unpromoted

theorem overlap_draw (led : Ledger P v) (inv : Overlap v) {x : Hello} {rekey : Bool}
    (fresh : OneKind v (.draw x rekey)) (applied : v.apply P (.draw x rekey) = some v') :
    Overlap v' := by
  simp only [apply, Option.ite_none_right_eq_some, Option.some_inj] at applied
  obtain ⟨⟨idle, kind⟩, rfl⟩ := applied
  have untaken : ∀ t ∈ v.hist.taken, t.hello.session ≠ x.session := fun t ht =>
    fresh _ (led.takenDrawn t ht)
  refine { inv with
    cold := fun notReady => ?_
    readyWaits := fun t ht sent unpromoted => ?_
    rotateFresh := fun h phase t ht same => ?_
    openFresh := fun s opened t ht same => ?_
    settled := fun ready _ => inv.settled ready (by simp [idle])
    cutover := fun h phase => ?_ }
  · obtain ⟨staged, currents, -⟩ := inv.cold notReady
    have first : rekey = false := kind.symm.trans notReady
    exact ⟨staged, currents, by simp [first, Phase.openRotation]⟩
  · obtain ⟨h, phase, -⟩ := inv.readyWaits t ht sent unpromoted
    rw [idle] at phase
    cases phase
  · have mine : x = h := by cases rekey <;> simp_all
    exact absurd (same.trans (by rw [mine])) (untaken t ht)
  · have mine : x.session = s := by cases rekey <;> simp_all [Phase.openRotation]
    exact absurd (same.trans mine.symm) (untaken t ht)
  · cases rekey <;> simp at phase

theorem overlap_leave (inv : Overlap v) (applied : v.apply P .leave = some v') : Overlap v' := by
  simp only [apply, Option.ite_none_right_eq_some, Option.some_inj] at applied
  obtain ⟨sending, rfl⟩ := applied
  have noAwait : ∀ h, v.phase ≠ .await h := by
    intro h phase
    simp [phase, Phase.sending] at sending
  refine { inv with
    cold := fun notReady => ?_
    readyWaits := fun t ht sent unpromoted => ?_
    rotateFresh := by simp
    openFresh := by simp [Phase.openRotation]
    settled := fun ready _ => inv.settled ready noAwait
    cutover := by simp }
  · obtain ⟨staged, currents, -⟩ := inv.cold notReady
    exact ⟨staged, currents, rfl⟩
  · obtain ⟨h, phase, -⟩ := inv.readyWaits t ht sent unpromoted
    exact absurd phase (noAwait h)

/-- A first handshake ends: both sides use the key of the only RESP that was ever sent for one. -/
theorem overlap_accept (led : Ledger P v) (ses : Sessions v) (inv : Overlap v) {x : Hello}
    {ct : Ciphertext} (first : OneKind v (.accept x ct))
    (applied : v.apply P (.accept x ct) = some v') : Overlap v' := by
  simp only [apply, Option.ite_none_right_eq_some, Option.some_inj] at applied
  obtain ⟨⟨phase, notReady, sent⟩, rfl⟩ := applied
  obtain ⟨t, ht, hello, key⟩ :=
    ses.resp_key led (led.phaseDrawn x (by simp [phase, Phase.hello])) sent
  obtain ⟨staged, -, -⟩ := inv.cold notReady
  have noneCutOver : v.hist.readyPromoted = [] := by
    refine List.eq_nil_iff_forall_not_mem.mpr fun k hk => ?_
    have := ses.promotedStaged k hk
    rw [staged] at this
    cases this
  obtain ⟨resReady, current⟩ := inv.firstKey t ht (first t ht (by rw [hello])) ⟨ct, by rwa [hello]⟩
  refine { inv with
    iniCurrent := fun _ => ⟨_, rfl⟩
    resReady := fun _ => resReady
    cold := by simp
    known := fun k hk => ?_
    openFresh := by simp [phase, Phase.openRotation]
    armedCurrent := fun armed => ?_
    settled := fun _ _ => ?_
    cutover := by simp [phase] }
  · rcases hk with old | new
    · exact inv.known k (.inl old)
    · rcases List.mem_cons.mp new with rfl | old
      · exact ⟨t, ht, key.symm⟩
      · exact inv.known k (.inr old)
  · obtain ⟨k, hk, same⟩ := inv.armedCurrent armed
    exact ⟨k, List.mem_cons_of_mem _ hk, same⟩
  · exact (congrArg some key).trans (current noneCutOver).symm

/-- A rekey reaches the commit wait with a key the responder has not cut over to. -/
theorem overlap_stage (led : Ledger P v) (ses : Sessions v) (inv : Overlap v) {x : Hello}
    {ct : Ciphertext} (applied : v.apply P (.stage x ct) = some v') : Overlap v' := by
  simp only [apply, Option.ite_none_right_eq_some, Option.some_inj] at applied
  obtain ⟨⟨phase, ready, sent⟩, rfl⟩ := applied
  obtain ⟨t, ht, hello, key⟩ :=
    ses.resp_key led (led.phaseDrawn x (by simp [phase, Phase.hello])) sent
  have opened : v.phase.openRotation = some x.session := by rw [phase]; rfl
  have unpromoted : t.key ∉ v.hist.readyPromoted := fun h =>
    inv.rotateFresh x phase t ht (by rw [hello]) (ses.promotedStaged _ h)
  refine { inv with
    cold := by simp [ready]
    known := fun k hk => ?_
    readyWaits := fun u hu readySent unpromoted => ?_
    rotateFresh := by simp
    openFresh := fun s same u hu session => ?_
    settled := by simp
    cutover := fun h hh => ?_ }
  · rcases hk with new | old
    · rcases List.mem_cons.mp new with rfl | old
      · exact ⟨t, ht, key.symm⟩
      · exact inv.known k (.inl old)
    · exact inv.known k (.inr old)
  · obtain ⟨h, waiting, -⟩ := inv.readyWaits u hu readySent unpromoted
    rw [phase] at waiting
    cases waiting
  · exact inv.openFresh s (opened.trans same) u hu session
  · cases hh
    refine ⟨t, ht, by rw [hello], congrArg some key, .inl ⟨?_, unpromoted⟩⟩
    exact inv.settled ready (by simp [phase])

/-- The COMMIT moves the initiator to the key the responder has already cut over to. -/
theorem overlap_commit (ses : Sessions v) (inv : Overlap v) {x : Hello} {key : TrafficKey}
    (applied : v.apply P (.commit x key) = some v') : Overlap v' := by
  simp only [apply, Option.ite_none_right_eq_some, Option.some_inj] at applied
  obtain ⟨⟨phase, sent, next⟩, rfl⟩ := applied
  have ready := inv.ready_of_await phase
  obtain ⟨t, ht, session, halfWay⟩ := inv.cutover x phase
  obtain ⟨u, hu, same, promoted⟩ := inv.commitSent _ sent
  have one : u = t := ses.taken_of_session hu ht (same.trans session.symm)
  subst one
  have mine : key = u.key := by
    have := halfWay.1
    rw [next] at this
    exact Option.some_inj.mp this
  subst mine
  have current : v.rKeys.current = some u.key := by
    rcases halfWay.2 with ⟨-, unpromoted⟩ | ⟨current, -, -⟩
    · exact absurd promoted unpromoted
    · exact current
  refine { inv with
    iniCurrent := fun _ => ⟨_, rfl⟩
    resReady := fun _ => inv.resReady ready
    cold := by simp
    known := fun k hk => ?_
    readyWaits := fun t' ht' readySent unpromoted => ?_
    rotateFresh := by simp
    openFresh := by simp [Phase.openRotation]
    armedCurrent := fun armed => ?_
    settled := fun _ _ => current.symm
    cutover := by simp }
  · rcases hk with old | new
    · exact inv.known k (.inl old)
    · rcases List.mem_cons.mp new with rfl | old
      · exact ⟨u, hu, rfl⟩
      · exact inv.known k (.inr old)
  · obtain ⟨h, waiting, hs⟩ := inv.readyWaits t' ht' readySent unpromoted
    rw [phase] at waiting
    cases waiting
    have : t' = u := ses.taken_of_session ht' hu (hs.symm.trans session.symm)
    exact absurd (this ▸ promoted) unpromoted
  · obtain ⟨k, hk, same⟩ := inv.armedCurrent armed
    exact ⟨k, List.mem_cons_of_mem _ hk, same⟩

theorem overlap_commitFails (inv : Overlap v) {x : Hello} :
    v.apply P (.commitFails x) = none := by
  simp only [apply, ite_eq_right_iff, reduceCtorEq, imp_false, not_and]
  intro phase empty
  obtain ⟨t, -, -, next, -⟩ := inv.cutover x phase
  rw [empty] at next
  cases next

/-- A HELLO taken as new concerns a session nobody has heard of at the responder. -/
theorem overlap_take (led : Ledger P v) (ses : Sessions v) (inv : Overlap v) {x : Hello}
    {key : TrafficKey} (fresh : OneKind v (.take x key))
    (applied : v.apply P (.take x key) = some v') : Overlap v' := by
  simp only [apply, Option.ite_none_right_eq_some, Option.some_inj] at applied
  obtain ⟨⟨-, -, freshKey⟩, rfl⟩ := applied
  have unknown : ∀ k, k ∈ v.hist.staged ∨ k ∈ v.hist.currents → k ≠ key := by
    intro k hk
    obtain ⟨t, ht, rfl⟩ := inv.known k hk
    exact freshKey t ht
  have grow {s : SessionId} (h : v.CutOver s) (t : Taken) :
      CutOver { v with hist := { v.hist with taken := t :: v.hist.taken } } s :=
    h.of_grown (List.subset_cons_self _ _) (List.Subset.refl _)
  have cached {i : Fin 4} {e e' : HsCacheEntry}
      (he : Function.update v.cache v.cacheNext (some e') i = some e) :
      e = e' ∨ v.cache i = some e := by
    by_cases same : i = v.cacheNext
    · subst same
      rw [Function.update_self] at he
      exact .inl (Option.some_inj.mp he).symm
    · rw [Function.update_of_ne same] at he
      exact .inr he
  refine { inv with
    known := fun k hk => ?_
    firstKey := fun t ht first sent => ?_
    firstSent := fun i e he => ?_
    unspent := fun i e he => ?_
    spentRekey := fun i e he => ?_
    readyWaits := fun t ht sent unpromoted => ?_
    rotateFresh := fun h phase t ht session => ?_
    openFresh := fun s opened t ht session => ?_
    commitSent := fun s sent => grow (inv.commitSent s sent) _
    armedCurrent := fun armed => ?_
    settled := fun ready waits => ?_
    cutover := fun h phase => ?_ }
  · obtain ⟨t, ht, same⟩ := inv.known k hk
    exact ⟨t, List.mem_cons_of_mem _ ht, same⟩
  · rcases List.mem_cons.mp ht with rfl | old
    · obtain ⟨ct, sent⟩ := sent
      obtain ⟨u, hu, same, -⟩ := led.respTaken _ _ sent
      exact absurd same (fresh u hu)
    · obtain ⟨ready, current⟩ := inv.firstKey t old first sent
      refine ⟨ready, fun none => ?_⟩
      simpa only [ready, if_true] using current none
  · rcases cached he with rfl | old
    · intro _ promoted
      cases promoted
    · exact inv.firstSent i e old
  · rcases cached he with rfl | old
    · intro _ promoted
      exact unknown key (.inl (ses.promotedStaged key promoted)) rfl
    · exact inv.unspent i e old
  · rcases cached he with rfl | old
    · intro _ promoted
      cases promoted
    · exact fun commits promoted => grow (inv.spentRekey i e old commits promoted) _
  · rcases List.mem_cons.mp ht with rfl | old
    · obtain ⟨u, hu, same, -⟩ := ses.readyStaged _ sent
      exact absurd same (fresh u hu)
    · exact inv.readyWaits t old sent unpromoted
  · rcases List.mem_cons.mp ht with rfl | old
    · exact fun staged => unknown key (.inl staged) rfl
    · exact inv.rotateFresh h phase t old session
  · rcases List.mem_cons.mp ht with rfl | old
    · exact fun current => unknown key (.inr current) rfl
    · exact inv.openFresh s opened t old session
  · cases ready : v.rReady
    · simp only [ready, Bool.false_eq_true, if_false] at armed ⊢
      exact inv.armedCurrent armed
    · simp [ready] at armed
  · rw [inv.settled ready waits]
    split <;> rfl
  · obtain ⟨t, ht, session, next, halfWay⟩ := inv.cutover h phase
    refine ⟨t, List.mem_cons_of_mem _ ht, session, next, ?_⟩
    dsimp only
    split <;> exact halfWay

/-- A cache entry after the promotion of the entry in `slot`. -/
theorem cached_promoteRes {slot i : Fin 4} {e x : HsCacheEntry}
    (here : (v.promoteRes slot e).cache i = some x) :
    (i = slot ∧ x = spent e) ∨ (i ≠ slot ∧ v.cache i = some x) := by
  by_cases same : i = slot
  · subst same
    simp only [promoteRes, Function.update_self, Option.some_inj] at here
    exact .inl ⟨rfl, here.symm⟩
  · simp only [promoteRes, Function.update_of_ne same] at here
    exact .inr ⟨same, here⟩

/-- Answering a first handshake for the first time puts its key in use at the responder. -/
theorem overlap_replyFirst (led : Ledger P v) (ses : Sessions v) (inv : Overlap v)
    {slot : Fin 4} {e : HsCacheEntry} (cached : v.cache slot = some e)
    (first : e.requiresCommit = false) (unspent : e.keyPromoted = false)
    (notReady : v.rReady = false) :
    Overlap (promoteRes { v with toIni := .resp e.hello.session e.response :: v.toIni } slot e) := by
  obtain ⟨t, ht, rec⟩ := led.cacheTaken slot e cached
  have iniNotReady : v.iReady = false := by
    by_contra ready
    have := inv.resReady (by simpa using ready)
    rw [notReady] at this
    cases this
  have noAwait : ∀ h, v.phase ≠ .await h := fun h phase => by
    have := inv.ready_of_await phase
    rw [iniNotReady] at this
    cases this
  refine { inv with
    resReady := fun _ => rfl
    firstKey := fun u hu kind sent => ⟨rfl, fun _ => ?_⟩
    firstSent := fun i x here kind _ => ?_
    unspent := fun i x here still => ?_
    spentRekey := fun i x here commits _ => ?_
    commitSent := fun s sent => inv.commitSent s (by simpa [promoteRes] using sent)
    armedCurrent := by simp [promoteRes]
    settled := fun ready => absurd ready (by simp [promoteRes, iniNotReady])
    cutover := fun h phase => absurd phase (noAwait h) }
  · obtain ⟨ct, sent⟩ := sent
    rcases List.mem_cons.mp sent with new | old
    · injection new with session _
      have one : u = t := ses.taken_of_session hu ht (by rw [session, rec.hello])
      rw [one, ← rec.master unspent]
      rfl
    · have := (inv.firstKey u hu kind ⟨ct, old⟩).1
      rw [notReady] at this
      cases this
  · rcases cached_promoteRes here with ⟨-, rfl⟩ | ⟨-, old⟩
    · exact ⟨_, List.mem_cons_self⟩
    · obtain ⟨ct, sent⟩ := inv.firstSent i x old kind ‹_›
      exact ⟨ct, List.mem_cons_of_mem _ sent⟩
  · rcases cached_promoteRes here with ⟨-, rfl⟩ | ⟨-, old⟩
    · cases still
    · exact inv.unspent i x old still
  · rcases cached_promoteRes here with ⟨-, rfl⟩ | ⟨-, old⟩
    · exact absurd commits (by simp [spent, first])
    · exact inv.spentRekey i x old commits ‹_›

theorem overlap_reply (led : Ledger P v) (ses : Sessions v) (inv : Overlap v) {slot : Fin 4}
    {e : HsCacheEntry} (kind : OneKind v (.reply slot e))
    (applied : v.apply P (.reply slot e) = some v') : Overlap v' := by
  simp only [apply, Option.ite_none_right_eq_some, Option.some_inj] at applied
  obtain ⟨cached, rfl⟩ := applied
  split
  · rename_i again
    refine { inv with
      firstKey := fun t ht first sent => ?_
      firstSent := fun i x here first promoted => ?_
      commitSent := fun s sent => inv.commitSent s (by simpa using sent) }
    · obtain ⟨ct, sent⟩ := sent
      rcases List.mem_cons.mp sent with new | old
      · injection new with session _
        obtain ⟨u, hu, rec⟩ := led.cacheTaken slot e cached
        have one : t = u := ses.taken_of_session ht hu (by rw [session, rec.hello])
        have kind : e.requiresCommit = false := by rw [rec.rotation, ← one, first]
        have promoted : e.keyPromoted = true := by simpa [kind] using again
        obtain ⟨ct', before⟩ := inv.firstSent slot e cached kind promoted
        exact inv.firstKey t ht first ⟨ct', by rw [session]; exact before⟩
      · exact inv.firstKey t ht first ⟨ct, old⟩
    · obtain ⟨ct, sent⟩ := inv.firstSent i x here first promoted
      exact ⟨ct, List.mem_cons_of_mem _ sent⟩
  · rename_i fresh
    simp only [Bool.or_eq_true, not_or, Bool.not_eq_true] at fresh
    refine overlap_replyFirst led ses inv cached fresh.1 fresh.2 ?_
    by_contra ready
    have := kind (by simpa using ready)
    simp [fresh.1, fresh.2] at this

/-- The responder cuts over to the key the initiator waits for. -/
theorem overlap_readyCutover (led : Ledger P v) (ses : Sessions v) (inv : Overlap v)
    {slot : Fin 4} {e : HsCacheEntry} (sent : .ready e.hello.session ∈ v.toRes)
    (cached : v.cache slot = some e) (unspent : e.keyPromoted = false)
    (commits : e.requiresCommit = true) :
    Overlap { promoteRes { v with toIni := .commit e.hello.session :: v.toIni } slot e with
      hist := { v.hist with readyPromoted := e.masterKey :: v.hist.readyPromoted } } := by
  obtain ⟨t, ht, rec⟩ := led.cacheTaken slot e cached
  have key : e.masterKey = t.key := rec.master unspent
  have unpromoted : t.key ∉ v.hist.readyPromoted := key ▸ inv.unspent slot e cached unspent
  obtain ⟨h, phase, session⟩ := inv.readyWaits t ht (by rw [rec.hello]; exact sent) unpromoted
  have ready := inv.ready_of_await phase
  have grow {s : SessionId} (old : v.CutOver s) :
      CutOver { promoteRes { v with toIni := .commit e.hello.session :: v.toIni } slot e with
        hist := { v.hist with readyPromoted := e.masterKey :: v.hist.readyPromoted } } s :=
    old.of_grown (List.Subset.refl _) (List.subset_cons_self _ _)
  have now : CutOver { promoteRes { v with toIni := .commit e.hello.session :: v.toIni } slot e with
      hist := { v.hist with readyPromoted := e.masterKey :: v.hist.readyPromoted } }
      e.hello.session :=
    ⟨t, ht, by rw [rec.hello], by rw [← key]; exact List.mem_cons_self⟩
  refine { inv with
    resReady := fun _ => rfl
    firstKey := fun u hu kind sent => ⟨rfl, fun none => absurd none (by simp)⟩
    firstSent := fun i x here kind promoted => ?_
    unspent := fun i x here still => ?_
    spentRekey := fun i x here kind promoted => ?_
    readyWaits := fun u hu readySent other => ?_
    commitSent := fun s sent => ?_
    armedCurrent := by simp [promoteRes]
    settled := fun _ waits => absurd phase (waits h)
    cutover := fun h' phase' => ?_ }
  · rcases cached_promoteRes here with ⟨-, rfl⟩ | ⟨-, old⟩
    · exact absurd kind (by simp [spent, commits])
    · obtain ⟨ct, before⟩ := inv.firstSent i x old kind promoted
      exact ⟨ct, List.mem_cons_of_mem _ before⟩
  · rcases cached_promoteRes here with ⟨-, rfl⟩ | ⟨other, old⟩
    · cases still
    · -- Another entry belongs to another session, hence to another key.
      obtain ⟨u, hu, rec'⟩ := led.cacheTaken i x old
      refine List.not_mem_cons_of_ne_of_not_mem (fun same => other ?_) (inv.unspent i x old still)
      have one := led.taken_of_key hu ht (by rw [← rec'.master still, same, key])
      exact led.distinct i slot x e old cached (by rw [← rec'.hello, ← rec.hello, one])
  · rcases cached_promoteRes here with ⟨-, rfl⟩ | ⟨-, old⟩
    · exact now
    · exact grow (inv.spentRekey i x old kind promoted)
  · exact inv.readyWaits u hu readySent fun old => other (List.mem_cons_of_mem _ old)
  · rcases List.mem_cons.mp sent with new | old
    · cases new
      exact now
    · exact grow (inv.commitSent s old)
  · rw [promoteRes] at phase'
    obtain rfl : h = h' := Phase.await.inj (phase.symm.trans phase')
    obtain ⟨u, hu, session', next, halfWay⟩ := inv.cutover h phase
    have one : u = t := ses.taken_of_session hu ht (session'.trans session)
    subst one
    have together : v.iKeys.current = v.rKeys.current := by
      rcases halfWay with ⟨same, -⟩ | ⟨-, -, promoted⟩
      · exact same
      · exact absurd promoted unpromoted
    refine ⟨u, hu, session', next, .inr ⟨?_, together.symm, ?_⟩⟩
    · exact congrArg some key
    · rw [← key]
      exact List.mem_cons_self

theorem overlap_ready (led : Ledger P v) (ses : Sessions v) (inv : Overlap v) {slot : Fin 4}
    {e : HsCacheEntry} (applied : v.apply P (.ready slot e) = some v') : Overlap v' := by
  simp only [apply, Option.ite_none_right_eq_some, Option.some_inj] at applied
  obtain ⟨⟨sent, cached, commits, -⟩, rfl⟩ := applied
  split
  · rename_i promoted
    refine { inv with
      firstKey := fun t ht first sent => inv.firstKey t ht first (by simpa using sent)
      firstSent := fun i x here kind spent => ?_
      commitSent := fun s sent => ?_ }
    · obtain ⟨ct, before⟩ := inv.firstSent i x here kind spent
      exact ⟨ct, List.mem_cons_of_mem _ before⟩
    · rcases List.mem_cons.mp sent with new | old
      · cases new
        exact inv.spentRekey slot e cached commits promoted
      · exact inv.commitSent s old
  · rename_i unspent
    exact overlap_readyCutover led ses inv sent cached (by simpa using unspent) commits

/-- PREV is discarded at the responder only once the initiator uses CURRENT. -/
theorem overlap_discardRes (inv : Overlap v) (applied : v.apply P .discardRes = some v') :
    Overlap v' := by
  simp only [apply, Option.ite_none_right_eq_some, Option.some_inj] at applied
  obtain ⟨armed, rfl⟩ := applied
  refine { inv with
    armedCurrent := by simp
    cutover := fun h phase => ?_ }
  obtain ⟨t, ht, session, next, together | ⟨current, -, -⟩⟩ := inv.cutover h phase
  · exact ⟨t, ht, session, next, .inl together⟩
  · obtain ⟨k, known, same⟩ := inv.armedCurrent armed
    have used : t.key ∈ v.hist.currents :=
      Option.some_inj.mp (current.symm.trans same) ▸ known
    exact absurd used (inv.openFresh h.session (by rw [phase]; rfl) t ht session)

theorem overlap_arm (led : Ledger P v) (inv : Overlap v) {st : KeepaliveStatus}
    (applied : v.apply P (.arm st) = some v') : Overlap v' := by
  simp only [apply, Option.ite_none_right_eq_some, Option.some_inj] at applied
  obtain ⟨⟨sent, online, fp⟩, rfl⟩ := applied
  refine { inv with armedCurrent := fun _ => ?_ }
  obtain ⟨k, known, same⟩ := led.keepaliveCurrent st sent online
  obtain ⟨current, here, digest⟩ := Option.map_eq_some_iff.mp fp
  exact ⟨k, known, by rw [here, P.sha256_injective (digest.trans same)]⟩

theorem overlap_sendRes (inv : Overlap v) {m : Msg} (applied : v.apply P (.sendRes m) = some v') :
    Overlap v' := by
  simp only [apply, Option.ite_none_right_eq_some, Option.some_inj] at applied
  obtain ⟨signed, rfl⟩ := applied
  refine { inv with
    firstKey := fun t ht first sent => inv.firstKey t ht first ?_
    firstSent := fun i e here first promoted => ?_
    commitSent := fun s sent => inv.commitSent s ?_ }
  · obtain ⟨ct, sent⟩ := sent
    refine ⟨ct, (List.mem_cons.mp sent).resolve_left ?_⟩
    rintro rfl
    simp [signsRes] at signed
  · obtain ⟨ct, before⟩ := inv.firstSent i e here first promoted
    exact ⟨ct, List.mem_cons_of_mem _ before⟩
  · refine (List.mem_cons.mp sent).resolve_left ?_
    rintro rfl
    simp [signsRes] at signed

theorem overlap_apply {ev : Event} (led : Ledger P v) (ses : Sessions v) (inv : Overlap v)
    (kind : OneKind v ev) (h : v.apply P ev = some v') : Overlap v' := by
  cases ev with
  | sendIni m => exact overlap_sendIni inv h
  | draw x rekey => exact overlap_draw led inv kind h
  | leave => exact overlap_leave inv h
  | accept x ct => exact overlap_accept led ses inv kind h
  | stage x ct => exact overlap_stage led ses inv h
  | commit x key => exact overlap_commit ses inv h
  | commitFails x =>
    rw [overlap_commitFails inv] at h
    cases h
  | sendRes m => exact overlap_sendRes inv h
  | take x key => exact overlap_take led ses inv kind h
  | reply slot e => exact overlap_reply led ses inv kind h
  | ready slot e => exact overlap_ready led ses inv h
  | arm st => exact overlap_arm led inv h
  | discardRes => exact overlap_discardRes inv h
  | discardIni =>
    cases h
    exact { inv with }
  | disarm =>
    cases h
    exact { inv with armedCurrent := by simp }
  | clear =>
    simp only [apply, Option.ite_none_right_eq_some, Option.some_inj] at h
    obtain ⟨-, rfl⟩ := h
    exact { inv with firstSent := by simp, unspent := by simp, spentRekey := by simp }
  | abandon | retryIni | restartIni | retryRes | restartRes => exact kind.elim

theorem overlap_reachable (run : Transition.ReachableWith (View.apply P) OneKind .start v) :
    Overlap v := by
  refine (run.invariant (I := fun v => Ledger P v ∧ Sessions v ∧ Overlap v)
    ⟨ledger_start, sessions_start, overlap_start⟩ fun _ _ _ inv kind h => ?_).2.2
  obtain ⟨led, ses, ovl⟩ := inv
  exact ⟨ledger_apply led h, sessions_apply led ses (freshSessions_of_oneKind kind) h,
    overlap_apply led ses ovl kind h⟩

/-- `key` is in one of the slots. -/
def Holds (s : KeySlots (Option TrafficKey)) (key : TrafficKey) : Prop :=
  s.prev = some key ∨ s.current = some key ∨ s.next = some key

/-- With a key in use on both sides, each side holds the CURRENT key of the other. -/
theorem Overlap.holds (inv : Overlap v) (ready : v.iReady = true) :
    (∃ k, v.iKeys.current = some k ∧ Holds v.rKeys k) ∧
      ∃ k, v.rKeys.current = some k ∧ Holds v.iKeys k := by
  obtain ⟨k, current⟩ := inv.iniCurrent ready
  have together (same : v.iKeys.current = v.rKeys.current) :
      (∃ k, v.iKeys.current = some k ∧ Holds v.rKeys k) ∧
        ∃ k, v.rKeys.current = some k ∧ Holds v.iKeys k :=
    ⟨⟨k, current, .inr (.inl (same ▸ current))⟩, k, same ▸ current, .inr (.inl current)⟩
  by_cases waits : ∃ h, v.phase = .await h
  · obtain ⟨h, phase⟩ := waits
    obtain ⟨t, -, -, next, ⟨same, -⟩ | ⟨moved, prev, -⟩⟩ := inv.cutover h phase
    · exact together same
    · exact ⟨⟨k, current, .inl (prev.trans current)⟩, t.key, moved, .inr (.inr next)⟩
  · exact together (inv.settled ready fun h phase => waits ⟨h, phase⟩)

end View

namespace World

variable {P : Primitives} {w : World} {a : Act}

/-- `key` is in a valid slot. -/
def holds (s : KeySlots KeySlot) (key : TrafficKey) : Bool :=
  s.prev.key? == some key || s.current.key? == some key || s.next.key? == some key

/-- The peer can decrypt what the owner of `s` encrypts. -/
def decryptable (s peer : KeySlots KeySlot) : Bool := s.current.key?.any (holds peer)

/-- No direction of traffic is undecryptable. -/
def KeyOverlap (w : World) : Prop :=
  w.ini.b.keyReady = true → w.res.b.keyReady = true →
    decryptable w.ini.b.slots w.res.b.slots = true ∧ decryptable w.res.b.slots w.ini.b.slots = true

instance (w : World) : Decidable w.KeyOverlap :=
  decidable_of_iff ((!w.ini.b.keyReady || !w.res.b.keyReady ||
      decryptable w.ini.b.slots w.res.b.slots && decryptable w.res.b.slots w.ini.b.slots) = true)
    (by
      unfold KeyOverlap
      cases w.ini.b.keyReady <;> cases w.res.b.keyReady <;> simp)

/-- Sessions do not recur, the RESP that ends a first handshake answers a HELLO the responder took
without a key in use, an old first handshake is not answered with a key in use, and no worker stops
inside the commit wait.  Restarts and manual retries are left out. -/
def OneKind (w : World) : Act → Prop
  | .workIni d => (∀ draw ∈ d.session, ∀ h ∈ w.hist.drawn, h.session ≠ draw.1) ∧
      (∀ s ∈ w.ini.completes, ∀ t ∈ w.hist.taken, t.hello.session = s → t.rotation = false) ∧
      (w.ini.commitWaits.isSome = true → w.ini.b.threadExitSig = false)
  | .workRes _ => (∀ h ∈ w.res.takes, ∀ t ∈ w.hist.taken, t.hello.session ≠ h.session) ∧
      ∀ e ∈ w.res.answersFrom, w.res.b.keyReady = true →
        e.requiresCommit = true ∨ e.keyPromoted = true
  | .retryIni _ | .retryRes _ | .restartIni _ _ | .restartRes _ _ => False
  | _ => True

-- Decided through `Bool`, which the kernel evaluates quickly.
instance (w : World) : DecidablePred w.OneKind
  | .workIni d => decidable_of_iff
      (((d.session.all fun draw => w.hist.drawn.all fun h => h.session != draw.1) &&
        (w.ini.completes.all fun s => w.hist.taken.all fun t =>
          t.hello.session != s || !t.rotation) &&
        (w.ini.commitWaits.isNone || !w.ini.b.threadExitSig)) = true)
      (by
        simp only [OneKind, Option.all_eq_true, Bool.and_eq_true, Option.mem_def, and_assoc]
        refine and_congr (by simp) (and_congr ?_ ?_)
        · simp [or_iff_not_imp_left]
        · cases w.ini.commitWaits <;> simp)
  | .workRes _ => decidable_of_iff
      (((w.res.takes.all fun h => w.hist.taken.all fun t => t.hello.session != h.session) &&
        w.res.answersFrom.all fun e =>
          !w.res.b.keyReady || e.requiresCommit || e.keyPromoted) = true)
      (by
        simp only [OneKind, Option.all_eq_true, Bool.and_eq_true, Option.mem_def]
        refine and_congr (by simp) ?_
        cases w.res.b.keyReady <;> simp)
  | .retryIni _ | .retryRes _ | .restartIni _ _ | .restartRes _ _ => .isFalse id
  | .tickIni _ | .tickRes _ | .deliverIni _ | .deliverRes _ | .requestIni | .requestRes
  | .stopIni | .stopRes | .startIni | .startRes => .isTrue trivial

theorem oneKind_caused {v : View} {ev : Event} (kind : w.OneKind a) (caused : Caused w a v ev) :
    View.OneKind v ev := by
  cases ev with
  | draw h rekey =>
    obtain ⟨⟨d, rfl, drawn⟩, hist⟩ := caused
    intro x hx
    exact kind.1 _ drawn x (hist ▸ hx)
  | take h key =>
    obtain ⟨⟨d, rfl⟩, takes, rfl⟩ := caused
    exact kind.1 h takes
  | accept h ct =>
    obtain ⟨⟨d, rfl⟩, completes, rfl⟩ := caused
    exact kind.2.1 _ completes
  | reply slot e =>
    obtain ⟨⟨d, rfl⟩, ⟨answers, rfl⟩ | ⟨-, -, -, rekey⟩⟩ := caused
    · exact kind.2 e answers
    · exact fun ready => .inl (rekey.trans ready)
  | abandon h =>
    obtain ⟨⟨d, rfl⟩, stop, s, kem, t, rx, next, pc⟩ := caused
    have running := kind.2.2 (by simp [Node.commitWaits, pc])
    rw [stop] at running
    cases running
  | retryIni =>
    obtain ⟨id, rfl⟩ := caused
    exact kind
  | restartIni =>
    obtain ⟨now, id, rfl⟩ := caused
    exact kind
  | retryRes =>
    obtain ⟨⟨id, rfl⟩, -⟩ := caused
    exact kind
  | restartRes =>
    obtain ⟨⟨now, id, rfl⟩, -⟩ := caused
    exact kind
  | _ => trivial

theorem decryptable_of_holds {s peer : KeySlots KeySlot} {k : TrafficKey}
    (current : (keysOf s).current = some k) (held : View.Holds (keysOf peer) k) :
    decryptable s peer = true := by
  refine (Option.any_eq_true _ _).mpr ⟨k, current, ?_⟩
  rcases held with here | here | here
  · simp only [holds, show peer.prev.key? = some k from here, beq_self_eq_true, Bool.true_or]
  · simp only [holds, show peer.current.key? = some k from here, beq_self_eq_true, Bool.true_or,
      Bool.or_true]
  · simp only [holds, show peer.next.key? = some k from here, beq_self_eq_true, Bool.or_true]

/-- **Key overlap** in every run in which both sides take each handshake for the same kind. -/
theorem keys_overlap (P : Primitives) (p : Parties) (w : World)
    (run : Transition.ReachableWith (step P) OneKind (initial p) w) : w.KeyOverlap := by
  have inv := View.overlap_reachable (reachable_view (fun _ _ _ _ => oneKind_caused) run)
  intro iniReady _
  obtain ⟨⟨k, mine, held⟩, k', theirs, held'⟩ := inv.holds iniReady
  exact ⟨decryptable_of_holds mine held, decryptable_of_holds theirs held'⟩

/-- A first handshake and a rekey up to the cutover of the responder. -/
def sampleCutover : List Act :=
  Act.greeting ++ Act.rekeyToCommitWait 2 102 ++ .deliverRes (.ready 2) :: Act.serves 0

theorem keys_overlap_sample :
    ((Transition.runWith (step samplePrimitives) OneKind (initial sampleParties)
      sampleCutover).map fun w => decide w.KeyOverlap) = some true := by
  obtain ⟨w, h⟩ := Option.isSome_iff_exists.mp (show (Transition.runWith (step samplePrimitives)
    OneKind (initial sampleParties) sampleCutover).isSome = true by decide +kernel)
  rw [h, Option.map_some, Option.some_inj, decide_eq_true_eq]
  exact keys_overlap samplePrimitives _ w (.of_runWith _ h)

/-- The RESP of a first handshake is lost, and the initiator greets a responder that is ready. -/
def lostFirstResp : List Act :=
  Act.opens 1 ++ Act.serves 101 ++ [.tickIni 15001, .ini, .ini, .ini, .tickIni 15000] ++
    Act.opens 2 ++ .res :: Act.serves 102 ++ [.deliverIni (Act.resp 2 102), .ini]

theorem lost_first_resp_breaks_overlap :
    ¬ ∀ w, Transition.Reachable (step samplePrimitives) (initial sampleParties) w →
      w.KeyOverlap :=
  Transition.not_always_of_run lostFirstResp (by decide +kernel)

end World

end NeEncryptor.Pqc
