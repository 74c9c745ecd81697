import Mathlib.Data.List.Nodup
import NeEncryptor.Pqc.Cutover

/-!
# What the exchanged messages mean

`Ledger` holds in every run: a RESP, a cache entry or a KEEPALIVE stands for something the history
recorded.  `Sessions` adds what holds once session ids do not recur: a READY proves that the
initiator staged the key its session agreed on.
-/

namespace NeEncryptor.Pqc

namespace View

variable {P : Primitives} {v v' : View}

/-- A cache entry or a RESP that records what was agreed in `t`. -/
structure Records (t : Taken) (e : HsCacheEntry) : Prop where
  hello : t.hello = e.hello
  response : e.response = ⟨t.hello.pk, t.key⟩
  rotation : e.requiresCommit = t.rotation
  master : e.keyPromoted = false → e.masterKey = t.key

/-- What every message and cache entry stands for. -/
structure Ledger (P : Primitives) (v : View) : Prop where
  helloDrawn : ∀ h, .hello h ∈ v.toRes → h ∈ v.hist.drawn
  phaseDrawn : ∀ h, v.phase.hello = some h → h ∈ v.hist.drawn
  takenDrawn : ∀ t ∈ v.hist.taken, t.hello ∈ v.hist.drawn
  takenKeys : (v.hist.taken.map Taken.key).Nodup
  respTaken : ∀ s ct, .resp s ct ∈ v.toIni →
    ∃ t ∈ v.hist.taken, t.hello.session = s ∧ ct = ⟨t.hello.pk, t.key⟩
  cacheTaken : ∀ i e, v.cache i = some e → ∃ t ∈ v.hist.taken, Records t e
  distinct : ∀ i j e e', v.cache i = some e → v.cache j = some e' →
    e.hello.session = e'.hello.session → i = j
  currentKnown : v.iReady = true → ∀ k, v.iKeys.current = some k → k ∈ v.hist.currents
  keepaliveCurrent : ∀ st, .keepalive st ∈ v.toRes → st.state = .online →
    ∃ k ∈ v.hist.currents, st.keyFingerprint = P.sha256 k

theorem ledger_start : Ledger P .start := by
  constructor <;> simp [start, Phase.hello]

theorem Ledger.taken_of_key (inv : Ledger P v) {t u : Taken} (ht : t ∈ v.hist.taken)
    (hu : u ∈ v.hist.taken) (same : t.key = u.key) : t = u :=
  List.inj_on_of_nodup_map inv.takenKeys ht hu same

theorem spent_records {t : Taken} {e : HsCacheEntry} (h : Records t e) : Records t (spent e) :=
  ⟨h.hello, h.response, h.rotation, by simp [spent]⟩

theorem Ledger.cache_update (inv : Ledger P v) (slot : Fin 4) {e' : HsCacheEntry}
    (he : ∃ t ∈ v.hist.taken, Records t e') :
    ∀ i x, Function.update v.cache slot (some e') i = some x → ∃ t ∈ v.hist.taken, Records t x := by
  intro i x hx
  by_cases same : i = slot
  · subst same
    rw [Function.update_self] at hx
    cases hx
    exact he
  · rw [Function.update_of_ne same] at hx
    exact inv.cacheTaken i x hx

/-- Writing a cache slot keeps the sessions of the cache apart, if no other slot has the new one. -/
theorem distinct_update {cache : Fin 4 → Option HsCacheEntry} {slot : Fin 4} {e' : HsCacheEntry}
    (distinct : ∀ i j e e', cache i = some e → cache j = some e' →
      e.hello.session = e'.hello.session → i = j)
    (other : ∀ i e, i ≠ slot → cache i = some e → e.hello.session ≠ e'.hello.session) :
    ∀ i j x y, Function.update cache slot (some e') i = some x →
      Function.update cache slot (some e') j = some y →
      x.hello.session = y.hello.session → i = j := by
  intro i j x y hx hy same
  by_cases hi : i = slot <;> by_cases hj : j = slot
  · rw [hi, hj]
  · subst hi
    rw [Function.update_self] at hx
    rw [Function.update_of_ne hj] at hy
    cases hx
    exact absurd same.symm (other j y hj hy)
  · subst hj
    rw [Function.update_self] at hy
    rw [Function.update_of_ne hi] at hx
    cases hy
    exact absurd same (other i x hi hx)
  · rw [Function.update_of_ne hi] at hx
    rw [Function.update_of_ne hj] at hy
    exact distinct i j x y hx hy same

theorem Ledger.promoteRes (inv : Ledger P v) {slot : Fin 4} {e : HsCacheEntry}
    (he : v.cache slot = some e) : Ledger P (v.promoteRes slot e) := by
  obtain ⟨t, ht, rec⟩ := inv.cacheTaken slot e he
  refine { inv with
    cacheTaken := inv.cache_update slot ⟨t, ht, spent_records rec⟩
    distinct := distinct_update inv.distinct fun i x other hx same => ?_ }
  exact other (inv.distinct i slot x e hx he same)

theorem ledger_apply {ev : Event} (inv : Ledger P v) (h : v.apply P ev = some v') :
    Ledger P v' := by
  cases ev with
  | sendIni m =>
    simp only [apply, Option.ite_none_right_eq_some, Option.some_inj] at h
    obtain ⟨signed, rfl⟩ := h
    refine { inv with
      helloDrawn := fun x hx => ?_
      keepaliveCurrent := fun st hst online => ?_ }
    · rcases List.mem_cons.mp hx with rfl | hx
      · exact inv.phaseDrawn x (Phase.hello_of_sending signed)
      · exact inv.helloDrawn x hx
    · rcases List.mem_cons.mp hst with rfl | hst
      · obtain ⟨ready, fp⟩ := signed online
        obtain ⟨k, hk, same⟩ := Option.map_eq_some_iff.mp fp
        exact ⟨k, inv.currentKnown ready k hk, same.symm⟩
      · exact inv.keepaliveCurrent st hst online
  | draw x rekey =>
    simp only [apply, Option.ite_none_right_eq_some, Option.some_inj] at h
    obtain ⟨-, rfl⟩ := h
    refine { inv with
      helloDrawn := fun y hy => List.mem_cons_of_mem _ (inv.helloDrawn y hy)
      phaseDrawn := fun y hy => ?_
      takenDrawn := fun t ht => List.mem_cons_of_mem _ (inv.takenDrawn t ht) }
    have : y = x := by
      cases rekey <;> simpa [Phase.hello, eq_comm] using hy
    exact this ▸ List.mem_cons_self
  | leave =>
    simp only [apply, Option.ite_none_right_eq_some, Option.some_inj] at h
    obtain ⟨-, rfl⟩ := h
    exact { inv with phaseDrawn := by simp [Phase.hello] }
  | accept x ct =>
    simp only [apply, Option.ite_none_right_eq_some, Option.some_inj] at h
    obtain ⟨-, rfl⟩ := h
    refine { inv with
      currentKnown := fun _ k hk => ?_
      keepaliveCurrent := fun st hst online => ?_ }
    · cases hk
      exact List.mem_cons_self
    · obtain ⟨k, hk, same⟩ := inv.keepaliveCurrent st hst online
      exact ⟨k, List.mem_cons_of_mem _ hk, same⟩
  | stage x ct =>
    simp only [apply, Option.ite_none_right_eq_some, Option.some_inj] at h
    obtain ⟨⟨phase, -, -⟩, rfl⟩ := h
    refine { inv with phaseDrawn := fun y hy => inv.phaseDrawn y ?_ }
    simpa [phase, Phase.hello] using hy
  | commit x key =>
    simp only [apply, Option.ite_none_right_eq_some, Option.some_inj] at h
    obtain ⟨-, rfl⟩ := h
    refine { inv with
      phaseDrawn := by simp [Phase.hello]
      currentKnown := fun _ k hk => ?_
      keepaliveCurrent := fun st hst online => ?_ }
    · cases hk
      exact List.mem_cons_self
    · obtain ⟨k, hk, same⟩ := inv.keepaliveCurrent st hst online
      exact ⟨k, List.mem_cons_of_mem _ hk, same⟩
  | commitFails x =>
    simp only [apply, Option.ite_none_right_eq_some, Option.some_inj] at h
    obtain ⟨⟨phase, -⟩, rfl⟩ := h
    refine { inv with phaseDrawn := fun y hy => inv.phaseDrawn y ?_ }
    simpa [phase, Phase.hello] using hy
  | abandon x =>
    simp only [apply, Option.ite_none_right_eq_some, Option.some_inj] at h
    obtain ⟨phase, rfl⟩ := h
    refine { inv with phaseDrawn := fun y hy => inv.phaseDrawn y ?_ }
    simpa [phase, Phase.hello] using hy
  | discardIni =>
    cases h
    exact { inv with }
  | retryIni =>
    cases h
    exact { inv with currentKnown := by simp }
  | restartIni =>
    cases h
    exact { inv with phaseDrawn := by simp [Phase.hello], currentKnown := by simp }
  | sendRes m =>
    simp only [apply, Option.ite_none_right_eq_some, Option.some_inj] at h
    obtain ⟨signed, rfl⟩ := h
    refine { inv with respTaken := fun s ct hm => ?_ }
    rcases List.mem_cons.mp hm with rfl | hm
    · simp [signsRes] at signed
    · exact inv.respTaken s ct hm
  | take x key =>
    simp only [apply, Option.ite_none_right_eq_some, Option.some_inj] at h
    obtain ⟨⟨sent, unknown, fresh⟩, rfl⟩ := h
    have grown {p : Taken → Prop} (hp : ∃ t ∈ v.hist.taken, p t) :
        ∃ t ∈ (⟨x, key, v.rReady⟩ :: v.hist.taken : List Taken), p t := by
      obtain ⟨t, ht, rest⟩ := hp
      exact ⟨t, List.mem_cons_of_mem _ ht, rest⟩
    refine { inv with
      takenDrawn := fun t ht => ?_
      takenKeys := ?_
      respTaken := fun s ct hm => grown (inv.respTaken s ct hm)
      cacheTaken := fun i e he => ?_
      distinct := distinct_update inv.distinct fun i e _ he => unknown i e he }
    · rcases List.mem_cons.mp ht with rfl | ht
      · exact inv.helloDrawn x sent
      · exact inv.takenDrawn t ht
    · refine List.nodup_cons.mpr ⟨?_, inv.takenKeys⟩
      intro member
      obtain ⟨t, ht, same⟩ := List.mem_map.mp member
      exact fresh t ht same
    · by_cases same : i = v.cacheNext
      · subst same
        simp only [Function.update_self, Option.some_inj] at he
        subst he
        exact ⟨_, List.mem_cons_self, rfl, rfl, rfl, fun _ => rfl⟩
      · simp only [Function.update_of_ne same] at he
        exact grown (inv.cacheTaken i e he)
  | reply slot e =>
    simp only [apply, Option.ite_none_right_eq_some, Option.some_inj] at h
    obtain ⟨cached, rfl⟩ := h
    obtain ⟨t, ht, rec⟩ := inv.cacheTaken slot e cached
    have sent : Ledger P { v with toIni := .resp e.hello.session e.response :: v.toIni } := by
      refine { inv with respTaken := fun s ct hm => ?_ }
      rcases List.mem_cons.mp hm with same | hm
      · cases same
        exact ⟨t, ht, by rw [rec.hello], rec.response⟩
      · exact inv.respTaken s ct hm
    split
    · exact sent
    · exact sent.promoteRes cached
  | ready slot e =>
    simp only [apply, Option.ite_none_right_eq_some, Option.some_inj] at h
    obtain ⟨⟨-, cached, -, -⟩, rfl⟩ := h
    have sent : Ledger P { v with toIni := .commit e.hello.session :: v.toIni } :=
      { inv with respTaken := fun s ct hm => inv.respTaken s ct (by simpa using hm) }
    split
    · exact sent
    · exact { sent.promoteRes cached with }
  | arm st =>
    simp only [apply, Option.ite_none_right_eq_some, Option.some_inj] at h
    obtain ⟨-, rfl⟩ := h
    exact { inv with }
  | disarm =>
    cases h
    exact { inv with }
  | discardRes =>
    simp only [apply, Option.ite_none_right_eq_some, Option.some_inj] at h
    obtain ⟨-, rfl⟩ := h
    exact { inv with }
  | clear =>
    simp only [apply, Option.ite_none_right_eq_some, Option.some_inj] at h
    obtain ⟨-, rfl⟩ := h
    exact { inv with cacheTaken := by simp, distinct := by simp }
  | retryRes =>
    cases h
    exact { inv with }
  | restartRes =>
    cases h
    exact { inv with cacheTaken := by simp, distinct := by simp }

/-- No session id recurs, neither at the initiator that draws it nor at the responder that takes it
as new. -/
def FreshSessions (v : View) : Event → Prop
  | .draw h _ => ∀ x ∈ v.hist.drawn, x.session ≠ h.session
  | .take h _ => ∀ t ∈ v.hist.taken, t.hello.session ≠ h.session
  | _ => True

/-- A session stands for one HELLO and one key, and a READY for a staged key. -/
structure Sessions (v : View) : Prop where
  drawnSessions : (v.hist.drawn.map Hello.session).Nodup
  takenSessions : (v.hist.taken.map fun t => t.hello.session).Nodup
  readyStaged : ∀ s, .ready s ∈ v.toRes →
    ∃ t ∈ v.hist.taken, t.hello.session = s ∧ t.key ∈ v.hist.staged
  awaitStaged : ∀ h, v.phase = .await h →
    ∃ t ∈ v.hist.taken, t.hello.session = h.session ∧ t.key ∈ v.hist.staged
  promotedStaged : ∀ k ∈ v.hist.readyPromoted, k ∈ v.hist.staged

theorem sessions_start : Sessions .start := by
  constructor <;> simp [start]

theorem Sessions.taken_of_session (inv : Sessions v) {t u : Taken} (ht : t ∈ v.hist.taken)
    (hu : u ∈ v.hist.taken) (same : t.hello.session = u.hello.session) : t = u :=
  List.inj_on_of_nodup_map inv.takenSessions ht hu same

/-- The RESP of a session yields at the initiator the key the responder agreed on. -/
theorem Sessions.resp_key (led : Ledger P v) (inv : Sessions v) {h : Hello} {ct : Ciphertext}
    (drawn : h ∈ v.hist.drawn) (sent : .resp h.session ct ∈ v.toIni) :
    ∃ t ∈ v.hist.taken, t.hello = h ∧ P.decapsulate h.pk ct = t.key := by
  obtain ⟨t, ht, same, rfl⟩ := led.respTaken _ _ sent
  have hello : t.hello = h :=
    List.inj_on_of_nodup_map inv.drawnSessions (led.takenDrawn t ht) drawn same
  refine ⟨t, ht, hello, ?_⟩
  rw [hello]
  exact P.decapsulate_own h.pk t.key

/-- A READY that the responder acts on was signed after the key had been staged. -/
theorem Sessions.ready_staged (led : Ledger P v) (inv : Sessions v) {slot : Fin 4}
    {e : HsCacheEntry} (cached : v.cache slot = some e) (unspent : e.keyPromoted = false)
    (sent : .ready e.hello.session ∈ v.toRes) : e.masterKey ∈ v.hist.staged := by
  obtain ⟨t, ht, rec⟩ := led.cacheTaken slot e cached
  obtain ⟨u, hu, same, staged⟩ := inv.readyStaged _ sent
  have : u = t := inv.taken_of_session hu ht (by rw [same, rec.hello])
  rw [rec.master unspent, ← this]
  exact staged

/-- An event that adds at most READYs the phase allows, and leaves the history alone. -/
theorem Sessions.of_frame (inv : Sessions v) (hist : v'.hist = v.hist)
    (phase : ∀ h, v'.phase = .await h → v.phase = .await h)
    (sent : ∀ s, .ready s ∈ v'.toRes → .ready s ∈ v.toRes ∨ ∃ h, v.phase = .await h ∧
      h.session = s) : Sessions v' := by
  refine ⟨hist ▸ inv.drawnSessions, hist ▸ inv.takenSessions, fun s hs => ?_, fun h hh => ?_,
    hist ▸ inv.promotedStaged⟩
  · rw [hist]
    rcases sent s hs with old | ⟨h, hh, rfl⟩
    · exact inv.readyStaged s old
    · exact inv.awaitStaged h hh
  · rw [hist]
    exact inv.awaitStaged h (phase h hh)

theorem sessions_apply {ev : Event} (led : Ledger P v) (inv : Sessions v)
    (fresh : FreshSessions v ev) (h : v.apply P ev = some v') : Sessions v' := by
  cases ev with
  | sendIni m =>
    simp only [apply, Option.ite_none_right_eq_some, Option.some_inj] at h
    obtain ⟨signed, rfl⟩ := h
    refine inv.of_frame rfl (fun _ => id) fun s hs => ?_
    rcases List.mem_cons.mp hs with rfl | hs
    · right
      obtain ⟨session, idle⟩ := signed
      cases phase : v.phase <;> simp_all [Phase.openRotation, Phase.sending]
    · exact .inl hs
  | draw x rekey =>
    simp only [apply, Option.ite_none_right_eq_some, Option.some_inj] at h
    obtain ⟨-, rfl⟩ := h
    refine ⟨List.nodup_cons.mpr ⟨?_, inv.drawnSessions⟩, inv.takenSessions, inv.readyStaged, ?_,
      inv.promotedStaged⟩
    · intro member
      obtain ⟨y, hy, same⟩ := List.mem_map.mp member
      exact fresh y hy same
    · cases rekey <;> simp
  | leave | abandon x | commitFails x =>
    simp only [apply, Option.ite_none_right_eq_some, Option.some_inj] at h
    obtain ⟨-, rfl⟩ := h
    exact inv.of_frame rfl (by simp) fun s hs => .inl hs
  | accept x ct =>
    simp only [apply, Option.ite_none_right_eq_some, Option.some_inj] at h
    obtain ⟨-, rfl⟩ := h
    exact { inv with }
  | stage x ct =>
    simp only [apply, Option.ite_none_right_eq_some, Option.some_inj] at h
    obtain ⟨⟨phase, -, sent⟩, rfl⟩ := h
    have drawn : x ∈ v.hist.drawn := led.phaseDrawn x (by simp [phase, Phase.hello])
    obtain ⟨t, ht, hello, key⟩ := inv.resp_key led drawn sent
    refine { inv with
      readyStaged := fun s hs => ?_
      awaitStaged := fun y hy => ?_
      promotedStaged := fun k hk => List.mem_cons_of_mem _ (inv.promotedStaged k hk) }
    · obtain ⟨u, hu, same, staged⟩ := inv.readyStaged s hs
      exact ⟨u, hu, same, List.mem_cons_of_mem _ staged⟩
    · cases hy
      exact ⟨t, ht, by rw [hello], by rw [key]; exact List.mem_cons_self⟩
  | commit x key =>
    simp only [apply, Option.ite_none_right_eq_some, Option.some_inj] at h
    obtain ⟨-, rfl⟩ := h
    exact { inv with awaitStaged := by simp }
  | discardIni | retryIni | disarm | retryRes | restartRes =>
    cases h
    exact { inv with }
  | restartIni =>
    cases h
    exact { inv with awaitStaged := by simp }
  | sendRes m | arm st | discardRes | clear =>
    simp only [apply, Option.ite_none_right_eq_some, Option.some_inj] at h
    obtain ⟨-, rfl⟩ := h
    exact { inv with }
  | take x key =>
    simp only [apply, Option.ite_none_right_eq_some, Option.some_inj] at h
    obtain ⟨-, rfl⟩ := h
    refine { inv with
      takenSessions := List.nodup_cons.mpr ⟨?_, inv.takenSessions⟩
      readyStaged := fun s hs => ?_
      awaitStaged := fun y hy => ?_ }
    · intro member
      obtain ⟨t, ht, same⟩ := List.mem_map.mp member
      exact fresh t ht same
    · obtain ⟨t, ht, rest⟩ := inv.readyStaged s hs
      exact ⟨t, List.mem_cons_of_mem _ ht, rest⟩
    · obtain ⟨t, ht, rest⟩ := inv.awaitStaged y hy
      exact ⟨t, List.mem_cons_of_mem _ ht, rest⟩
  | reply slot e =>
    simp only [apply, Option.ite_none_right_eq_some, Option.some_inj] at h
    obtain ⟨-, rfl⟩ := h
    split <;> exact { inv with }
  | ready slot e =>
    simp only [apply, Option.ite_none_right_eq_some, Option.some_inj] at h
    obtain ⟨⟨sent, cached, -, -⟩, rfl⟩ := h
    by_cases spent : e.keyPromoted = true
    · rw [if_pos spent]
      exact { inv with }
    · rw [if_neg spent]
      have staged := inv.ready_staged led cached (by simpa using spent) sent
      refine { inv with promotedStaged := fun k hk => ?_ }
      rcases List.mem_cons.mp hk with rfl | hk
      · exact staged
      · exact inv.promotedStaged k hk

end View

end NeEncryptor.Pqc
