import NeEncryptor.Pqc.ResponderRefinement

/-!
# The world refines the cutover protocol

Every run of the two parties is, seen through `World.view`, a run of the cutover protocol; what every
run of the protocol keeps, every run of the program keeps.
-/

namespace NeEncryptor.Pqc

namespace Binding

variable {P : Primitives} {b b' b'' : Binding}

/-- A step that receives nothing and keeps a sleeper asleep. -/
structure Tidy (b b' : Binding) : Prop where
  queue : ∀ x ∈ b'.rxQueue, x ∈ b.rxQueue
  asleep : b.Asleep → b'.Asleep

theorem Tidy.refl (b : Binding) : Tidy b b := ⟨fun _ => id, id⟩

theorem Tidy.trans (first : Tidy b b') (second : Tidy b' b'') : Tidy b b'' :=
  ⟨fun x hx => first.queue x (second.queue x hx), fun h => second.asleep (first.asleep h)⟩

theorem Tidy.of_same (queue : ∀ x ∈ b'.rxQueue, x ∈ b.rxQueue)
    (giveUp : b'.handshakeGiveUp = b.handshakeGiveUp) (ready : b'.keyReady = b.keyReady) :
    Tidy b b' :=
  ⟨queue, fun h => by rw [Asleep, giveUp, ready]; exact h⟩

theorem Tidy.of_awake (queue : ∀ x ∈ b'.rxQueue, x ∈ b.rxQueue)
    (awake : b'.handshakeGiveUp = false) : Tidy b b' :=
  ⟨queue, fun _ up => by simp [awake] at up⟩

theorem tidy_pop {m : Msg} {rest : List Msg} (queue : b.rxQueue = m :: rest) :
    Tidy b { b with rxQueue := rest } :=
  .of_same (fun _ hx => by rw [queue]; exact List.mem_cons_of_mem _ hx) rfl rfl

theorem tidy_handshakeSuccess (now : ℕ) (key : TrafficKey) (b : Binding) :
    Tidy b (b.handleHandshakeSuccess now key) :=
  .of_awake (by simp) (by simp)

theorem tidy_rotationReturned (b : Binding) : Tidy b b.rotationReturned :=
  .of_same (by simp) (by simp) (by simp)

theorem tidy_stageNextKey {key : TrafficKey} (staged : b.pqcHsStageNextKey key = some b') :
    Tidy b b' := by
  unfold pqcHsStageNextKey at staged
  split at staged
  · cases staged
    exact .of_same (fun _ => id) rfl rfl
  · cases staged

theorem tidy_promoteStagedKey {now : ℕ} (promoted : b.pqcHsPromoteStagedKey now = some b') :
    Tidy b b' := by
  unfold pqcHsPromoteStagedKey at promoted
  split at promoted
  · cases promoted
    exact tidy_handshakeSuccess now _ b
  · cases promoted

theorem tidy_workerHead (now : ℕ) (d : Draws) (l : WorkerLocals) (asleep : b.Asleep) :
    Tidy b (b.workerHead P now d l).1 := by
  have head := workerHead_effect (P := P) now d l asleep
  exact ⟨head.queue, fun h up => head.keyReady ▸ h (head.asleep up)⟩

theorem tidy_sendCachedResponse (now : ℕ) (sent : Bool) (slot : Fin 4) (h : Hello) (b : Binding) :
    Tidy b (b.pqcHsSendCachedResponse now sent slot h).1 := by
  unfold pqcHsSendCachedResponse
  split
  · exact .refl b
  · dsimp only
    split_ifs
    · exact .refl b
    · exact .refl b
    · exact .of_awake (by simp) (by simp)

theorem tidy_handleHello (now : ℕ) (sent : Bool) (fresh : TrafficKey) (h : Hello) (b : Binding) :
    Tidy b (b.pqcHsHandleL3ResponderHello now sent fresh h).1 := by
  unfold pqcHsHandleL3ResponderHello
  split
  · split
    · exact tidy_sendCachedResponse now sent _ h b
    · exact .refl b
  · split
    · exact .refl b
    · dsimp only
      split
      · exact .refl b
      · rename_i b' staged
        have stages : Tidy b b' := by
          split at staged
          · exact tidy_stageNextKey staged
          · cases staged
            exact .refl b
        have stored (e : HsCacheEntry) : Tidy b' (b'.cacheResponse e) :=
          .of_same (fun _ => id) rfl rfl
        exact (stages.trans (stored _)).trans (tidy_sendCachedResponse now sent _ h _)

theorem tidy_handleReady (now : ℕ) (session : SessionId) (b : Binding) :
    Tidy b (b.pqcHsHandleReady now session).1 := by
  unfold pqcHsHandleReady
  split
  · exact .refl b
  · split_ifs
    · exact .refl b
    · exact .refl b
    · split
      · exact .refl b
      · rename_i promoted
        exact (tidy_promoteStagedKey promoted).trans (.of_same (fun _ => id) rfl rfl)

theorem tidy_l3HandshakeRequest (requestId : Option (BitVec 64)) (b : Binding) :
    Tidy b (b.pqcHsSendL3HandshakeRequest requestId).1 := by
  unfold pqcHsSendL3HandshakeRequest
  split
  · exact .refl b
  · cases requestId
    · exact .refl b
    · exact .of_same (fun _ => id) rfl rfl

theorem tidy_rxRecv (b : Binding) : Tidy b (rxRecv b).2 := by
  unfold rxRecv
  split
  · exact .refl b
  · exact tidy_pop ‹_›

end Binding

open Binding

theorem tidy_initiatorDispatch (d : Draws) (n : Node IniPc) :
    Tidy n.b (initiatorDispatch d n).b := by
  have same {b : Binding} (queue : b.rxQueue = n.b.rxQueue)
      (giveUp : b.handshakeGiveUp = n.b.handshakeGiveUp) (ready : b.keyReady = n.b.keyReady) :
      Tidy n.b b :=
    .of_same (fun _ hx => by rwa [queue] at hx) giveUp ready
  unfold initiatorDispatch
  cases d.session with
  | none =>
    dsimp only
    split_ifs <;> exact same (by simp) (by simp) (by simp)
  | some draw =>
    dsimp only
    split_ifs <;> exact same rfl rfl rfl

theorem tidy_initiatorWork {P : Primitives} (d : Draws) (n : Node IniPc) (asleep : n.b.Asleep) :
    Tidy n.b (initiatorWork P d n).1.b := by
  have received := tidy_rxRecv n.b
  unfold initiatorWork
  cases pc : n.pc with
  | top =>
    dsimp only
    split
    · exact .of_same (fun _ => id) rfl rfl
    · have head := tidy_workerHead (P := P) n.now d n.l asleep
      exact head.trans (tidy_initiatorDispatch d { n with b := _, l := _, pc := .top })
  | helloSend s kem =>
    dsimp only
    split_ifs with leave
    · exact .refl _
    · exact ⟨fun _ => id, fun _ _ => by simp_all⟩
    · exact .refl _
  | helloRecv s kem rx =>
    dsimp only
    split
    · exact .refl _
    · split
      · rename_i recv
        rw [recv] at received
        split
        · exact received.trans (tidy_handshakeSuccess _ _ _)
        · exact received
      · rename_i recv
        rw [recv] at received
        exact received
  | rotationSend s kem t =>
    dsimp only
    split
    · exact tidy_rotationReturned _
    · exact .refl _
  | rotationRecv s kem t rx =>
    dsimp only
    split
    · exact .refl _
    · split
      · rename_i recv
        rw [recv] at received
        split
        · split
          · exact received.trans (tidy_stageNextKey ‹_›)
          · exact received
        · exact received
      · rename_i recv
        rw [recv] at received
        exact received
  | commitWait s kem t rx next =>
    dsimp only
    split
    · exact .refl _
    · split
      · rename_i recv
        rw [recv] at received
        split
        · split
          · exact (received.trans (tidy_promoteStagedKey ‹_›)).trans (tidy_rotationReturned _)
          · exact received
        · exact received
      · rename_i recv
        rw [recv] at received
        exact received
  | stopped => exact .refl _

theorem tidy_responderWork {P : Primitives} (d : Draws) (n : Node ResPc) (asleep : n.b.Asleep) :
    Tidy n.b (responderWork P d n).1.b := by
  have received := tidy_rxRecv n.b
  unfold responderWork
  cases pc : n.pc with
  | top =>
    dsimp only
    split
    · exact .of_same (fun _ => id) rfl rfl
    · have head := tidy_workerHead (P := P) n.now d n.l asleep
      split_ifs
      · exact head
      · exact head.trans (.of_same (fun _ => id) rfl rfl)
      · exact head
      · exact head
  | listening =>
    dsimp only
    split_ifs with leave
    · exact .refl _
    · exact ⟨fun _ => id, fun _ _ => by simp_all⟩
    · have quiet : Tidy n.b { n.b with sendPoke := false } := .of_same (fun _ => id) rfl rfl
      exact quiet.trans (tidy_l3HandshakeRequest _ _)
    · exact .of_same (fun _ => id) rfl rfl
  | listeningRecv =>
    dsimp only
    split
    · rename_i recv
      rw [recv] at received
      exact received.trans (tidy_handleHello _ _ _ _ _)
    · rename_i recv
      rw [recv] at received
      exact received
  | online =>
    dsimp only
    split_ifs
    · have poking : Tidy n.b { n.b with sendPoke := true } := .of_same (fun _ => id) rfl rfl
      exact poking.trans (tidy_l3HandshakeRequest _ _)
    · exact .of_same (fun _ => id) rfl rfl
    · exact .refl _
  | onlineRecv =>
    dsimp only
    split
    · rename_i recv
      rw [recv] at received
      exact received.trans (tidy_handleHello _ _ _ _ _)
    · rename_i recv
      rw [recv] at received
      exact received.trans (tidy_handleReady _ _ _)
    · rename_i recv
      rw [recv] at received
      exact received
  | stopped => exact .refl _

/-- A fresh binding holds no key, no message and no cached RESP. -/
theorem bindNew_fields (now : ℕ) (requestId : BitVec 64) (policyId profileId : ℤ)
    (identity : BindIdentity) :
    let b := Binding.bindNew now requestId policyId profileId identity
    keysOf b.slots = ⟨none, none, none⟩ ∧ b.keyReady = false ∧ b.handshakeGiveUp = false ∧
      b.hsCache = (fun _ => none) ∧ b.hsCacheNext = 0 ∧ b.rxQueue = [] ∧
      b.prevDiscardAfterMs = 0 := by
  unfold bindNew bindFields
  dsimp only
  split_ifs <;> exact ⟨rfl, rfl, rfl, rfl, rfl, rfl, rfl⟩

namespace World

variable {P : Primitives} {w w' : World} {a : Act}

theorem sane_initial (p : Parties) : (initial p).Sane := by
  obtain ⟨-, -, iniAwake, -, -, iniQueue, -⟩ := bindNew_fields p.iniNow p.iniRequestId p.policyId
    p.profileId { p.iniIdentity with roleMode := .initiator, isTunnel := true }
  obtain ⟨-, -, resAwake, -, -, resQueue, -⟩ := bindNew_fields p.resNow p.resRequestId p.policyId
    p.profileId { p.resIdentity with roleMode := .responder, isTunnel := true }
  refine ⟨?_, ?_, ?_, ?_⟩
  · simp [initial, Node.boot, iniQueue]
  · simp [initial, Node.boot, resQueue]
  · simp [initial, Node.boot, Asleep, iniAwake]
  · simp [initial, Node.boot, Asleep, resAwake]

theorem Sane.tidyIni (sane : w.Sane) {n : Node IniPc} (tidy : Tidy w.ini.b n.b) :
    Sane { w with ini := n } :=
  ⟨fun m hm => sane.iniQueue m (tidy.queue m hm), sane.resQueue, tidy.asleep sane.iniAsleep,
    sane.resAsleep⟩

theorem Sane.tidyRes (sane : w.Sane) {n : Node ResPc} (tidy : Tidy w.res.b n.b) :
    Sane { w with res := n } :=
  ⟨sane.iniQueue, fun m hm => sane.resQueue m (tidy.queue m hm), sane.iniAsleep,
    tidy.asleep sane.resAsleep⟩

theorem Sane.moreSent (sane : w.Sane) (toRes toIni : List Msg) (hist : History) :
    Sane { w with toRes := toRes ++ w.toRes, toIni := toIni ++ w.toIni, hist := hist } :=
  ⟨fun m hm => List.mem_append_right _ (sane.iniQueue m hm),
    fun m hm => List.mem_append_right _ (sane.resQueue m hm), sane.iniAsleep, sane.resAsleep⟩

/-- A calm step of the initiator while a message it was sent is delivered. -/
theorem Sane.calmIni (sane : w.Sane) {m : Option Msg} (sent : ∀ x, m = some x → x ∈ w.toIni)
    {b : Binding} (calm : Calm P m w.ini.b b) :
    Sane { w with ini := { w.ini with b := b } } :=
  ⟨fun x hx => (calm.queue x hx).elim (fun h => sent x h.symm) (sane.iniQueue x), sane.resQueue,
    calm.keepsAsleep sane.iniAsleep, sane.resAsleep⟩

theorem Sane.calmRes (sane : w.Sane) {m : Option Msg} (sent : ∀ x, m = some x → x ∈ w.toRes)
    {b : Binding} (calm : Calm P m w.res.b b) :
    Sane { w with res := { w.res with b := b } } :=
  ⟨sane.iniQueue, fun x hx => (calm.queue x hx).elim (fun h => sent x h.symm) (sane.resQueue x),
    sane.iniAsleep, calm.keepsAsleep sane.resAsleep⟩

theorem tidy_triggerRetry (now : ℕ) (requestId : BitVec 64) (b : Binding) :
    Tidy b (b.sigPqcTriggerRetry now requestId) := by
  unfold sigPqcTriggerRetry
  dsimp only
  split
  · exact .of_awake (by simp [pqcFlushL3RxQueue]) rfl
  · exact .of_awake (fun _ => id) rfl

theorem tidy_boot {π : Type} (top : π) (now : ℕ) (id : BitVec 64) (policyId profileId : ℤ)
    (identity : BindIdentity) (b : Binding) :
    Tidy b (Node.boot top now id policyId profileId identity).b := by
  obtain ⟨-, -, awake, -, -, queue, -⟩ := bindNew_fields now id policyId profileId identity
  exact .of_awake (by simp [Node.boot, queue]) awake

theorem tidy_workerStart {π : Type} [DecidableEq π] {stopped top : π} {n n' : Node π}
    (started : n.workerStart stopped top = some n') : Tidy n.b n'.b := by
  unfold Node.workerStart at started
  split at started
  · cases started
    exact .of_same (fun _ => id) rfl rfl
  · cases started

theorem sane_step (sane : w.Sane) (h : w.step P a = some w') : w'.Sane := by
  cases a with
  | tickIni d | tickRes d =>
    cases h
    exact { sane with }
  | workIni d =>
    simp only [step, Option.ite_none_right_eq_some, Option.some_inj] at h
    obtain ⟨-, rfl⟩ := h
    exact (sane.tidyIni (tidy_initiatorWork (P := P) d w.ini sane.iniAsleep)).moreSent _ [] _
  | workRes d =>
    simp only [step, Option.ite_none_right_eq_some, Option.some_inj] at h
    obtain ⟨-, rfl⟩ := h
    exact (sane.tidyRes (tidy_responderWork (P := P) d w.res sane.resAsleep)).moreSent [] _ _
  | deliverIni m =>
    simp only [step, Option.ite_none_right_eq_some, Option.some_inj] at h
    obtain ⟨sent, rfl⟩ := h
    exact sane.calmIni (P := P) (by simpa using sent) (calm_feed w.ini.now m sane.iniAsleep)
  | deliverRes m =>
    simp only [step, Option.ite_none_right_eq_some, Option.some_inj] at h
    obtain ⟨sent, rfl⟩ := h
    exact sane.calmRes (P := P) (by simpa using sent) (calm_feed w.res.now m sane.resAsleep)
  | requestIni =>
    cases h
    exact sane.calmIni (P := P) (m := none) (by simp) (calm_requestNewSession _)
  | requestRes =>
    cases h
    exact sane.calmRes (P := P) (m := none) (by simp) (calm_requestNewSession _)
  | retryIni id =>
    cases h
    exact sane.tidyIni (n := { w.ini with b := _ }) (tidy_triggerRetry w.ini.now id w.ini.b)
  | retryRes id =>
    cases h
    exact sane.tidyRes (n := { w.res with b := _ }) (tidy_triggerRetry w.res.now id w.res.b)
  | stopIni =>
    cases h
    exact sane.tidyIni (n := { w.ini with b := _ }) (.of_same (fun _ => id) rfl rfl)
  | stopRes =>
    cases h
    exact sane.tidyRes (n := { w.res with b := _ }) (.of_same (fun _ => id) rfl rfl)
  | startIni =>
    obtain ⟨n, started, rfl⟩ := Option.map_eq_some_iff.mp h
    exact sane.tidyIni (tidy_workerStart started)
  | startRes =>
    obtain ⟨n, started, rfl⟩ := Option.map_eq_some_iff.mp h
    exact sane.tidyRes (tidy_workerStart started)
  | restartIni now id =>
    cases h
    exact sane.tidyIni (tidy_boot IniPc.top now id _ _ _ w.ini.b)
  | restartRes now id =>
    cases h
    exact sane.tidyRes (tidy_boot ResPc.top now id _ _ _ w.res.b)

theorem view_calmIni {m : Option Msg} {b : Binding} (calm : Calm P m w.ini.b b) :
    view { w with ini := { w.ini with b := b } } = w.view := by
  unfold view
  rw [calm.slots, calm.keyReady]

/-- A calm step of the responder may schedule the discarding of PREV and clear the RESP cache. -/
theorem simulates_calmRes {m : Option Msg} {b : Binding} (sent : ∀ x, m = some x → x ∈ w.toRes)
    (calm : Calm P m w.res.b b) :
    Simulates P w a w.view (view { w with res := { w.res with b := b } }) := by
  have armed : Simulates P w a w.view
      { w.view with armed := b.prevDiscardAfterMs != 0 } := by
    by_cases zero : b.prevDiscardAfterMs = 0
    · rw [zero]
      exact .single (a := .disarm) trivial rfl
    · rcases calm.discard with same | isZero | ⟨st, delivered, online, fp⟩
      · rw [same]
        exact .refl
      · exact absurd isZero zero
      · refine .single (a := .arm st) trivial ?_
        rw [View.apply, if_pos ⟨sent _ delivered, online, fp⟩]
        simp [zero]
  have cleared : Simulates P w a { w.view with armed := b.prevDiscardAfterMs != 0 }
      (w.view.withRes b []) := by
    unfold View.withRes
    rw [calm.slots, calm.keyReady]
    rcases calm.cache with ⟨cache, next⟩ | ⟨notReady, none, zero⟩
    · rw [cache, next]
      exact .refl
    · refine .single (a := .clear) trivial ?_
      have here : w.view.rReady = false := notReady
      rw [View.apply, if_pos here, none, zero]
      rfl
  exact armed.trans cleared

theorem simulates_retryIni (id : BitVec 64) : Simulates P w (.retryIni id) w.view
    (view { w with ini := { w.ini with b := w.ini.b.sigPqcTriggerRetry w.ini.now id } }) := by
  refine .single (a := .retryIni) ⟨id, rfl⟩ ?_
  unfold view
  rw [triggerRetry_slots, triggerRetry_keyReady]
  rfl

theorem simulates_retryRes (id : BitVec 64) : Simulates P w (.retryRes id) w.view
    (view { w with res := { w.res with b := w.res.b.sigPqcTriggerRetry w.res.now id } }) := by
  have retried : w.view.apply P .retryRes = some { w.view with
      rReady := false, rKeys := { w.view.rKeys with next := none }, armed := false } := rfl
  have first : Simulates P w (.retryRes id) w.view _ :=
    .single (a := .retryRes) ⟨⟨id, rfl⟩, rfl⟩ retried
  unfold sigPqcTriggerRetry
  dsimp only
  split
  · refine first.tail (a := .clear) trivial ?_
    rw [View.apply, if_pos rfl]
    rfl
  · exact first

theorem simulates_restartIni (now : ℕ) (id : BitVec 64) :
    Simulates P w (.restartIni now id) w.view (view { w with
      ini := .boot .top now id w.ini.b.policyId w.ini.b.profileId w.ini.b.identity }) := by
  obtain ⟨keys, ready, -⟩ :=
    bindNew_fields now id w.ini.b.policyId w.ini.b.profileId w.ini.b.identity
  refine .single (a := .restartIni) ⟨now, id, rfl⟩ ?_
  unfold view Node.boot
  dsimp only
  rw [keys, ready]
  rfl

theorem simulates_restartRes (now : ℕ) (id : BitVec 64) :
    Simulates P w (.restartRes now id) w.view (view { w with
      res := .boot .top now id w.res.b.policyId w.res.b.profileId w.res.b.identity }) := by
  obtain ⟨keys, ready, -, cache, next, -, discard⟩ :=
    bindNew_fields now id w.res.b.policyId w.res.b.profileId w.res.b.identity
  refine .single (a := .restartRes) ⟨⟨now, id, rfl⟩, rfl⟩ ?_
  unfold view Node.boot
  dsimp only
  rw [keys, ready, cache, next, discard]
  rfl

/-- A step of the world is a run of the cutover protocol. -/
theorem simulates_step (sane : w.Sane) (h : w.step P a = some w') :
    Simulates P w a w.view w'.view := by
  cases a with
  | tickIni d | tickRes d =>
    cases h
    exact .refl
  | workIni d =>
    simp only [step, Option.ite_none_right_eq_some, Option.some_inj] at h
    obtain ⟨-, rfl⟩ := h
    exact simulates_workIni sane
  | workRes d =>
    simp only [step, Option.ite_none_right_eq_some, Option.some_inj] at h
    obtain ⟨fresh, rfl⟩ := h
    exact simulates_workRes sane fresh
  | deliverIni m =>
    simp only [step, Option.ite_none_right_eq_some, Option.some_inj] at h
    obtain ⟨-, rfl⟩ := h
    rw [view_calmIni (P := P) (calm_feed w.ini.now m sane.iniAsleep)]
    exact .refl
  | deliverRes m =>
    simp only [step, Option.ite_none_right_eq_some, Option.some_inj] at h
    obtain ⟨sent, rfl⟩ := h
    exact simulates_calmRes (by simpa using sent) (calm_feed w.res.now m sane.resAsleep)
  | requestIni =>
    cases h
    rw [view_calmIni (P := P) (m := none) (calm_requestNewSession w.ini.b)]
    exact .refl
  | requestRes =>
    cases h
    exact simulates_calmRes (m := none) (by simp) (calm_requestNewSession w.res.b)
  | retryIni id =>
    cases h
    exact simulates_retryIni id
  | retryRes id =>
    cases h
    exact simulates_retryRes id
  | stopIni | stopRes =>
    cases h
    exact .refl
  | startIni =>
    obtain ⟨n, started, rfl⟩ := Option.map_eq_some_iff.mp h
    unfold Node.workerStart at started
    split at started
    · rename_i stopped
      cases started
      have same : view { w with ini := { w.ini with
          b := { w.ini.b with threadStarted := true }, l := .initial, pc := .top } } = w.view := by
        simp only [view, stopped.1, IniPc.phase]
      rw [same]
      exact .refl
    · cases started
  | startRes =>
    obtain ⟨n, started, rfl⟩ := Option.map_eq_some_iff.mp h
    unfold Node.workerStart at started
    split at started
    · cases started
      exact .refl
    · cases started
  | restartIni now id =>
    cases h
    exact simulates_restartIni now id
  | restartRes now id =>
    cases h
    exact simulates_restartRes now id

theorem view_initial (p : Parties) : (initial p).view = .start := by
  obtain ⟨iniKeys, iniReady, -⟩ := bindNew_fields p.iniNow p.iniRequestId p.policyId p.profileId
    { p.iniIdentity with roleMode := .initiator, isTunnel := true }
  obtain ⟨resKeys, resReady, -, cache, next, -, discard⟩ := bindNew_fields p.resNow p.resRequestId
    p.policyId p.profileId { p.resIdentity with roleMode := .responder, isTunnel := true }
  unfold view initial Node.boot
  dsimp only
  rw [iniKeys, iniReady, resKeys, resReady, cache, next, discard]
  rfl

/-- Runs of the world whose steps meet `ok` are runs of the protocol whose events meet `ok'`, if `ok`
allows no step to cause another event. -/
theorem reachable_view {p : Parties} {ok : World → Act → Prop} {ok' : View → Event → Prop}
    (caused : ∀ w a v ev, ok w a → Caused w a v ev → ok' v ev)
    (reached : Transition.ReachableWith (step P) ok (initial p) w) :
    Transition.ReachableWith (View.apply P) ok' .start w.view := by
  rw [← view_initial p]
  refine reached.simulate (I := Sane) view (fun w run => ?_) fun w a w' sane admitted h => ?_
  · exact run.invariant (sane_initial p) fun _ _ _ sane _ h => sane_step sane h
  · exact (simulates_step sane h).mono fun v ev => caused w a v ev admitted

end World

end NeEncryptor.Pqc
