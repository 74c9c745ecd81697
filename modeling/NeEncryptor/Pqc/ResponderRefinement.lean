import NeEncryptor.Pqc.InitiatorRefinement

/-!
# The responder refines the cutover protocol

A step of the responder's worker is a run of `View.apply`, as for the initiator.
-/

namespace NeEncryptor.Pqc

/-- The view `v` with the responder's side replaced by `b`, after sending `msgs`. -/
def View.withRes (v : View) (b : Binding) (msgs : List Msg) : View :=
  { v with
    rReady := b.keyReady
    rKeys := keysOf b.slots
    cache := b.hsCache
    cacheNext := b.hsCacheNext
    armed := b.prevDiscardAfterMs != 0
    toIni := msgs ++ v.toIni }

namespace World

variable {P : Primitives} {w : World} {a : Act} {v : View} {b b' : Binding} {msgs : List Msg}

theorem simulates_sendRes (signed : ∀ m ∈ msgs, View.signsRes m = true) :
    Simulates P w a v { v with toIni := msgs ++ v.toIni } := by
  induction msgs with
  | nil => exact .refl
  | cons m msgs ih =>
    have sent := ih fun x hx => signed x (List.mem_cons_of_mem _ hx)
    refine sent.tail (a := .sendRes m) trivial ?_
    rw [View.apply, if_pos (signed m List.mem_cons_self)]
    rfl

/-- Clearing the cache and discarding PREV, as far as the loop head does it. -/
theorem simulates_headRes (head : b.HeadEffect P b' msgs) :
    Simulates P w a (v.withRes b []) (v.withRes b' msgs) := by
  have prev : Simulates P w a (v.withRes b []) { v.withRes b [] with
      rKeys := keysOf b'.slots
      armed := b'.prevDiscardAfterMs != 0 } := by
    rcases head.prev with ⟨same, kept | zero⟩ | ⟨armed, gone, zero⟩
    · rw [kept, keysOf, same, head.current, head.next]
      exact .refl
    · refine .single (a := .disarm) trivial ?_
      rw [View.apply, zero, keysOf, same, head.current, head.next]
      rfl
    · refine .single (a := .discardRes) trivial ?_
      have isArmed : (v.withRes b []).armed = true := by simpa [View.withRes] using armed
      have none : b'.slots.prev.key? = none := by simp [KeySlot.key?, gone]
      rw [View.apply, if_pos isArmed, zero, keysOf, none, head.current, head.next]
      rfl
  have cache : Simulates P w a { v.withRes b [] with
      rKeys := keysOf b'.slots
      armed := b'.prevDiscardAfterMs != 0 } (v.withRes b' []) := by
    unfold View.withRes
    rw [head.keyReady]
    rcases head.cache with ⟨cache, next⟩ | ⟨notReady, cleared, next⟩
    · rw [cache, next]
      exact .refl
    · refine .single (a := .clear) trivial ?_
      rw [View.apply, if_pos notReady, cleared, next]
  refine (prev.trans cache).trans (simulates_sendRes ?_)
  intro m hm
  obtain ⟨st, rfl, -⟩ := head.honest m hm
  rfl

/-- `pqc_hs_send_cached_response` answers from the cache, or sends nothing. -/
theorem simulates_cachedResponse {now : ℕ} {sent : Bool} {slot : Fin 4} {e : HsCacheEntry}
    (cached : b.hsCache slot = some e) (caused : Caused w a (v.withRes b []) (.reply slot e)) :
    Simulates P w a (v.withRes b [])
      (v.withRes (b.pqcHsSendCachedResponse now sent slot e.hello).1
        (b.pqcHsSendCachedResponse now sent slot e.hello).2) := by
  unfold Binding.pqcHsSendCachedResponse
  rw [cached]
  dsimp only
  split
  · exact .refl
  · refine .single caused ?_
    have here : (v.withRes b []).cache slot = some e := cached
    rw [View.apply, if_pos here]
    split
    · rfl
    · simp only [View.withRes, View.promoteRes, Binding.handshakeSuccess_keyReady,
        Binding.handshakeSuccess_slots, Binding.handshakeSuccess_hsCache,
        Binding.handshakeSuccess_hsCacheNext, Binding.handshakeSuccess_prevDiscardAfterMs,
        keysOf_promote]
      rfl

/-- The view after the responder's worker has stepped to `n` and sent `msgs`. -/
def resView (w : World) (fresh : TrafficKey) (n : Node ResPc) (msgs : List Msg) : View :=
  View.withRes { w.view with
    hist := { w.hist with
      taken := takenBy fresh w.res n ++ w.hist.taken
      readyPromoted := readyPromotedBy w.res n ++ w.hist.readyPromoted } } n.b msgs

theorem workRes_view (d : Draws) : (w.workRes P d).view =
    w.resView d.fresh (responderWork P d w.res).1 (responderWork P d w.res).2 := rfl

/-- A step that takes no HELLO as new and promotes nothing on a READY. -/
theorem simulates_unrecorded {fresh : TrafficKey} {n : Node ResPc}
    (taken : takenBy fresh w.res n = []) (promoted : readyPromotedBy w.res n = [])
    (run : Simulates P w a w.view (w.view.withRes n.b msgs)) :
    Simulates P w a w.view (w.resView fresh n msgs) := by
  unfold resView
  rw [taken, promoted]
  exact run

theorem simulates_quietRes {n : Node ResPc} (slots : n.b.slots = w.res.b.slots)
    (ready : n.b.keyReady = w.res.b.keyReady) (cache : n.b.hsCache = w.res.b.hsCache)
    (next : n.b.hsCacheNext = w.res.b.hsCacheNext)
    (discard : n.b.prevDiscardAfterMs = w.res.b.prevDiscardAfterMs)
    (signed : ∀ m ∈ msgs, View.signsRes m = true) {fresh : TrafficKey} :
    Simulates P w a w.view (w.resView fresh n msgs) := by
  refine simulates_unrecorded ?_ ?_ ?_
  · unfold takenBy
    split
    · exact if_pos next
    · rfl
  · unfold readyPromotedBy
    split
    · exact if_pos (by rw [slots])
    · rfl
  · unfold View.withRes
    rw [slots, ready, cache, next, discard]
    exact simulates_sendRes signed

theorem cachedResponse_hsCacheNext (now : ℕ) (sent : Bool) (slot : Fin 4) (h : Hello)
    (b : Binding) : (b.pqcHsSendCachedResponse now sent slot h).1.hsCacheNext = b.hsCacheNext := by
  unfold Binding.pqcHsSendCachedResponse
  split
  · rfl
  · dsimp only
    split_ifs
    · rfl
    · rfl
    · simp

/-- What a new HELLO leaves of the binding before its RESP is stored: NEXT is staged for a rekey. -/
structure StagedFor (key : TrafficKey) (b b' : Binding) : Prop where
  keyReady : b'.keyReady = b.keyReady
  hsCache : b'.hsCache = b.hsCache
  hsCacheNext : b'.hsCacheNext = b.hsCacheNext
  slots : keysOf b'.slots =
    if b.keyReady then { keysOf b.slots with next := some key } else keysOf b.slots
  discard : (b'.prevDiscardAfterMs != 0) =
    if b.keyReady then false else (b.prevDiscardAfterMs != 0)

theorem stagedFor_rotation {key : TrafficKey} (ready : b.keyReady = true)
    (staged : b.pqcHsStageNextKey key = some b') : StagedFor key b b' := by
  unfold Binding.pqcHsStageNextKey at staged
  split at staged
  · cases staged
    exact ⟨rfl, rfl, rfl, by rw [if_pos ready]; rfl, by rw [if_pos ready]; rfl⟩
  · cases staged

theorem stagedFor_first {key : TrafficKey} (notReady : ¬ b.keyReady = true) :
    StagedFor key b b :=
  ⟨rfl, rfl, rfl, by rw [if_neg notReady], by rw [if_neg notReady]⟩

/-- The RESP of a new HELLO is stored in the cache and sent from there. -/
theorem simulates_takeNew {d : Draws} {h : Hello} {b : Binding} {out : Binding × List Msg}
    (fresh : w.Fresh d) (sent : .hello h ∈ w.toRes) (takes : w.res.takes = some h)
    (staged : StagedFor d.fresh w.res.b b)
    (handled : (b.cacheResponse ⟨h, ⟨h.pk, d.fresh⟩, d.fresh, false,
      w.res.b.keyReady⟩).pqcHsSendCachedResponse w.res.now d.respSent b.hsCacheNext h = out) :
    Simulates P w (.workRes d) w.view (View.withRes { w.view with
      hist := { w.hist with taken := ⟨h, d.fresh, w.res.b.keyReady⟩ :: w.hist.taken } }
        out.1 out.2) := by
  have unknown : findCache w.res.b.hsCache (fun e => e.hello.session == h.session) = none := by
    unfold Node.takes at takes
    split at takes
    · split at takes
      · cases takes
        rename_i none
        exact Option.isNone_iff_eq_none.mp none
      · cases takes
    · cases takes
  let e : HsCacheEntry := ⟨h, ⟨h.pk, d.fresh⟩, d.fresh, false, w.res.b.keyReady⟩
  let v : View := { w.view with
    hist := { w.hist with taken := ⟨h, d.fresh, w.res.b.keyReady⟩ :: w.hist.taken } }
  have took : w.view.apply P (.take h d.fresh) = some (v.withRes (b.cacheResponse e) []) := by
    have admitted : .hello h ∈ w.view.toRes ∧
        (∀ i e, w.view.cache i = some e → e.hello.session ≠ h.session) ∧
        ∀ t ∈ w.view.hist.taken, t.key ≠ d.fresh :=
      ⟨sent, fun i e he => by simpa using findCache_none.mp unknown i e he, fresh.2⟩
    rw [View.apply, if_pos admitted]
    unfold View.withRes
    simp only [Binding.cacheResponse, staged.keyReady, staged.hsCache, staged.hsCacheNext,
      staged.slots, staged.discard]
    rfl
  have first : Simulates P w (.workRes d) w.view (v.withRes (b.cacheResponse e) []) :=
    .single (a := .take h d.fresh) ⟨⟨d, rfl⟩, takes, rfl⟩ took
  have stored : (b.cacheResponse e).hsCache b.hsCacheNext = some e := Function.update_self ..
  have ready : (b.cacheResponse e).keyReady = w.res.b.keyReady := staged.keyReady
  rw [← handled]
  refine first.trans (simulates_cachedResponse stored ⟨⟨d, rfl⟩, .inr ⟨⟨h, takes⟩, ?_, rfl, ?_⟩⟩)
  · exact ready
  · exact ready.symm

theorem simulates_answerNew {d : Draws} {h : Hello} {pc : ResPc} {out : Binding × List Msg}
    (fresh : w.Fresh d) (sent : .hello h ∈ w.toRes) (receives : w.res.receives = some (.hello h))
    (unknown : (findCache w.res.b.hsCache fun e => e.hello.session == h.session) = none)
    (staged : StagedFor d.fresh w.res.b b)
    (handled : (b.cacheResponse ⟨h, ⟨h.pk, d.fresh⟩, d.fresh, false,
      w.res.b.keyReady⟩).pqcHsSendCachedResponse w.res.now d.respSent b.hsCacheNext h = out) :
    Simulates P w (.workRes d) w.view
      (w.resView d.fresh { w.res with b := out.1, pc := pc } out.2) := by
  have takes : w.res.takes = some h := by simp [Node.takes, receives, unknown]
  have next : out.1.hsCacheNext = w.res.b.hsCacheNext + 1 := by
    rw [← handled, cachedResponse_hsCacheNext]
    exact congrArg (· + 1) staged.hsCacheNext
  have taken : takenBy d.fresh w.res { w.res with b := out.1, pc := pc } =
      [⟨h, d.fresh, w.res.b.keyReady⟩] := by
    rw [takenBy, takes]
    refine if_neg fun same => ?_
    exact absurd (next.symm.trans same) (by generalize w.res.b.hsCacheNext = i; revert i; decide)
  have noReady : readyPromotedBy w.res { w.res with b := out.1, pc := pc } = [] := by
    rw [readyPromotedBy, receives]
  unfold resView
  rw [taken, noReady]
  exact simulates_takeNew fresh sent takes staged handled

/-- `pqc_hs_handle_l3_responder_hello` on the next queued message. -/
theorem simulates_handleHello {d : Draws} {h : Hello} {rest : List Msg} {pc : ResPc}
    (sane : w.Sane) (fresh : w.Fresh d) (queue : w.res.b.rxQueue = .hello h :: rest)
    (receives : w.res.receives = some (.hello h)) {out : Binding × List Msg}
    (handled : Binding.pqcHsHandleL3ResponderHello w.res.now d.respSent d.fresh h
      { w.res.b with rxQueue := rest } = out) :
    Simulates P w (.workRes d) w.view
      (w.resView d.fresh { w.res with b := out.1, pc := pc } out.2) := by
  have quiet : Simulates P w (.workRes d) w.view (w.resView d.fresh
      { w.res with b := { w.res.b with rxQueue := rest }, pc := pc } []) :=
    simulates_quietRes rfl rfl rfl rfl rfl (by simp)
  have sent : .hello h ∈ w.toRes := sane.resQueue _ (by simp [queue])
  unfold Binding.pqcHsHandleL3ResponderHello at handled
  dsimp only at handled
  cases known : findCache w.res.b.hsCache fun e => e.hello.session == h.session with
  | some found =>
    obtain ⟨slot, e⟩ := found
    rw [known] at handled
    dsimp only at handled
    by_cases same : e.hello = h
    · rw [if_pos same, ← same] at handled
      have takes : w.res.takes = none := by simp [Node.takes, receives, known]
      have answers : w.res.answersFrom = some e := by
        simp [Node.answersFrom, receives, known, same]
      refine simulates_unrecorded (by rw [takenBy, takes])
        (by rw [readyPromotedBy, receives]) ?_
      rw [← handled]
      exact simulates_cachedResponse (v := w.view) (b := { w.res.b with rxQueue := rest })
        (findCache_some known).1 ⟨⟨d, rfl⟩, .inl ⟨answers, rfl⟩⟩
    · rw [if_neg same] at handled
      subst handled
      exact quiet
  | none =>
    rw [known] at handled
    dsimp only at handled
    split at handled
    · subst handled
      exact quiet
    · by_cases ready : w.res.b.keyReady = true
      · rw [if_pos ready] at handled
        split at handled
        · subst handled
          exact quiet
        · rename_i b' staged
          have stages := stagedFor_rotation (b := { w.res.b with rxQueue := rest }) ready staged
          exact simulates_answerNew fresh sent receives known { stages with } handled
      · rw [if_neg ready] at handled
        have first : StagedFor d.fresh { w.res.b with rxQueue := rest } _ := stagedFor_first ready
        exact simulates_answerNew fresh sent receives known { first with } handled

/-- `pqc_hs_handle_ready` on the next queued message. -/
theorem simulates_handleReady {d : Draws} {s : SessionId} {rest : List Msg} {pc : ResPc}
    (sane : w.Sane) (queue : w.res.b.rxQueue = .ready s :: rest)
    (receives : w.res.receives = some (.ready s)) {out : Binding × List Msg}
    (handled : Binding.pqcHsHandleReady w.res.now s { w.res.b with rxQueue := rest } = out) :
    Simulates P w (.workRes d) w.view
      (w.resView d.fresh { w.res with b := out.1, pc := pc } out.2) := by
  have takes : w.res.takes = none := by simp [Node.takes, receives]
  have quiet : Simulates P w (.workRes d) w.view (w.resView d.fresh
      { w.res with b := { w.res.b with rxQueue := rest }, pc := pc } []) :=
    simulates_quietRes rfl rfl rfl rfl rfl (by simp)
  have sent : .ready s ∈ w.toRes := sane.resQueue _ (by simp [queue])
  unfold Binding.pqcHsHandleReady at handled
  dsimp only at handled
  split at handled
  · subst handled
    exact quiet
  · rename_i slot e known
    obtain ⟨cached, matching⟩ := findCache_some known
    obtain ⟨commits, session⟩ := Bool.and_eq_true_iff.mp matching
    have mine : e.hello.session = s := by simpa using session
    subst mine
    split at handled
    · rename_i promoted
      subst handled
      refine simulates_unrecorded (by rw [takenBy, takes]) ?_ ?_
      · rw [readyPromotedBy, receives]
        exact if_pos rfl
      · refine .single (a := .ready slot e) trivial ?_
        rw [View.apply, if_pos ⟨sent, cached, commits, .inl promoted⟩]
        simp only [promoted, if_true]
        rfl
    · rename_i unspent
      split at handled
      · subst handled
        exact quiet
      · rename_i staged
        simp only [Bool.or_eq_true, Bool.not_eq_true', bne_iff_ne, ne_eq, not_or, not_not,
          Bool.not_eq_false] at staged
        obtain ⟨valid, key⟩ := staged
        have next : w.view.rKeys.next = some e.masterKey := by
          rw [← key]
          exact if_pos valid
        rw [Binding.pqcHsPromoteStagedKey, if_pos valid] at handled
        dsimp only at handled
        subst handled
        have unspent' : e.keyPromoted = false := by simpa using unspent
        have moved := Binding.handshakeSuccess_slots w.res.now w.res.b.slots.next.key
          { w.res.b with rxQueue := rest }
        unfold resView
        rw [show takenBy d.fresh w.res _ = [] by rw [takenBy, takes],
          show readyPromotedBy w.res _ = [e.masterKey] by
            rw [readyPromotedBy, receives, ← key]
            exact currentBy_promote moved]
        refine .single (a := .ready slot e) trivial ?_
        rw [View.apply, if_pos ⟨sent, cached, commits, .inr next⟩]
        simp only [unspent', View.withRes, View.promoteRes, key, keysOf_promote,
          Binding.handshakeSuccess_slots,
          Binding.handshakeSuccess_keyReady, Binding.handshakeSuccess_hsCache,
          Binding.handshakeSuccess_hsCacheNext, Binding.handshakeSuccess_prevDiscardAfterMs]
        rfl

theorem l3HandshakeRequest_cases (requestId : Option (BitVec 64)) (b : Binding) :
    (b.pqcHsSendL3HandshakeRequest requestId).1.slots = b.slots ∧
      (b.pqcHsSendL3HandshakeRequest requestId).1.keyReady = b.keyReady ∧
      (b.pqcHsSendL3HandshakeRequest requestId).1.hsCache = b.hsCache ∧
      (b.pqcHsSendL3HandshakeRequest requestId).1.hsCacheNext = b.hsCacheNext ∧
      (b.pqcHsSendL3HandshakeRequest requestId).1.prevDiscardAfterMs = b.prevDiscardAfterMs ∧
      ∀ m ∈ (b.pqcHsSendL3HandshakeRequest requestId).2, View.signsRes m = true := by
  unfold Binding.pqcHsSendL3HandshakeRequest
  split
  · simp [View.signsRes]
  · cases requestId <;> simp [View.signsRes]

theorem simulates_topRes {d : Draws} (sane : w.Sane) (pc : w.res.pc = .top) :
    Simulates P w (.workRes d) w.view (w.workRes P d).view := by
  have receives : w.res.receives = none := by simp [Node.receives, pc]
  have unrecorded (n : Node ResPc) :
      takenBy d.fresh w.res n = [] ∧ readyPromotedBy w.res n = [] := by
    simp [takenBy, Node.takes, readyPromotedBy, receives]
  rw [workRes_view]
  simp only [responderWork, pc]
  split
  · exact simulates_quietRes rfl rfl rfl rfl rfl (by simp)
  · have head := Binding.workerHead_effect (P := P) w.res.now d w.res.l sane.resAsleep
    rcases hb : w.res.b.workerHead P w.res.now d w.res.l with ⟨b, l, msgs⟩
    rw [hb] at head
    have run := simulates_headRes (w := w) (a := .workRes d) (v := w.view) head
    dsimp only
    split_ifs <;> exact simulates_unrecorded (unrecorded _).1 (unrecorded _).2 run

theorem simulates_workRes {d : Draws} (sane : w.Sane) (fresh : w.Fresh d) :
    Simulates P w (.workRes d) w.view (w.workRes P d).view := by
  cases pc : w.res.pc with
  | top => exact simulates_topRes sane pc
  | listening =>
    rw [workRes_view]
    simp only [responderWork, pc]
    split_ifs
    · exact simulates_quietRes rfl rfl rfl rfl rfl (by simp)
    · exact simulates_quietRes rfl rfl rfl rfl rfl (by simp)
    · obtain ⟨slots, ready, cache, next, discard, signed⟩ :=
        l3HandshakeRequest_cases d.requestId { w.res.b with sendPoke := false }
      exact simulates_quietRes slots ready cache next discard signed
    · exact simulates_quietRes rfl rfl rfl rfl rfl (by simp)
  | online =>
    rw [workRes_view]
    simp only [responderWork, pc]
    split_ifs
    · obtain ⟨slots, ready, cache, next, discard, signed⟩ :=
        l3HandshakeRequest_cases d.requestId { w.res.b with sendPoke := true }
      exact simulates_quietRes slots ready cache next discard signed
    · exact simulates_quietRes rfl rfl rfl rfl rfl (by simp)
    · exact simulates_quietRes rfl rfl rfl rfl rfl (by simp)
  | listeningRecv =>
    rw [workRes_view]
    rcases queue : w.res.b.rxQueue with - | ⟨m, rest⟩
    · simp only [responderWork, pc, rxRecv, queue]
      exact simulates_quietRes rfl rfl rfl rfl rfl (by simp)
    · have receives : w.res.receives = some m := by simp [Node.receives, pc, queue]
      simp only [responderWork, pc, rxRecv, queue]
      cases m with
      | hello h => exact simulates_handleHello sane fresh queue receives rfl
      | resp _ _ | keepalive _ | poke _ | ready _ | commit _ =>
        exact simulates_quietRes rfl rfl rfl rfl rfl (by simp)
  | onlineRecv =>
    rw [workRes_view]
    rcases queue : w.res.b.rxQueue with - | ⟨m, rest⟩
    · simp only [responderWork, pc, rxRecv, queue]
      exact simulates_quietRes rfl rfl rfl rfl rfl (by simp)
    · have receives : w.res.receives = some m := by simp [Node.receives, pc, queue]
      simp only [responderWork, pc, rxRecv, queue]
      cases m with
      | hello h => exact simulates_handleHello sane fresh queue receives rfl
      | ready s => exact simulates_handleReady sane queue receives rfl
      | resp _ _ | keepalive _ | poke _ | commit _ =>
        exact simulates_quietRes rfl rfl rfl rfl rfl (by simp)
  | stopped =>
    rw [workRes_view]
    simp only [responderWork, pc]
    exact simulates_quietRes rfl rfl rfl rfl rfl (by simp)

end World

end NeEncryptor.Pqc
