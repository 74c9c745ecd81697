import NeEncryptor.Pqc.CutoverInv
import NeEncryptor.Pqc.Effects

/-!
# The initiator refines the cutover protocol

A step of the initiator's worker is a run of `View.apply` between the views of its end points, and
each event of this run is one that `Caused` allows for the step.
-/

namespace NeEncryptor.Pqc

/-- The keys the slots offer. -/
def keysOf (s : KeySlots KeySlot) : KeySlots (Option TrafficKey) :=
  ⟨s.prev.key?, s.current.key?, s.next.key?⟩

def IniPc.phase : IniPc → Phase
  | .top | .stopped => .idle
  | .helloSend session kem | .helloRecv session kem _ => .greet ⟨session, kem⟩
  | .rotationSend session kem _ | .rotationRecv session kem _ _ => .rotate ⟨session, kem⟩
  | .commitWait session kem _ _ _ => .await ⟨session, kem⟩

namespace World

variable {P : Primitives} {w w' : World} {a : Act}

/-- What the cutover protocol sees of a world. -/
def view (w : World) : View where
  iReady := w.ini.b.keyReady
  iKeys := keysOf w.ini.b.slots
  phase := w.ini.pc.phase
  rReady := w.res.b.keyReady
  rKeys := keysOf w.res.b.slots
  cache := w.res.b.hsCache
  cacheNext := w.res.b.hsCacheNext
  armed := w.res.b.prevDiscardAfterMs != 0
  toRes := w.toRes
  toIni := w.toIni
  hist := w.hist

/-- The receive queues hold messages that were sent, and who has given up has no key in use. -/
structure Sane (w : World) : Prop where
  iniQueue : ∀ m ∈ w.ini.b.rxQueue, m ∈ w.toIni
  resQueue : ∀ m ∈ w.res.b.rxQueue, m ∈ w.toRes
  iniAsleep : w.ini.b.Asleep
  resAsleep : w.res.b.Asleep

/-- The events a step of the world may stand for. -/
def Caused (w : World) (a : Act) (v : View) : Event → Prop
  | .draw h _ => (∃ d, a = .workIni d ∧ d.session = some (h.session, h.pk)) ∧ v.hist = w.hist
  | .accept h _ => (∃ d, a = .workIni d) ∧ w.ini.completes = some h.session ∧ v = w.view
  | .abandon _ => (∃ d, a = .workIni d) ∧ w.ini.b.threadExitSig = true ∧
      ∃ s kem t rx next, w.ini.pc = .commitWait s kem t rx next
  | .retryIni => ∃ id, a = .retryIni id
  | .restartIni => ∃ now id, a = .restartIni now id
  | .take h _ => (∃ d, a = .workRes d) ∧ w.res.takes = some h ∧ v = w.view
  | .reply _ e => (∃ d, a = .workRes d) ∧ ((w.res.answersFrom = some e ∧ v = w.view) ∨
      ((∃ h, w.res.takes = some h) ∧ v.rReady = w.view.rReady ∧ v.phase = w.view.phase ∧
        e.requiresCommit = v.rReady))
  | .retryRes => (∃ id, a = .retryRes id) ∧ v = w.view
  | .restartRes => (∃ now id, a = .restartRes now id) ∧ v = w.view
  | _ => True

/-- A run of the cutover protocol that step `a` of world `w` may stand for. -/
abbrev Simulates (P : Primitives) (w : World) (a : Act) : View → View → Prop :=
  Transition.ReachableWith (View.apply P) (Caused w a)

/-- The view after the initiator's worker has stepped to `n` and sent `msgs`. -/
def iniView (w : World) (n : Node IniPc) (msgs : List Msg) : View :=
  { w.view with
    iReady := n.b.keyReady
    iKeys := keysOf n.b.slots
    phase := n.pc.phase
    toRes := msgs ++ w.toRes
    hist := { w.hist with
      drawn := drawnBy w.ini.pc n.pc ++ w.hist.drawn
      staged := stagedBy w.ini n ++ w.hist.staged
      currents := currentBy w.ini.b n.b ++ w.hist.currents } }

theorem workIni_view (d : Draws) : (w.workIni P d).view =
    w.iniView (initiatorWork P d w.ini).1 (initiatorWork P d w.ini).2 := rfl

/-- A step that moves no key and opens no session shows its phase and its messages only. -/
theorem simulates_still {n : Node IniPc} {msgs : List Msg}
    (ready : n.b.keyReady = w.ini.b.keyReady) (slots : n.b.slots = w.ini.b.slots)
    (drawn : drawnBy w.ini.pc n.pc = []) (staged : stagedBy w.ini n = [])
    (run : Simulates P w a w.view
      { w.view with phase := n.pc.phase, toRes := msgs ++ w.toRes }) :
    Simulates P w a w.view (w.iniView n msgs) := by
  unfold iniView
  rw [ready, slots, drawn, staged, show currentBy w.ini.b n.b = [] from if_pos (by rw [slots])]
  exact run

theorem simulates_sendIni {v : View} {msgs : List Msg} (signed : ∀ m ∈ msgs, v.SignsIni P m) :
    Simulates P w a v { v with toRes := msgs ++ v.toRes } := by
  induction msgs with
  | nil => exact .refl
  | cons m msgs ih =>
    have sent := ih fun x hx => signed x (List.mem_cons_of_mem _ hx)
    refine sent.tail (a := .sendIni m) trivial ?_
    have : View.SignsIni P { v with toRes := msgs ++ v.toRes } m :=
      signed m List.mem_cons_self
    rw [View.apply, if_pos this]
    rfl

theorem simulates_headIni {v : View} {b b' : Binding} {msgs : List Msg}
    (ready : v.iReady = b.keyReady) (keys : v.iKeys = keysOf b.slots)
    (head : b.HeadEffect P b' msgs) :
    Simulates P w a v { v with iKeys := keysOf b'.slots, toRes := msgs ++ v.toRes } := by
  have moved : Simulates P w a v { v with iKeys := keysOf b'.slots } := by
    rcases head.prev with ⟨same, -⟩ | ⟨-, gone, -⟩
    · have : keysOf b'.slots = v.iKeys := by
        rw [keys, keysOf, keysOf, same, head.current, head.next]
      rw [this]
      exact .refl
    · refine .single (a := .discardIni) trivial ?_
      have : b'.slots.prev.key? = none := by simp [KeySlot.key?, gone]
      rw [View.apply, keys, keysOf, keysOf, this, head.current, head.next]
  refine moved.trans (simulates_sendIni (v := { v with iKeys := keysOf b'.slots }) ?_)
  intro m hm
  obtain ⟨st, rfl, honest⟩ := head.honest m hm
  intro online
  obtain ⟨ready', fp⟩ := honest online
  exact ⟨ready.trans (head.keyReady ▸ ready'), fp⟩

theorem simulates_leave (sending : w.view.phase.sending.isSome = true) :
    Simulates P w a w.view { w.view with phase := .idle } := by
  refine .single (a := .leave) trivial ?_
  rw [View.apply, if_pos sending]

/-- Staying in the same phase. -/
theorem simulates_stay {p : Phase} (phase : w.view.phase = p) :
    Simulates P w a w.view { w.view with phase := p } := by
  rw [← phase]
  exact .refl

theorem simulates_hello {h : Hello} {p : Phase} (phase : w.view.phase = p)
    (sending : p.sending = some h) :
    Simulates P w a w.view { w.view with phase := p, toRes := .hello h :: w.toRes } := by
  subst phase
  have signed : ∀ m ∈ [Msg.hello h], w.view.SignsIni P m := by
    simpa [View.SignsIni] using sending
  exact simulates_sendIni signed

theorem simulates_helloSend {d : Draws} {s : SessionId} {kem : KemId}
    (pc : w.ini.pc = .helloSend s kem) :
    Simulates P w (.workIni d) w.view (w.workIni P d).view := by
  have phase : w.view.phase = .greet ⟨s, kem⟩ := by simp [view, pc, IniPc.phase]
  have sending : w.view.phase.sending.isSome = true := by simp [phase, Phase.sending]
  rw [workIni_view]
  simp only [initiatorWork, pc]
  split_ifs
  · exact simulates_still rfl rfl (by simp [drawnBy, pc]) (by simp [stagedBy, pc])
      (simulates_leave sending)
  · exact simulates_still rfl rfl (by simp [drawnBy, pc]) (by simp [stagedBy, pc])
      (simulates_leave sending)
  · exact simulates_still rfl rfl (by simp [drawnBy, pc]) (by simp [stagedBy, pc])
      (simulates_hello phase rfl)

theorem simulates_rotationSend {d : Draws} {s : SessionId} {kem : KemId} {t : ℕ}
    (pc : w.ini.pc = .rotationSend s kem t) :
    Simulates P w (.workIni d) w.view (w.workIni P d).view := by
  have phase : w.view.phase = .rotate ⟨s, kem⟩ := by simp [view, pc, IniPc.phase]
  have sending : w.view.phase.sending.isSome = true := by simp [phase, Phase.sending]
  rw [workIni_view]
  simp only [initiatorWork, pc]
  split_ifs
  · exact simulates_still (Binding.rotationReturned_keyReady _) (Binding.rotationReturned_slots _)
      (by simp [drawnBy, pc]) (by simp [stagedBy, pc]) (simulates_leave sending)
  · exact simulates_still rfl rfl (by simp [drawnBy, pc]) (by simp [stagedBy, pc])
      (simulates_hello phase rfl)

theorem keysOf_promote (key : TrafficKey) (s : KeySlots KeySlot) :
    keysOf (promoteSlots key s) = promoteKeys key (keysOf s) := rfl

theorem keysOf_stage (key : TrafficKey) (s : KeySlots KeySlot) :
    keysOf (stageSlots key s) = { keysOf s with next := some key } := rfl

theorem currentBy_promote {b b' : Binding} {key : TrafficKey}
    (slots : b'.slots = promoteSlots key b.slots) : currentBy b b' = [key] := by
  rw [currentBy, slots, if_neg (promoteSlots_current_ne key b.slots)]
  rfl

theorem currentBy_stage {b b' : Binding} {key : TrafficKey}
    (slots : b'.slots = stageSlots key b.slots) : currentBy b b' = [] := by
  rw [currentBy, slots]
  exact if_pos rfl

/-- A step whose last event promotes `key`. -/
theorem simulates_promote {n : Node IniPc} {msgs : List Msg} {key : TrafficKey} {v : View}
    (ev : Event) (before : Simulates P w a w.view v) (caused : Caused w a v ev)
    (ready : n.b.keyReady = true) (slots : n.b.slots = promoteSlots key w.ini.b.slots)
    (drawn : drawnBy w.ini.pc n.pc = []) (staged : stagedBy w.ini n = [])
    (promoted : v.apply P ev = some { w.view with
      iReady := true
      iKeys := promoteKeys key w.view.iKeys
      phase := n.pc.phase
      toRes := msgs ++ w.toRes
      hist := { w.hist with currents := key :: w.hist.currents } }) :
    Simulates P w a w.view (w.iniView n msgs) := by
  unfold iniView
  rw [ready, drawn, staged, currentBy_promote slots, slots, keysOf_promote]
  exact before.tail caused promoted

/-- A step whose event stages `key`. -/
theorem simulates_stage {n : Node IniPc} {key : TrafficKey} (ev : Event)
    (caused : Caused w a w.view ev) (ready : n.b.keyReady = w.ini.b.keyReady)
    (slots : n.b.slots = stageSlots key w.ini.b.slots)
    (drawn : drawnBy w.ini.pc n.pc = []) (staged : stagedBy w.ini n = [key])
    (moved : w.view.apply P ev = some { w.view with
      iKeys := { w.view.iKeys with next := some key }
      phase := n.pc.phase
      hist := { w.hist with staged := key :: w.hist.staged } }) :
    Simulates P w a w.view (w.iniView n []) := by
  unfold iniView
  rw [ready, drawn, staged, currentBy_stage slots, slots, keysOf_stage]
  exact .single caused moved

theorem simulates_helloRecv {d : Draws} {s : SessionId} {kem : KemId} {t : ℕ} (sane : w.Sane)
    (pc : w.ini.pc = .helloRecv s kem t) :
    Simulates P w (.workIni d) w.view (w.workIni P d).view := by
  have phase : w.view.phase = .greet ⟨s, kem⟩ := by simp [view, pc, IniPc.phase]
  have stay {n : Node IniPc} (ready : n.b.keyReady = w.ini.b.keyReady)
      (slots : n.b.slots = w.ini.b.slots) (same : n.pc.phase = .greet ⟨s, kem⟩) :
      Simulates P w (.workIni d) w.view (w.iniView n []) := by
    refine simulates_still ready slots (by simp [drawnBy, pc]) (by simp [stagedBy, pc]) ?_
    rw [same]
    exact simulates_stay phase
  rw [workIni_view]
  simp only [initiatorWork, pc]
  split
  · exact stay rfl rfl rfl
  · rename_i window
    rcases queue : w.ini.b.rxQueue with - | ⟨m, rest⟩
    · simp only [rxRecv, queue]
      exact stay rfl rfl rfl
    · simp only [rxRecv, queue]
      cases m with
      | resp answered ct =>
        dsimp only
        split
        · rename_i mine
          subst mine
          have completes : w.ini.completes = some answered := by
            simp [Node.completes, pc, queue]
          have notReady : w.ini.b.keyReady = false := by simp_all
          refine simulates_promote (.accept ⟨answered, kem⟩ ct) .refl
            ⟨⟨d, rfl⟩, completes, rfl⟩ (Binding.handshakeSuccess_keyReady _ _ _)
            (Binding.handshakeSuccess_slots _ _ _) (by simp [drawnBy, pc]) (by simp [stagedBy, pc]) ?_
          rw [View.apply, if_pos ⟨phase, notReady, sane.iniQueue _ (by simp [queue])⟩]
          rw [IniPc.phase, ← phase]
          rfl
        · exact stay rfl rfl rfl
      | hello _ | keepalive _ | poke _ | ready _ | commit _ =>
        exact stay rfl rfl rfl

theorem simulates_rotationRecv {d : Draws} {s : SessionId} {kem : KemId} {t rx : ℕ}
    (sane : w.Sane) (pc : w.ini.pc = .rotationRecv s kem t rx) :
    Simulates P w (.workIni d) w.view (w.workIni P d).view := by
  have phase : w.view.phase = .rotate ⟨s, kem⟩ := by simp [view, pc, IniPc.phase]
  have stay {n : Node IniPc} (ready : n.b.keyReady = w.ini.b.keyReady)
      (slots : n.b.slots = w.ini.b.slots) (same : n.pc.phase = .rotate ⟨s, kem⟩) :
      Simulates P w (.workIni d) w.view (w.iniView n []) := by
    refine simulates_still ready slots (by simp [drawnBy, pc]) ?_ ?_
    · cases npc : n.pc <;> simp_all [stagedBy, IniPc.phase]
    · rw [same]
      exact simulates_stay phase
  rw [workIni_view]
  simp only [initiatorWork, pc]
  split
  · exact stay rfl rfl rfl
  · rcases queue : w.ini.b.rxQueue with - | ⟨m, rest⟩
    · simp only [rxRecv, queue]
      exact stay rfl rfl rfl
    · simp only [rxRecv, queue]
      cases m with
      | resp answered ct =>
        dsimp only
        split
        · rename_i mine
          subst mine
          unfold Binding.pqcHsStageNextKey
          by_cases usable : (w.ini.b.keyReady && w.ini.b.slots.current.valid) = true
          · have ready : w.ini.b.keyReady = true := (Bool.and_eq_true_iff.mp usable).1
            simp only [usable, if_true]
            refine simulates_stage (a := .workIni d) (.stage ⟨answered, kem⟩ ct) trivial rfl rfl
              (by simp [drawnBy, pc]) (by simp [stagedBy, pc, stageSlots]) ?_
            rw [View.apply, if_pos ⟨phase, ready, sane.iniQueue _ (by simp [queue])⟩]
            rfl
          · simp only [usable]
            exact stay rfl rfl rfl
        · exact stay rfl rfl rfl
      | hello _ | keepalive _ | poke _ | ready _ | commit _ => exact stay rfl rfl rfl

theorem simulates_commitWait {d : Draws} {s : SessionId} {kem : KemId} {t rx next : ℕ}
    (sane : w.Sane) (pc : w.ini.pc = .commitWait s kem t rx next) :
    Simulates P w (.workIni d) w.view (w.workIni P d).view := by
  have phase : w.view.phase = .await ⟨s, kem⟩ := by simp [view, pc, IniPc.phase]
  have drawn (p : IniPc) : drawnBy w.ini.pc p = [] := by simp [drawnBy, pc]
  have staged (n : Node IniPc) : stagedBy w.ini n = [] := by simp [stagedBy, pc]
  rw [workIni_view]
  simp only [initiatorWork, pc]
  split
  · rename_i stop
    refine simulates_still rfl rfl (drawn _) (staged _) ?_
    refine .single (a := .abandon ⟨s, kem⟩) ⟨⟨d, rfl⟩, stop, _, _, _, _, _, pc⟩ ?_
    rw [View.apply, if_pos phase]
    rfl
  · generalize hmsgs : (if next = 0 ∨ next ≤ w.ini.now then [Msg.ready s] else []) = msgs
    have signed : ∀ m ∈ msgs, w.view.SignsIni P m := by
      rw [← hmsgs]
      split <;> simp [View.SignsIni, phase, Phase.openRotation, Phase.sending]
    have sent := simulates_sendIni (P := P) (w := w) (a := .workIni d) signed
    have stay {n : Node IniPc} (ready : n.b.keyReady = w.ini.b.keyReady)
        (slots : n.b.slots = w.ini.b.slots) (same : n.pc.phase = .await ⟨s, kem⟩) :
        Simulates P w (.workIni d) w.view (w.iniView n msgs) := by
      refine simulates_still ready slots (drawn _) (staged _) ?_
      rw [same, ← phase]
      exact sent
    rcases queue : w.ini.b.rxQueue with - | ⟨m, rest⟩
    · simp only [rxRecv, queue]
      exact stay rfl rfl rfl
    · simp only [rxRecv, queue]
      cases m with
      | commit answered =>
        dsimp only
        split
        · rename_i mine
          subst mine
          have delivered : .commit answered ∈ w.toIni := sane.iniQueue _ (by simp [queue])
          unfold Binding.pqcHsPromoteStagedKey
          dsimp only
          split
          · rename_i b' promoted
            split at promoted
            · rename_i valid
              cases promoted
              refine simulates_promote (.commit ⟨answered, kem⟩ w.ini.b.slots.next.key) sent
                trivial (by simp) (by simp; rfl) (drawn _) (staged _) ?_
              have staged' : w.view.iKeys.next = some w.ini.b.slots.next.key := if_pos valid
              rw [View.apply, if_pos ⟨phase, delivered, staged'⟩]
              rfl
            · cases promoted
          · rename_i refused
            split at refused
            · cases refused
            · rename_i invalid
              refine simulates_still rfl rfl (drawn _) (staged _) ?_
              refine sent.tail (a := .commitFails ⟨answered, kem⟩) trivial ?_
              have unstaged : w.view.iKeys.next = none := if_neg invalid
              rw [View.apply, if_pos ⟨phase, unstaged⟩]
              rfl
        · exact stay rfl rfl rfl
      | hello _ | keepalive _ | poke _ | ready _ | resp _ _ => exact stay rfl rfl rfl

/-- The give-up test and the role branch move no key; they may open a session. -/
theorem initiatorDispatch_cases (d : Draws) (n : Node IniPc) :
    (initiatorDispatch d n).b.slots = n.b.slots ∧
      (initiatorDispatch d n).b.keyReady = n.b.keyReady ∧
      ((initiatorDispatch d n).pc = .top ∨ ∃ s kem, d.session = some (s, kem) ∧
        (((initiatorDispatch d n).pc = .helloSend s kem ∧ n.b.keyReady = false) ∨
          (∃ t, (initiatorDispatch d n).pc = .rotationSend s kem t) ∧ n.b.keyReady = true)) := by
  unfold initiatorDispatch
  cases d.session with
  | none =>
    dsimp only
    split_ifs <;> simp
  | some draw =>
    dsimp only
    split_ifs <;> simp_all

theorem simulates_top {d : Draws} (sane : w.Sane) (pc : w.ini.pc = .top) :
    Simulates P w (.workIni d) w.view (w.workIni P d).view := by
  have phase : w.view.phase = .idle := by simp [view, pc, IniPc.phase]
  rw [workIni_view]
  simp only [initiatorWork, pc]
  split
  · refine simulates_still rfl rfl (by simp [drawnBy, pc]) (by simp [stagedBy, pc]) ?_
    exact simulates_stay phase
  · have head := Binding.workerHead_effect (P := P) w.ini.now d w.ini.l sane.iniAsleep
    rcases hb : w.ini.b.workerHead P w.ini.now d w.ini.l with ⟨b, l, msgs⟩
    rw [hb] at head
    dsimp only at head ⊢
    obtain ⟨slots, ready, opened⟩ := initiatorDispatch_cases d ⟨b, w.ini.now, l, .top⟩
    have run := simulates_headIni (w := w) (a := .workIni d) (v := w.view) rfl rfl head
    generalize initiatorDispatch d ⟨b, w.ini.now, l, .top⟩ = n at slots ready opened ⊢
    dsimp only at slots ready opened
    have quiet : currentBy w.ini.b n.b = [] := by rw [currentBy, slots, head.current, if_pos rfl]
    have staged : stagedBy w.ini n = [] := by simp [stagedBy, pc]
    unfold iniView
    rw [ready, slots, quiet, staged, head.keyReady]
    rcases opened with top | ⟨s, kem, drawn, ⟨greet, notReady⟩ | ⟨⟨t, rotate⟩, isReady⟩⟩
    · rw [top, show drawnBy w.ini.pc .top = [] by simp [drawnBy, pc], IniPc.phase, ← phase]
      exact run
    · rw [greet, show drawnBy w.ini.pc (.helloSend s kem) = [⟨s, kem⟩] by simp [drawnBy, pc]]
      refine run.tail (a := .draw ⟨s, kem⟩ false) ⟨⟨d, rfl, drawn⟩, rfl⟩ ?_
      have idle : w.ini.b.keyReady = false := head.keyReady ▸ notReady
      rw [View.apply, if_pos ⟨phase, idle⟩]
      rfl
    · rw [rotate, show drawnBy w.ini.pc (.rotationSend s kem t) = [⟨s, kem⟩] by simp [drawnBy, pc]]
      refine run.tail (a := .draw ⟨s, kem⟩ true) ⟨⟨d, rfl, drawn⟩, rfl⟩ ?_
      have inUse : w.ini.b.keyReady = true := head.keyReady ▸ isReady
      rw [View.apply, if_pos ⟨phase, inUse⟩]
      rfl

theorem simulates_workIni {d : Draws} (sane : w.Sane) :
    Simulates P w (.workIni d) w.view (w.workIni P d).view := by
  cases pc : w.ini.pc with
  | top => exact simulates_top sane pc
  | helloSend s kem => exact simulates_helloSend pc
  | helloRecv s kem t => exact simulates_helloRecv sane pc
  | rotationSend s kem t => exact simulates_rotationSend pc
  | rotationRecv s kem t rx => exact simulates_rotationRecv sane pc
  | commitWait s kem t rx next => exact simulates_commitWait sane pc
  | stopped =>
    rw [workIni_view]
    simp only [initiatorWork, pc]
    refine simulates_still rfl rfl (by simp [drawnBy, pc]) (by simp [stagedBy, pc]) ?_
    exact simulates_stay rfl

end World

end NeEncryptor.Pqc
