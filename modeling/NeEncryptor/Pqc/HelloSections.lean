import NeEncryptor.Pqc.Refinement

/-!
# The HELLO in two sections

`pqc_hs_handle_l3_responder_hello` leaves `g_key_mutex` between staging the key of a new HELLO and
storing the RESP of it.  Other threads may move the binding in between: messages arrive, and a
manual retry wipes NEXT and the cache.  (A retry before the staging only loses the HELLO, since
`pqc_hs_stage_next_key` then refuses it.)  A world whose responder stands there is, for the cutover
protocol, one that has not received the HELLO yet.
-/

namespace NeEncryptor.Pqc

/-- A HELLO whose key is derived and, for a rekey, staged, and whose RESP is not stored yet. -/
structure Answering where
  hello : Hello
  key : TrafficKey
  rotation : Bool
  deriving DecidableEq, Repr

namespace Binding

/-- The first section of `pqc_hs_handle_l3_responder_hello` for a HELLO that is not in the cache:
the binding with the staged key, and whether the HELLO is taken for a rekey. -/
def stageHello (fresh : TrafficKey) (hello : Hello) (b : Binding) : Option (Binding × Answering) :=
  match findCache b.hsCache fun e => e.hello.session == hello.session with
  | some _ => none
  | none =>
    if !keyPresent b.identity.localPriv || !keyPresent b.identity.peerPub then none
    else
      (if b.keyReady then b.pqcHsStageNextKey fresh else some b).map fun b' =>
        (b', ⟨hello, fresh, b.keyReady⟩)

/-- The second section: the RESP is stored and sent. -/
def storeAndSend (now : ℕ) (respSent : Bool) (p : Answering) (b : Binding) : Binding × List Msg :=
  (b.cacheResponse ⟨p.hello, ⟨p.hello.pk, p.key⟩, p.key, false, p.rotation⟩).pqcHsSendCachedResponse
    now respSent b.hsCacheNext p.hello

variable {fresh : TrafficKey} {h : Hello} {b b' : Binding} {p : Answering}

theorem stageHello_some (staged : b.stageHello fresh h = some (b', p)) :
    findCache b.hsCache (fun e => e.hello.session == h.session) = none ∧
      p = ⟨h, fresh, b.keyReady⟩ ∧
      (if b.keyReady then b.pqcHsStageNextKey fresh else some b) = some b' := by
  unfold stageHello at staged
  split at staged
  · cases staged
  · rename_i unknown
    split at staged
    · cases staged
    · obtain ⟨b'', stages, ⟨⟩⟩ := Option.map_eq_some_iff.mp staged
      exact ⟨unknown, rfl, stages⟩

theorem stageHello_cache (staged : b.stageHello fresh h = some (b', p)) :
    b'.hsCache = b.hsCache ∧ b'.hsCacheNext = b.hsCacheNext := by
  obtain ⟨-, -, stages⟩ := stageHello_some staged
  unfold pqcHsStageNextKey at stages
  split_ifs at stages
  · cases stages
    exact ⟨rfl, rfl⟩
  · cases stages
    exact ⟨rfl, rfl⟩

/-- With nothing in between, the two sections are the handler. -/
theorem storeAndSend_stageHello (now : ℕ) (sent : Bool)
    (staged : b.stageHello fresh h = some (b', p)) :
    b.pqcHsHandleL3ResponderHello now sent fresh h = b'.storeAndSend now sent p := by
  unfold stageHello at staged
  unfold pqcHsHandleL3ResponderHello
  split at staged
  · cases staged
  · rename_i unknown
    rw [unknown]
    dsimp only
    split at staged
    · cases staged
    · rename_i present
      rw [if_neg present]
      obtain ⟨b'', found, ⟨⟩⟩ := Option.map_eq_some_iff.mp staged
      rw [found]
      rfl

/-- The RESP of a rekey is sent and moves no key. -/
theorem storeAndSend_rotation {now : ℕ} {sent : Bool} (rekey : p.rotation = true) :
    b.storeAndSend now sent p =
      (b.cacheResponse ⟨p.hello, ⟨p.hello.pk, p.key⟩, p.key, false, p.rotation⟩,
        if sent then [.resp p.hello.session ⟨p.hello.pk, p.key⟩] else []) := by
  unfold storeAndSend pqcHsSendCachedResponse
  rw [show (b.cacheResponse _).hsCache b.hsCacheNext = some _ from Function.update_self ..]
  cases sent with
  | false => simp
  | true => simp [rekey]

theorem tidy_storeAndSend (now : ℕ) (sent : Bool) (p : Answering) (b : Binding) :
    Tidy b (b.storeAndSend now sent p).1 := by
  have stored (e : HsCacheEntry) : Tidy b (b.cacheResponse e) := .of_same (fun _ => id) rfl rfl
  exact (stored _).trans (tidy_sendCachedResponse now sent _ _ _)

end Binding

namespace Node

variable {d : Draws} {n n' : Node ResPc} {p : Answering}

/-- The first section for the message that the responder receives. -/
def stages (d : Draws) (n : Node ResPc) : Option (Node ResPc × Answering) :=
  match n.receives with
  | some (.hello h) =>
    (({ n.b with rxQueue := n.b.rxQueue.tail } : Binding).stageHello d.fresh h).map fun (b, p) =>
      ({ n with b := b }, p)
  | _ => none

/-- The second section, and where the loop goes on. -/
def answers (d : Draws) (p : Answering) (n : Node ResPc) : Node ResPc × List Msg :=
  let (b, msgs) := n.b.storeAndSend n.now d.respSent p
  ({ n with b := b, pc := if n.pc = .listeningRecv then .listening else .top }, msgs)

theorem stages_some (staged : n.stages d = some (n', p)) :
    (n.pc = .listeningRecv ∨ n.pc = .onlineRecv) ∧
      n.b.rxQueue = .hello p.hello :: n.b.rxQueue.tail ∧
      n' = { n with b := n'.b } ∧
      ({ n.b with rxQueue := n.b.rxQueue.tail } : Binding).stageHello d.fresh p.hello =
        some (n'.b, p) := by
  unfold stages at staged
  split at staged
  · rename_i h received
    obtain ⟨⟨b, p'⟩, found, ⟨⟩⟩ := Option.map_eq_some_iff.mp staged
    have hello : p.hello = h := by rw [(Binding.stageHello_some found).2.1]
    unfold receives at received
    split at received
    · rename_i receiving
      obtain ⟨rest, queue⟩ := List.head?_eq_some_iff.mp received
      rw [hello]
      exact ⟨receiving, by rw [queue]; rfl, rfl, found⟩
    · cases received
  · cases staged

theorem takes_of_stages (staged : n.stages d = some (n', p)) : n.takes = some p.hello := by
  obtain ⟨receiving, queue, -, stagedHello⟩ := stages_some staged
  have unknown : findCache n.b.hsCache (fun e => e.hello.session == p.hello.session) = none :=
    (Binding.stageHello_some stagedHello).1
  rw [takes, receives, if_pos receiving, queue]
  dsimp only [List.head?_cons]
  rw [unknown]
  rfl

/-- With nothing in between, the two sections are one step of the worker. -/
theorem answers_stages {P : Primitives} (staged : n.stages d = some (n', p)) :
    responderWork P d n = n'.answers d p := by
  obtain ⟨receiving, queue, moved, stagedHello⟩ := stages_some staged
  have whole := Binding.storeAndSend_stageHello n.now d.respSent stagedHello
  have popped : rxRecv n.b =
      (some (.hello p.hello), { n.b with rxQueue := n.b.rxQueue.tail }) := by
    unfold rxRecv
    split
    · rename_i empty
      rw [empty] at queue
      cases queue
    · rename_i m rest here
      rw [here] at queue ⊢
      rw [(List.cons.inj queue).1]
      rfl
  rw [moved]
  unfold responderWork answers
  rcases receiving with pc | pc
  · rw [pc, popped]
    dsimp only
    rw [whole]
    rfl
  · rw [pc, popped]
    dsimp only
    rw [whole]
    rfl

end Node

/-- Two parties whose responder may stand between the two sections. -/
structure SplitWorld where
  world : World
  answering : Option Answering
  deriving DecidableEq

namespace SplitWorld

variable (P : Primitives)

def initial (p : Parties) : SplitWorld := ⟨.initial p, none⟩

/-- The responder stores and sends the RESP. -/
def answer (w : World) (d : Draws) (p : Answering) : World :=
  let (n, msgs) := w.res.answers d p
  { w with
    res := n
    toIni := msgs ++ w.toIni
    hist := { w.hist with taken := ⟨p.hello, p.key, p.rotation⟩ :: w.hist.taken } }

/-- A step of the responder's worker: a new HELLO takes two. -/
def workRes (s : SplitWorld) (d : Draws) : Option SplitWorld :=
  match s.answering with
  | some p => some ⟨answer s.world d p, none⟩
  | none =>
    if s.world.Fresh d then
      match s.world.res.stages d with
      | some (n, p) => some ⟨{ s.world with res := n }, some p⟩
      | none => some ⟨s.world.workRes P d, none⟩
    else none

def step (s : SplitWorld) : Act → Option SplitWorld
  | .workRes d => s.workRes P d
  | .restartRes now id => (s.world.step P (.restartRes now id)).map fun w => ⟨w, none⟩
  | a => (s.world.step P a).map fun w => ⟨w, s.answering⟩

/-- An uninterrupted answer is a step of the world. -/
theorem answer_stages {w : World} {d : Draws} {n : Node ResPc} {p : Answering}
    (staged : w.res.stages d = some (n, p)) : answer { w with res := n } d p = w.workRes P d := by
  obtain ⟨receiving, queue, moved, stagedHello⟩ := Node.stages_some staged
  obtain ⟨-, isNew, stages⟩ := Binding.stageHello_some stagedHello
  have whole := Node.answers_stages (P := P) staged
  have next : (n.answers d p).1.b.hsCacheNext ≠ w.res.b.hsCacheNext := by
    have advanced : (n.answers d p).1.b.hsCacheNext = w.res.b.hsCacheNext + 1 := by
      rw [← (Binding.stageHello_cache stagedHello).2]
      exact World.cachedResponse_hsCacheNext ..
    rw [advanced]
    generalize w.res.b.hsCacheNext = slot
    revert slot
    decide
  have taken : takenBy d.fresh w.res (n.answers d p).1 = [⟨p.hello, p.key, p.rotation⟩] := by
    rw [takenBy, Node.takes_of_stages staged]
    dsimp only
    rw [if_neg next, isNew]
  have noReady : readyPromotedBy w.res (n.answers d p).1 = [] := by
    rw [readyPromotedBy, Node.receives, if_pos receiving, queue]
    rfl
  unfold answer World.workRes
  dsimp only
  rw [whole, taken, noReady]
  rfl

end SplitWorld

namespace World

variable {P : Primitives} {w w' : World} {a : Act} {p : Answering} {h : Hello} {before : KeySlot}

/-- The world before the responder received the HELLO, with its NEXT of then. -/
def unstaged (w : World) (h : Hello) (before : KeySlot) : World :=
  { w with res := { w.res with b := { w.res.b with
    slots := { w.res.b.slots with next := before }
    rxQueue := .hello h :: w.res.b.rxQueue } } }

/-- A responder between the two sections, whose NEXT was `before`. -/
structure Between (P : Primitives) (w : World) (p : Answering) (before : KeySlot) : Prop where
  sane : (w.unstaged p.hello before).Sane
  receiving : w.res.pc = .listeningRecv ∨ w.res.pc = .onlineRecv
  ready : w.res.b.keyReady = p.rotation
  unknown : findCache w.res.b.hsCache (fun e => e.hello.session == p.hello.session) = none
  fresh : ∀ t ∈ w.hist.taken, t.key ≠ p.key
  next : w.res.b.slots.next.key? = if p.rotation then some p.key else before.key?
  /-- The discarding of PREV is scheduled for a peer that uses CURRENT only. -/
  armed : p.rotation = true → w.res.b.prevDiscardAfterMs ≠ 0 →
    ∃ st, .keepalive st ∈ w.toRes ∧ st.state = .online ∧
      w.res.b.slots.current.key?.map P.sha256 = some st.keyFingerprint

/-- What the second section starts from, as one step would. -/
def stagedBinding (w : World) (p : Answering) : Binding :=
  { w.res.b with prevDiscardAfterMs := if p.rotation then 0 else w.res.b.prevDiscardAfterMs }

theorem receives_unstaged (receiving : w.res.pc = .listeningRecv ∨ w.res.pc = .onlineRecv)
    (h : Hello) : (w.unstaged h before).res.receives = some (.hello h) := if_pos receiving

theorem Between.stagedFor (between : Between P w p before) :
    StagedFor p.key (w.unstaged p.hello before).res.b (w.stagedBinding p) := by
  have ready : (w.unstaged p.hello before).res.b.keyReady = p.rotation := between.ready
  have next := between.next
  refine ⟨rfl, rfl, rfl, ?_, ?_⟩
  · rw [ready]
    simp only [keysOf, stagedBinding, unstaged]
    cases rekey : p.rotation with
    | true => simpa [rekey] using next
    | false => simpa [rekey] using next
  · rw [ready]
    simp only [stagedBinding, unstaged]
    cases p.rotation with
    | true => rfl
    | false => rfl

theorem Between.takes (between : Between P w p before) :
    (w.unstaged p.hello before).res.takes = some p.hello := by
  have unknown : findCache (w.unstaged p.hello before).res.b.hsCache
    (fun e => e.hello.session == p.hello.session) = none := between.unknown
  rw [Node.takes, receives_unstaged between.receiving]
  dsimp only
  rw [unknown]
  rfl

/-- The second section is what one step does to a HELLO that has not been received yet. -/
theorem simulates_answer (between : Between P w p before) (d : Draws) :
    Simulates P (w.unstaged p.hello before) (.workRes ⟨none, none, p.key, d.respSent, false⟩)
      (w.unstaged p.hello before).view (SplitWorld.answer w d p).view := by
  have fresh : (w.unstaged p.hello before).Fresh ⟨none, none, p.key, d.respSent, false⟩ :=
    ⟨nofun, between.fresh⟩
  have sent : .hello p.hello ∈ (w.unstaged p.hello before).toRes :=
    between.sane.resQueue _ List.mem_cons_self
  have ready : (w.unstaged p.hello before).res.b.keyReady = p.rotation := between.ready
  have run := simulates_takeNew (P := P) fresh sent between.takes between.stagedFor rfl
  rw [ready] at run
  change Simulates P _ _ _ (View.withRes _
    ((w.stagedBinding p).storeAndSend w.res.now d.respSent p).1
    ((w.stagedBinding p).storeAndSend w.res.now d.respSent p).2) at run
  cases rekey : p.rotation with
  | false =>
    have same : w.stagedBinding p = w.res.b := by
      rw [stagedBinding, rekey]
      rfl
    rw [same, rekey] at run
    unfold SplitWorld.answer Node.answers
    rw [rekey]
    exact run
  | true =>
    rw [Binding.storeAndSend_rotation rekey, rekey] at run
    have reset : (w.stagedBinding p).prevDiscardAfterMs = 0 := if_pos rekey
    generalize isEnd : View.withRes _ ((w.stagedBinding p).cacheResponse _) _ = v at run
    have off : v.armed = false := by
      rw [← isEnd]
      simp [View.withRes, Binding.cacheResponse, reset]
    have final : (SplitWorld.answer w d p).view =
        { v with armed := w.res.b.prevDiscardAfterMs != 0 } := by
      rw [← isEnd]
      unfold SplitWorld.answer Node.answers
      rw [Binding.storeAndSend_rotation rekey, rekey]
      rfl
    rw [final]
    by_cases quiet : w.res.b.prevDiscardAfterMs = 0
    · rw [quiet, show (0 != 0) = v.armed by rw [off]; rfl]
      exact run
    · obtain ⟨st, sent, online, fp⟩ := between.armed rekey quiet
      refine run.tail (a := .arm st) trivial ?_
      have current : v.rKeys.current = w.res.b.slots.current.key? := by
        rw [← isEnd]
        rfl
      have listed : .keepalive st ∈ v.toRes := by
        rw [← isEnd]
        exact sent
      rw [View.apply, if_pos ⟨listed, online, current ▸ fp⟩, bne_iff_ne.mpr quiet]

/-- A binding between the two sections is no more than one that has received less. -/
theorem Between.world_sane (between : Between P w p before) : w.Sane :=
  ⟨between.sane.iniQueue, fun m mem => between.sane.resQueue m (List.mem_cons_of_mem _ mem),
    between.sane.iniAsleep, between.sane.resAsleep⟩

/-- What the other threads and the initiator may do while the responder stands between the two
sections. -/
structure Aside (P : Primitives) (w w' : World) : Prop where
  pc : w'.res.pc = w.res.pc
  slots : w'.res.b.slots = w.res.b.slots
  keyReady : w'.res.b.keyReady = w.res.b.keyReady
  cache : w'.res.b.hsCache = w.res.b.hsCache ∨ w'.res.b.hsCache = fun _ => none
  discard : w'.res.b.prevDiscardAfterMs = w.res.b.prevDiscardAfterMs ∨
    w'.res.b.prevDiscardAfterMs = 0 ∨ ∃ st, .keepalive st ∈ w.toRes ∧ st.state = .online ∧
      w.res.b.slots.current.key?.map P.sha256 = some st.keyFingerprint
  taken : w'.hist.taken = w.hist.taken
  toRes : ∀ m ∈ w.toRes, m ∈ w'.toRes

theorem Aside.of_same (b : w'.res.b = w.res.b) (pc : w'.res.pc = w.res.pc)
    (taken : w'.hist.taken = w.hist.taken) (toRes : ∀ m ∈ w.toRes, m ∈ w'.toRes) : Aside P w w' :=
  ⟨pc, by rw [b], by rw [b], .inl (by rw [b]), .inl (by rw [b]), taken, toRes⟩

theorem Aside.of_calm {m : Option Msg} {b : Binding} (sent : ∀ x, m = some x → x ∈ w.toRes)
    (calm : Binding.Calm P m w.res.b b) :
    Aside P w { w with res := { w.res with b := b } } where
  pc := rfl
  slots := calm.slots
  keyReady := calm.keyReady
  cache := calm.cache.imp And.left fun cleared => cleared.2.1
  discard := calm.discard.imp_right (Or.imp_right fun ⟨st, delivered, online, fp⟩ =>
    ⟨st, sent _ delivered, online, fp⟩)
  taken := rfl
  toRes := fun _ => id

theorem Between.aside (between : Between P w p before) (aside : Aside P w w')
    (sane : (w'.unstaged p.hello before).Sane) : Between P w' p before where
  sane := sane
  receiving := by
    rw [aside.pc]
    exact between.receiving
  ready := aside.keyReady.trans between.ready
  unknown := by
    rcases aside.cache with same | cleared
    · rw [same]
      exact between.unknown
    · rw [cleared]
      exact findCache_none.mpr nofun
  fresh := by
    rw [aside.taken]
    exact between.fresh
  next := by
    rw [aside.slots]
    exact between.next
  armed := by
    intro rekey armed
    rw [aside.slots]
    rcases aside.discard with same | zero | ⟨st, sent, fact⟩
    · rw [same] at armed
      obtain ⟨st, sent, fact⟩ := between.armed rekey armed
      exact ⟨st, aside.toRes _ sent, fact⟩
    · exact absurd zero armed
    · exact ⟨st, aside.toRes _ sent, fact⟩

/-- A calm step of the responder is one of the world before it received the HELLO. -/
theorem calm_unstaged {m : Option Msg} {b : Binding} (calm : Binding.Calm P m w.res.b b) :
    Binding.Calm P m (w.unstaged h before).res.b
      { b with
        slots := { b.slots with next := before }
        rxQueue := .hello h :: b.rxQueue } where
  slots := by
    dsimp only [unstaged]
    rw [calm.slots]
  keyReady := calm.keyReady
  asleep := calm.asleep
  cache := calm.cache
  discard := calm.discard
  queue := by
    intro x mem
    rcases List.mem_cons.mp mem with rfl | mem
    · exact .inr List.mem_cons_self
    · exact (calm.queue x mem).imp_right (List.mem_cons_of_mem _)

/-- The steps that leave the responder's worker, its keys and its cache alone. -/
theorem aside_step (between : Between P w p before) (worker : ∀ d, a ≠ .workRes d)
    (retry : ∀ id, a ≠ .retryRes id) (restart : ∀ now id, a ≠ .restartRes now id)
    (enabled : w.step P a = some w') :
    Aside P w w' ∧ (w'.unstaged p.hello before).Sane ∧
      Simulates P (w.unstaged p.hello before) a (w.unstaged p.hello before).view
        (w'.unstaged p.hello before).view := by
  have exact_step (aside : Aside P w w')
      (goes : (w.unstaged p.hello before).step P a = some (w'.unstaged p.hello before)) :
      Aside P w w' ∧ (w'.unstaged p.hello before).Sane ∧
        Simulates P (w.unstaged p.hello before) a (w.unstaged p.hello before).view
          (w'.unstaged p.hello before).view :=
    ⟨aside, sane_step between.sane goes, simulates_step between.sane goes⟩
  cases a with
  | workRes d => exact absurd rfl (worker d)
  | retryRes id => exact absurd rfl (retry id)
  | restartRes now id => exact absurd rfl (restart now id)
  | tickIni d | tickRes d | requestIni | retryIni id | stopIni | restartIni now id =>
    cases enabled
    exact exact_step (.of_same rfl rfl rfl fun _ mem => mem) rfl
  | stopRes =>
    cases enabled
    exact exact_step ⟨rfl, rfl, rfl, .inl rfl, .inl rfl, rfl, fun _ => id⟩ rfl
  | workIni d =>
    simp only [step, Option.ite_none_right_eq_some, Option.some_inj] at enabled
    obtain ⟨fresh, rfl⟩ := enabled
    refine exact_step (.of_same rfl rfl rfl fun m mem => List.mem_append_right _ mem) ?_
    rw [step, if_pos (show (w.unstaged p.hello before).Fresh d from fresh)]
    rfl
  | deliverIni m =>
    simp only [step, Option.ite_none_right_eq_some, Option.some_inj] at enabled
    obtain ⟨sent, rfl⟩ := enabled
    refine exact_step (.of_same rfl rfl rfl fun _ => id) ?_
    rw [step, if_pos (show m ∈ (w.unstaged p.hello before).toIni from sent)]
    rfl
  | startIni =>
    obtain ⟨n, started, rfl⟩ := Option.map_eq_some_iff.mp enabled
    exact exact_step (.of_same rfl rfl rfl fun _ => id)
      (Option.map_eq_some_iff.mpr ⟨n, started, rfl⟩)
  | startRes =>
    obtain ⟨n, started, rfl⟩ := Option.map_eq_some_iff.mp enabled
    unfold Node.workerStart at started
    rw [if_neg] at started
    · cases started
    · rintro ⟨stopped, -⟩
      rcases between.receiving with receiving | receiving
      · cases stopped.symm.trans receiving
      · cases stopped.symm.trans receiving
  | deliverRes m =>
    simp only [step, Option.ite_none_right_eq_some, Option.some_inj] at enabled
    obtain ⟨sent, rfl⟩ := enabled
    have listed : ∀ x, some m = some x → x ∈ w.toRes := by simpa using sent
    have calm := Binding.calm_feed (P := P) w.res.now m (b := w.res.b) between.sane.resAsleep
    exact ⟨.of_calm listed calm,
      between.sane.calmRes (P := P) (m := some m) listed (calm_unstaged calm),
      simulates_calmRes (w := w.unstaged p.hello before) (m := some m) listed (calm_unstaged calm)⟩
  | requestRes =>
    cases enabled
    have calm := Binding.calm_requestNewSession (P := P) (m := none) w.res.b
    exact ⟨.of_calm (by simp) calm,
      between.sane.calmRes (P := P) (m := none) (by simp) (calm_unstaged calm),
      simulates_calmRes (w := w.unstaged p.hello before) (m := none) (by simp) (calm_unstaged calm)⟩

/-- The first section: the HELLO is still to be received, for all that the protocol sees. -/
theorem between_stages {d : Draws} {n : Node ResPc} (sane : w.Sane) (fresh : w.Fresh d)
    (staged : w.res.stages d = some (n, p)) :
    ∃ before, Between P { w with res := n } p before ∧
      Simulates P w a w.view (({ w with res := n } : World).unstaged p.hello before).view := by
  obtain ⟨receiving, queue, moved, stagedHello⟩ := Node.stages_some staged
  obtain ⟨unknown, isNew, stages⟩ := Binding.stageHello_some stagedHello
  have key : p.key = d.fresh := congrArg Answering.key isNew
  have rekey : p.rotation = w.res.b.keyReady := congrArg Answering.rotation isNew
  have pc : n.pc = w.res.pc := by rw [moved]
  have newKey : ∀ t ∈ w.hist.taken, t.key ≠ p.key := key ▸ fresh.2
  refine ⟨w.res.b.slots.next, ?_⟩
  cases ready : w.res.b.keyReady with
  | false =>
    rw [if_neg (by simp [ready]), Option.some_inj] at stages
    have same : ({ w with res := n } : World).unstaged p.hello w.res.b.slots.next = w := by
      rw [moved, ← stages]
      unfold unstaged
      dsimp only
      rw [← queue]
    rw [same]
    refine ⟨⟨same.symm ▸ sane, pc ▸ receiving, ?_, ?_, newKey, ?_, ?_⟩, .refl⟩
    · rw [rekey, ← stages]
    · rw [← stages]
      exact unknown
    · rw [rekey, ready, ← stages]
      rfl
    · rw [rekey, ready]
      nofun
  | true =>
    rw [if_pos (by simp [ready])] at stages
    unfold Binding.pqcHsStageNextKey at stages
    split at stages
    · rw [Option.some_inj] at stages
      have early : ({ w with res := n } : World).unstaged p.hello w.res.b.slots.next =
          { w with res := { w.res with b := { w.res.b with prevDiscardAfterMs := 0 } } } := by
        rw [moved, ← stages]
        unfold unstaged
        dsimp only
        rw [← queue]
        rfl
      rw [early]
      refine ⟨⟨early.symm ▸ ⟨sane.iniQueue, sane.resQueue, sane.iniAsleep, sane.resAsleep⟩,
        pc ▸ receiving, ?_, ?_, newKey, ?_, ?_⟩, .single (a := .disarm) trivial rfl⟩
      · rw [rekey, ← stages]
      · rw [← stages]
        exact unknown
      · rw [rekey, ready, ← stages, key]
        rfl
      · intro _ armed
        rw [← stages] at armed
        exact absurd rfl armed
    · cases stages

/-- A retry in the gap of a first handshake wipes nothing that the RESP needs. -/
theorem Between.retry (between : Between P w p before) (first : p.rotation = false)
    (id : BitVec 64) :
    let w' := { w with res := { w.res with b := w.res.b.sigPqcTriggerRetry w.res.now id } }
    Between P w' p .wiped ∧
      Simulates P (w.unstaged p.hello before) (.retryRes id) (w.unstaged p.hello before).view
        (w'.unstaged p.hello .wiped).view := by
  obtain ⟨queue, asleep⟩ := tidy_triggerRetry w.res.now id w.res.b
  have sane := between.sane
  have world := between.world_sane
  refine ⟨⟨⟨sane.iniQueue, ?_, sane.iniAsleep, ?_⟩, ?_, ?_, ?_, between.fresh, ?_, ?_⟩, ?_⟩
  · intro m mem
    rcases List.mem_cons.mp mem with rfl | mem
    · exact sane.resQueue _ List.mem_cons_self
    · exact world.resQueue m (queue m mem)
  · exact asleep world.resAsleep
  · exact between.receiving
  · rw [first, Binding.triggerRetry_keyReady]
  · unfold Binding.sigPqcTriggerRetry
    dsimp only
    split
    · exact findCache_none.mpr nofun
    · exact between.unknown
  · rw [first, Binding.triggerRetry_slots]
    rfl
  · rw [first]
    nofun
  · have run := simulates_retryRes (P := P) (w := w.unstaged p.hello before) id
    refine Eq.subst (motive := Simulates P _ _ _) ?_ run
    unfold unstaged view Binding.sigPqcTriggerRetry
    dsimp only
    split <;> rfl

end World

end NeEncryptor.Pqc
