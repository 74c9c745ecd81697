import NeEncryptor.Pqc.CommitWait
import NeEncryptor.Pqc.HelloSections

/-!
# The commit wait over runs

The responder keeps what an unfinished rekey needs, step by step, in runs where every new HELLO
takes the two sections of its handler and anything may happen between them.
-/

namespace NeEncryptor.Pqc

namespace View

variable {P : Primitives} {v v' : View}

/-- What the cache holds of an unfinished rekey has been promoted. -/
def Settled (v : View) : Prop :=
  ∀ s, v.phase.openRotation = some s → ∀ i e, v.cache i = some e → e.hello.session = s →
    e.keyPromoted = true

theorem Settled.of_frame (settled : v.Settled) (cache : v'.cache = v.cache)
    (opened : ∀ s, v'.phase.openRotation = some s → v.phase.openRotation = some s) : v'.Settled :=
  fun s here i e cached => settled s (opened s here) i e (cache ▸ cached)

theorem Settled.promoteRes (settled : v.Settled) {slot : Fin 4} {e' : HsCacheEntry} :
    (v.promoteRes slot e').Settled := by
  intro s here i e cached session
  by_cases same : i = slot
  · subst same
    rw [show (v.promoteRes i e').cache i = _ from Function.update_self ..] at cached
    cases cached
    rfl
  · rw [show (v.promoteRes slot e').cache i = _ from Function.update_of_ne same _ _] at cached
    exact settled s here i e cached session

/-- Only a HELLO that is taken as new brings an entry that is not promoted. -/
theorem settled_apply {ev : Event} (led : Ledger P v) (settled : v.Settled)
    (keeps : KeepsRekey v ev) (other : ∀ h key, ev ≠ .take h key) (h : v.apply P ev = some v') :
    v'.Settled := by
  cases ev with
  | take x key => exact absurd rfl (other x key)
  | draw x rekey =>
    simp only [apply, Option.ite_none_right_eq_some, Option.some_inj] at h
    obtain ⟨-, rfl⟩ := h
    intro s opened i e cached session
    obtain ⟨t, ht, rec⟩ := led.cacheTaken i e cached
    have mine : x.session = s := by cases rekey <;> simp_all [Phase.openRotation]
    refine absurd ?_ (keeps _ (led.takenDrawn t ht))
    rw [rec.hello, session, mine]
  | reply slot e =>
    simp only [apply, Option.ite_none_right_eq_some, Option.some_inj] at h
    obtain ⟨-, rfl⟩ := h
    split
    · exact settled.of_frame rfl fun _ => id
    · exact Settled.promoteRes (v := { v with toIni := _ }) (settled.of_frame rfl fun _ => id)
  | ready slot e =>
    simp only [apply, Option.ite_none_right_eq_some, Option.some_inj] at h
    obtain ⟨-, rfl⟩ := h
    split
    · exact settled.of_frame rfl fun _ => id
    · exact (Settled.promoteRes (v := { v with toIni := _ })
        (settled.of_frame rfl fun _ => id)).of_frame rfl fun _ => id
  | clear =>
    simp only [apply, Option.ite_none_right_eq_some, Option.some_inj] at h
    obtain ⟨-, rfl⟩ := h
    intro _ _ _ _ cached
    cases cached
  | restartRes =>
    cases h
    intro _ _ _ _ cached
    cases cached
  | leave | commit x key =>
    simp only [apply, Option.ite_none_right_eq_some, Option.some_inj] at h
    obtain ⟨-, rfl⟩ := h
    exact settled.of_frame rfl (by simp [Phase.openRotation])
  | stage x ct =>
    simp only [apply, Option.ite_none_right_eq_some, Option.some_inj] at h
    obtain ⟨⟨phase, -⟩, rfl⟩ := h
    exact settled.of_frame rfl (by rw [phase]; exact fun _ => id)
  | abandon x =>
    simp only [apply, Option.ite_none_right_eq_some, Option.some_inj] at h
    obtain ⟨phase, rfl⟩ := h
    exact settled.of_frame rfl (by rw [phase]; exact fun _ => id)
  | commitFails x =>
    simp only [apply, Option.ite_none_right_eq_some, Option.some_inj] at h
    obtain ⟨⟨phase, -⟩, rfl⟩ := h
    exact settled.of_frame rfl (by rw [phase]; exact fun _ => id)
  | sendIni m | accept x ct | sendRes m | arm st | discardRes =>
    simp only [apply, Option.ite_none_right_eq_some, Option.some_inj] at h
    obtain ⟨-, rfl⟩ := h
    exact settled.of_frame rfl fun _ => id
  | discardIni | retryIni | disarm | retryRes =>
    cases h
    exact settled.of_frame rfl fun _ => id
  | restartIni =>
    cases h
    exact settled.of_frame rfl (by simp [Phase.openRotation])

end View

namespace World

variable {P : Primitives} {w w' : World} {a : Act} {p : Answering} {h : Hello} {before : KeySlot}

/-- What an unfinished rekey needs of a step while the responder is to store the RESP of `p`: it is
not retried once the key of `p` is staged. -/
def KeepsAnswered (w : World) (p : Answering) : Act → Prop
  | .workRes _ => ∀ s ∈ w.ini.openRotation, (p.hello.session = s → p.rotation = true) ∧
      (p.hello.session ≠ s → ∀ i, ∀ e ∈ w.res.b.hsCache i, e.hello.session = s →
        e.keyPromoted = true ∧ i ≠ w.res.b.hsCacheNext)
  | .retryRes id => p.rotation = false ∧ w.KeepsRekey (.retryRes id)
  | a => w.KeepsRekey a

instance (w : World) (p : Answering) : DecidablePred (w.KeepsAnswered p)
  | .workRes _ => decidable_of_iff ((w.ini.openRotation.all fun s =>
      if p.hello.session = s then p.rotation else
        (List.finRange 4).all fun i => (w.res.b.hsCache i).all fun e =>
          e.hello.session != s || e.keyPromoted && i != w.res.b.hsCacheNext) = true)
      (by
        simp only [KeepsAnswered, Option.all_eq_true, Option.mem_def]
        refine forall₂_congr fun s _ => ?_
        split
        · simp [*]
        · simp [*, Option.all_eq_true, or_iff_not_imp_left])
  | .retryRes id => inferInstanceAs (Decidable (p.rotation = false ∧ w.KeepsRekey (.retryRes id)))
  | .workIni d => inferInstanceAs (Decidable (w.KeepsRekey (.workIni d)))
  | .restartRes now id => inferInstanceAs (Decidable (w.KeepsRekey (.restartRes now id)))
  | .tickIni _ | .tickRes _ | .deliverIni _ | .deliverRes _ | .requestIni | .requestRes
  | .retryIni _ | .stopIni | .stopRes | .startIni | .startRes | .restartIni _ _ => .isTrue trivial

theorem keepsRekey_unstaged (other : ∀ d, a ≠ .workRes d) (keeps : w.KeepsRekey a) :
    (w.unstaged h before).KeepsRekey a := by
  cases a with
  | workRes d => exact absurd rfl (other d)
  | _ => exact keeps

/-- No such step leaves an unfinished rekey with an entry that is not promoted. -/
theorem settled_simulates {v v' : View} (led : View.Ledger P v) (settled : v.Settled)
    (keeps : w.KeepsRekey a) (worker : ∀ d, a ≠ .workRes d) (run : Simulates P w a v v') :
    v'.Settled := by
  refine (run.invariant (I := fun v => View.Ledger P v ∧ v.Settled) ⟨led, settled⟩
    fun v ev v' inv caused applied => ⟨View.ledger_apply inv.1 applied, ?_⟩).2
  refine View.settled_apply inv.1 inv.2 (keepsRekey_caused keeps caused) ?_ applied
  rintro x key rfl
  obtain ⟨⟨d, same⟩, -⟩ := caused
  exact worker d same

/-- When the key of a HELLO is staged, what the cache holds of an unfinished rekey was promoted. -/
theorem settled_stages {d : Draws} {n : Node ResPc} (keeps : w.KeepsRekey (.workRes d))
    (staged : w.res.stages d = some (n, p)) :
    (({ w with res := n } : World).unstaged p.hello before).view.Settled := by
  obtain ⟨-, -, -, stagedHello⟩ := Node.stages_some staged
  intro s opened i e cached session
  have here : w.res.b.hsCache i = some e :=
    (congrFun (Binding.stageHello_cache stagedHello).1 i).symm.trans cached
  have other : p.hello.session ≠ s := by
    rintro rfl
    have known := findCache_none.mp (Binding.stageHello_some stagedHello).1 i e here
    rw [session, beq_self_eq_true] at known
    cases known
  have rekey : w.ini.openRotation = some s := (openRotation_view w).symm.trans opened
  exact (((keeps s rekey).1 p.hello (Node.takes_of_stages staged)).2 other i e here session).1

theorem Between.keeps_answer (between : Between P w p before) {d d' : Draws}
    (keeps : w.KeepsAnswered p (.workRes d)) :
    (w.unstaged p.hello before).KeepsRekey (.workRes d') := by
  have answersFrom : (w.unstaged p.hello before).res.answersFrom = none := by
    rw [Node.answersFrom, receives_unstaged between.receiving]
    change Option.filter _ ((findCache w.res.b.hsCache _).map _) = none
    rw [between.unknown]
    rfl
  intro s opened
  rw [between.takes, answersFrom]
  obtain ⟨mine, others⟩ := keeps s opened
  constructor
  · rintro h ⟨⟩
    exact ⟨fun same => between.ready.trans (mine same), others⟩
  · rintro e ⟨⟩

end World

namespace SplitWorld

variable {P : Primitives} {s s' : SplitWorld} {a : Act}

/-- While a rekey is unfinished, no step takes away what its commit needs. -/
def KeepsRekey (s : SplitWorld) (a : Act) : Prop :=
  match s.answering with
  | none => s.world.KeepsRekey a
  | some p => s.world.KeepsAnswered p a

instance (s : SplitWorld) : DecidablePred s.KeepsRekey := fun a =>
  match s with
  | ⟨w, none⟩ => inferInstanceAs (Decidable (w.KeepsRekey a))
  | ⟨w, some p⟩ => inferInstanceAs (Decidable (w.KeepsAnswered p a))

/-- The protocol has come as far as the world before the HELLO that the responder is answering. -/
def Inv (P : Primitives) (s : SplitWorld) : Prop :=
  match s.answering with
  | none => s.world.Sane ∧
      Transition.ReachableWith (View.apply P) View.KeepsRekey .start s.world.view
  | some p => ∃ before, World.Between P s.world p before ∧
      (p.rotation = true → (s.world.unstaged p.hello before).view.Settled) ∧
      Transition.ReachableWith (View.apply P) View.KeepsRekey .start
        (s.world.unstaged p.hello before).view

theorem inv_initial (p : Parties) : Inv P (initial p) := by
  refine ⟨World.sane_initial p, ?_⟩
  change Transition.ReachableWith _ _ _ (World.initial p).view
  rw [World.view_initial]
  exact .refl

/-- A step with no HELLO in the middle of its answer. -/
theorem inv_whole {w w' : World} (inv : Inv P ⟨w, none⟩) (keeps : w.KeepsRekey a)
    (enabled : w.step P a = some w') : Inv P ⟨w', none⟩ := by
  obtain ⟨sane, reached⟩ := inv
  refine ⟨World.sane_step sane enabled, reached.trans ?_⟩
  exact (World.simulates_step sane enabled).mono fun v ev => World.keepsRekey_caused keeps

theorem inv_aside {w w' : World} {p : Answering} (inv : Inv P ⟨w, some p⟩)
    (keeps : w.KeepsRekey a) (worker : ∀ d, a ≠ .workRes d) (retry : ∀ id, a ≠ .retryRes id)
    (restart : ∀ now id, a ≠ .restartRes now id) (enabled : w.step P a = some w') :
    Inv P ⟨w', some p⟩ := by
  obtain ⟨before, between, settled, reached⟩ := inv
  obtain ⟨aside, sane, run⟩ := World.aside_step between worker retry restart enabled
  have unstaged : (w.unstaged p.hello before).KeepsRekey a :=
    World.keepsRekey_unstaged worker keeps
  refine ⟨before, between.aside aside sane, fun rekey => ?_,
    reached.trans (run.mono fun v ev => World.keepsRekey_caused unstaged)⟩
  exact World.settled_simulates (View.waiting_reachable reached).1 (settled rekey) unstaged worker
    run

/-- The first section. -/
theorem inv_stages {w : World} {d : Draws} {n : Node ResPc} {p : Answering} (inv : Inv P ⟨w, none⟩)
    (keeps : w.KeepsRekey (.workRes d)) (fresh : w.Fresh d)
    (staged : w.res.stages d = some (n, p)) : Inv P ⟨{ w with res := n }, some p⟩ := by
  obtain ⟨sane, reached⟩ := inv
  obtain ⟨before, between, run⟩ := World.between_stages (P := P) sane fresh staged
  exact ⟨before, between, fun _ => World.settled_stages keeps staged,
    reached.trans (run.mono fun v ev => World.keepsRekey_caused keeps)⟩

/-- A retry in the gap of a first handshake. -/
theorem inv_retry {w : World} {id : BitVec 64} {p : Answering} (inv : Inv P ⟨w, some p⟩)
    (keeps : w.KeepsAnswered p (.retryRes id)) :
    Inv P ⟨{ w with res := { w.res with b := w.res.b.sigPqcTriggerRetry w.res.now id } },
      some p⟩ := by
  obtain ⟨before, between, -, reached⟩ := inv
  obtain ⟨between', run⟩ := between.retry keeps.1 id
  have unstaged : (w.unstaged p.hello before).KeepsRekey (.retryRes id) := keeps.2
  refine ⟨.wiped, between', fun rekey => ?_,
    reached.trans (run.mono fun v ev => World.keepsRekey_caused unstaged)⟩
  rw [keeps.1] at rekey
  cases rekey

/-- The second section. -/
theorem inv_answer {w : World} {d : Draws} {p : Answering} (inv : Inv P ⟨w, some p⟩)
    (keeps : w.KeepsAnswered p (.workRes d)) : Inv P ⟨answer w d p, none⟩ := by
  obtain ⟨before, between, -, reached⟩ := inv
  refine ⟨?_, reached.trans ?_⟩
  · have tidy := Binding.tidy_storeAndSend w.res.now d.respSent p w.res.b
    exact (between.world_sane.tidyRes (n := (w.res.answers d p).1) tidy).moreSent [] _ _
  · exact (World.simulates_answer between d).mono fun v ev =>
      World.keepsRekey_caused (between.keeps_answer keeps)

theorem inv_step (inv : Inv P s) (keeps : s.KeepsRekey a) (enabled : s.step P a = some s') :
    Inv P s' := by
  obtain ⟨w, _ | p⟩ := s
  · have keeps : w.KeepsRekey a := keeps
    have coarse (enabled : (w.step P a).map (fun w => (⟨w, none⟩ : SplitWorld)) = some s') :
        Inv P s' := by
      obtain ⟨w', goes, rfl⟩ := Option.map_eq_some_iff.mp enabled
      exact inv_whole inv keeps goes
    cases a with
    | workRes d =>
      simp only [step, workRes] at enabled
      split at enabled
      · rename_i fresh
        split at enabled
        · rename_i staged
          cases enabled
          exact inv_stages inv keeps fresh staged
        · cases enabled
          exact inv_whole inv keeps (if_pos fresh)
      · cases enabled
    | _ => exact coarse enabled
  · have aside (worker : ∀ d, a ≠ .workRes d) (retry : ∀ id, a ≠ .retryRes id)
        (restart : ∀ now id, a ≠ .restartRes now id) (keeps : w.KeepsRekey a)
        (enabled : (w.step P a).map (fun w => (⟨w, some p⟩ : SplitWorld)) = some s') :
        Inv P s' := by
      obtain ⟨w', goes, rfl⟩ := Option.map_eq_some_iff.mp enabled
      exact inv_aside inv keeps worker retry restart goes
    cases a with
    | workRes d =>
      cases enabled
      exact inv_answer inv keeps
    | retryRes id =>
      cases enabled
      exact inv_retry inv keeps
    | restartRes now id =>
      cases enabled
      obtain ⟨before, between, -, reached⟩ := inv
      exact inv_whole (w := w.unstaged p.hello before) (a := .restartRes now id)
        ⟨between.sane, reached⟩ keeps rfl
    | _ => exact aside (by simp) (by simp) (by simp) keeps enabled

/-- **The commit wait can always be answered**, in every run that keeps what an unfinished rekey
needs. -/
theorem commit_wait_answerable (P : Primitives) (p : Parties) (s : SplitWorld)
    (run : Transition.ReachableWith (step P) KeepsRekey (initial p) s) :
    s.world.CommitAnswerable P := by
  have inv : Inv P s := run.invariant (inv_initial p) fun _ _ _ => inv_step
  obtain ⟨w, _ | p⟩ := s
  · obtain ⟨led, waiting⟩ := View.waiting_reachable inv.2
    exact World.answerable_of_answers led.distinct fun h => waiting.answers_await
  · obtain ⟨before, between, settled, reached⟩ := inv
    obtain ⟨led, waiting⟩ := View.waiting_reachable reached
    refine World.answerable_of_answers led.distinct fun h phase => ?_
    obtain ⟨ready, i, e, cached, session, commits, -⟩ := waiting.answers_await phase
    have rekey : p.rotation = true := between.ready.symm.trans ready
    have opened : (w.unstaged p.hello before).view.phase.openRotation = some h.session :=
      congrArg Phase.openRotation phase
    exact ⟨ready, i, e, cached, session, commits,
      .inl (settled rekey h.session opened i e cached session)⟩

/-- A first handshake with session 1 and key 101. -/
def greeting : List Act :=
  Act.opens 1 ++ Act.serves 101 ++ [.res, .deliverIni (Act.resp 1 101), .ini, .ini, .res]

/-- A rekey with session 2 and key 102, up to the commit wait; `gap` happens between the two
sections of the responder. -/
def rekeyToCommitWait (gap : List Act) : List Act :=
  .requestIni :: Act.opens 2 ++ Act.serves 102 ++ gap ++
    [.res, .deliverIni (Act.resp 2 102), .ini, .ini]

theorem commit_wait_answerable_sample :
    ∃ s, Transition.runWith (step samplePrimitives) KeepsRekey (initial sampleParties)
      (greeting ++ rekeyToCommitWait []) = some s ∧ s.world.ini.commitWaits = some 2 ∧
        s.world.CommitAnswerable samplePrimitives := by
  obtain ⟨s, h, waits⟩ := Option.bind_eq_some_iff.mp (show
    ((Transition.runWith (step samplePrimitives) KeepsRekey (initial sampleParties)
      (greeting ++ rekeyToCommitWait [])).bind fun s => s.world.ini.commitWaits) = some 2 by
        decide +kernel)
  exact ⟨s, h, waits, commit_wait_answerable samplePrimitives _ s (.of_runWith _ h)⟩

/-- A responder that restarts during the commit wait has nothing to answer with. -/
theorem restart_traps_commit_wait :
    ¬ ∀ s, Transition.Reachable (step samplePrimitives) (initial sampleParties) s →
      s.world.CommitAnswerable samplePrimitives := by
  intro always
  obtain ⟨s, reached, trapped⟩ : ∃ s, Transition.Reachable (step samplePrimitives)
      (initial sampleParties) s ∧ s.world.trapped = true :=
    Transition.exists_reachable_of_run
      (greeting ++ rekeyToCommitWait [] ++ [.restartRes 50 13]) (by decide +kernel)
  exact World.not_answerable_of_trapped trapped (always s reached)

-- Retried between the sections, the responder stores the RESP of a key that is staged no more.
example : ((Transition.run (step samplePrimitives) (initial sampleParties)
    (greeting ++ rekeyToCommitWait [.retryRes 13])).any fun s => s.world.trapped) = true := by
  decide +kernel

end SplitWorld

end NeEncryptor.Pqc
