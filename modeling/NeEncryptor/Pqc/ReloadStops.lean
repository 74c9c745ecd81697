import NeEncryptor.Pqc.ReloadSteps

/-!
# Policies that can start

A reload that gives up on a worker leaves its stop request behind.  The worker takes it back when it
exits, if its policy is active then; else the policy can be active later and never get a worker.
-/

namespace NeEncryptor.Pqc

open Transition

/-- The binding is active, and a stop request keeps it without a worker. -/
structure Held.Stuck (c : Held) : Prop where
  active : c.active = true
  stopped : c.b.threadStarted = false
  exitSig : c.b.threadExitSig = true

namespace Reloads

variable {st st' : Reloads} {i j : ℕ} {c c' : Held}

/-- Outside of reloads, a policy with its identities and without a worker can get one. -/
def CanStart (st : Reloads) : Prop :=
  st.pc = .idle → ∀ c ∈ st.table, c.active = true → c.b.identity.isTunnel = true →
    c.b.identity.localPriv.isSome = true → c.b.identity.localPub.isSome = true →
    c.b.identity.peerPub.isSome = true → c.b.threadStarted = false →
    c.b.threadExitSig = false ∧ (c.b.pqcStartPolicyWorkerLocked true).threadStarted = true

/-- The binding that `sig_pqc_bind_policy` finds. -/
def found (st : Reloads) (policyId : ℤ) : Option Held :=
  (st.table.findIdx? fun c => c.b.policyId == policyId).bind fun i => st.table[i]?

/-- No policy is bound again with the identity it has while its worker has been stopped, and no worker
that is to stop returns before its loop. -/
def KeepsStartable (st : Reloads) : ReloadAct → Prop
  | .bind args => ∀ c ∈ st.found args.policyId, args.identity = c.b.identity →
      c.b.threadExitSig = true → c.b.threadStarted = true
  | .workerAbort i => ∀ c ∈ st.table[i]?, c.active = true → c.b.threadExitSig = true →
      st.pc.bindsAfter = some i
  | _ => True

instance (st : Reloads) (act : ReloadAct) : Decidable (st.KeepsStartable act) :=
  match act with
  | .bind args => inferInstanceAs (Decidable (∀ c ∈ st.found args.policyId,
      args.identity = c.b.identity → c.b.threadExitSig = true → c.b.threadStarted = true))
  | .workerAbort i => inferInstanceAs (Decidable (∀ c ∈ st.table[i]?, c.active = true →
      c.b.threadExitSig = true → st.pc.bindsAfter = some i))
  | .prepare _ | .bindResume | .bindTimeout | .finalize | .finalizeNext | .finalizeResume
  | .finalizeTimeout | .work _ _ | .workerExit _ | .supervise _ | .handshakeStart _ _
  | .other _ _ => isTrue trivial

/-- A binding is stuck only while a reload waits for its worker. -/
def StuckOnlyWaiting (st : Reloads) : Prop :=
  ∀ i c, st.table[i]? = some c → c.Stuck → st.pc.bindsAfter = some i

theorem StuckOnlyWaiting.put (inv : StuckOnlyWaiting st) {pc : LoadPc}
    (good : c'.Stuck → pc.bindsAfter = some i)
    (same : ∀ j ≠ i, st.pc.bindsAfter = some j → pc.bindsAfter = some j) :
    StuckOnlyWaiting { st.put i c' with pc := pc } := by
  intro j c here stuck
  change (st.put i c').table[j]? = some c at here
  rw [getElem?_put] at here
  split at here
  · rename_i at_cell
    obtain rfl := Option.some.inj here
    rw [← at_cell.1]
    exact good stuck
  · by_cases at_cell : j = i
    · subst at_cell
      rename_i outside
      have inside := (List.getElem?_eq_some_iff.mp here).1
      exact absurd ⟨rfl, inside⟩ outside
    · exact same j at_cell (inv j c here stuck)

theorem StuckOnlyWaiting.map (inv : StuckOnlyWaiting st) {f : Held → Held} {pc : LoadPc}
    (kept : ∀ c, (f c).Stuck → c.Stuck)
    (same : ∀ j, st.pc.bindsAfter = some j → pc.bindsAfter = some j) :
    StuckOnlyWaiting { st with table := st.table.map f, pc := pc } := by
  intro j c here stuck
  dsimp only at here
  rw [List.getElem?_map] at here
  obtain ⟨was, isCell, rfl⟩ := Option.map_eq_some_iff.mp here
  exact same j (inv j was isCell (kept was stuck))

/-- A write that leaves the reload where it is. -/
theorem StuckOnlyWaiting.write (inv : StuckOnlyWaiting st)
    (good : c'.Stuck → st.pc.bindsAfter = some i) : StuckOnlyWaiting (st.put i c') :=
  (inv.put good fun _ _ waits => waits : StuckOnlyWaiting { st.put i c' with pc := st.pc })

theorem StuckOnlyWaiting.mapAll (inv : StuckOnlyWaiting st) {f : Held → Held}
    (kept : ∀ c, (f c).Stuck → c.Stuck) : StuckOnlyWaiting { st with table := st.table.map f } :=
  inv.map kept fun _ waits => waits

/-- The reload goes on while it waits for no worker. -/
theorem StuckOnlyWaiting.move (inv : StuckOnlyWaiting st) {pc : LoadPc} {loaded : List ℤ}
    (none_before : st.pc.bindsAfter = none) :
    StuckOnlyWaiting { st with pc := pc, loaded := loaded } := by
  intro j c here stuck
  have waits := inv j c here stuck
  rw [none_before] at waits
  cases waits

theorem start_stuck {created : Bool} {active : Bool}
    (stuck : Held.Stuck ⟨c.b.pqcStartPolicyWorkerLocked created, active⟩) :
    Held.Stuck ⟨c.b, active⟩ := by
  obtain ⟨isActive, stopped, exitSig⟩ := stuck
  dsimp only at isActive stopped exitSig
  unfold Binding.pqcStartPolicyWorkerLocked at stopped exitSig
  split at stopped
  · rename_i kept
    rw [if_pos kept] at exitSig
    exact ⟨isActive, stopped, exitSig⟩
  · rename_i started
    rw [if_neg started] at exitSig
    dsimp only at exitSig
    simp [exitSig] at started

/-- A binding with a new identity has no stop request. -/
theorem not_stuck_bindChanged {args : BindArgs} : ¬ (c.bindChanged args).Stuck := by
  intro stuck
  have unsignalled := (Binding.bindFields_life args.now args.requestId true args.policyId
    args.profileId args.identity c.b.resetForBind).2
  have both : true = false := stuck.exitSig.symm.trans unsignalled
  cases both

theorem stuckOnlyWaiting_bindFound (inv : StuckOnlyWaiting st) {policies : List ℤ} {args : BindArgs}
    (loading : st.pc = .loading policies)
    (startable : args.identity = c.b.identity → c.b.threadExitSig = true →
      c.b.threadStarted = true) : StuckOnlyWaiting (st.bindFound policies args i c) := by
  unfold bindFound
  split
  · rename_i same
    have life := Binding.bindFields_life args.now args.requestId false args.policyId
      args.profileId args.identity c.b
    refine inv.write fun stuck => ?_
    have exitSig := life.2.symm.trans stuck.exitSig
    have stopped := life.1.symm.trans stuck.stopped
    rw [startable same exitSig] at stopped
    cases stopped
  · split
    · rename_i started
      refine inv.put (fun stuck => ?_) fun j _ waits => ?_
      · have stopped := stuck.stopped
        dsimp only [Held.requestExit] at stopped
        rw [started] at stopped
        cases stopped
      · rw [loading] at waits
        cases waits
    · exact inv.write fun stuck => (not_stuck_bindChanged stuck).elim

theorem stuckOnlyWaiting_finalizeFound (inv : StuckOnlyWaiting st) {policies : List ℤ}
    (finalizing : st.pc = .finalizing policies i) :
    StuckOnlyWaiting (st.finalizeFound policies i c) := by
  have none_before : st.pc.bindsAfter = none := by
    rw [finalizing]
    rfl
  have others {pc : LoadPc} (j : ℕ) (waits : st.pc.bindsAfter = some j) :
      pc.bindsAfter = some j := by
    rw [none_before] at waits
    cases waits
  unfold finalizeFound
  split
  · exact inv.move none_before
  · rename_i inactive
    have never {c' : Held} {p : Prop} (stuck : c'.Stuck) (same : c'.active = c.active) : p :=
      absurd (same.symm.trans stuck.active) inactive
    split
    · exact inv.put (fun stuck => never stuck rfl) fun j _ waits => others j waits
    · split
      · exact inv.put (fun stuck => never stuck rfl) fun j _ waits => others j waits
      · exact inv.put (fun stuck => never stuck rfl) fun j _ waits => others j waits

theorem stuckOnlyWaiting_step (inv : StuckOnlyWaiting st) {act : ReloadAct}
    (startable : st.KeepsStartable act) (stepped : st.step act = some st') :
    StuckOnlyWaiting st' := by
  cases act with
  | prepare policies =>
    obtain ⟨none_before, rfl⟩ := prepare_some stepped
    refine inv.map (fun _ stuck => nomatch stuck.active) fun j waits => ?_
    rw [none_before] at waits
    cases waits
  | bind args =>
    obtain ⟨policies, loading, -, -, rfl | rfl | ⟨i, c, found, here, rfl⟩⟩ := bind_some stepped
    · exact inv
    · intro j c here stuck
      dsimp only at here
      rw [List.getElem?_append] at here
      split at here
      · exact inv j c here stuck
      · have isNew : c = .bindNew args := List.mem_singleton.mp (List.mem_of_getElem? here)
        have unsignalled := (Binding.bindFields_life args.now args.requestId true args.policyId
          args.profileId args.identity Binding.unbound).2
        have exitSig := stuck.exitSig
        rw [isNew] at exitSig
        have both : true = false := exitSig.symm.trans unsignalled
        cases both
    · exact stuckOnlyWaiting_bindFound inv loading
        (startable c (Option.bind_eq_some_iff.mpr ⟨i, found, here⟩))
  | bindResume =>
    obtain ⟨policies, i, args, c, waiting, -, rfl⟩ := bindResume_some stepped
    refine inv.put (fun stuck => (not_stuck_bindChanged stuck).elim) fun j other waits => ?_
    rw [waiting] at waits
    exact absurd (Option.some.inj waits).symm other
  | bindTimeout =>
    obtain ⟨policies, i, args, c, waiting, -, started, rfl⟩ := bindTimeout_some stepped
    refine inv.put (fun stuck => ?_) fun j other waits => ?_
    · have stopped := stuck.stopped
      dsimp only at stopped
      rw [started] at stopped
      cases stopped
    · rw [waiting] at waits
      exact absurd (Option.some.inj waits).symm other
  | finalize =>
    obtain ⟨none_before, rfl⟩ := finalize_some stepped
    exact inv.move none_before
  | finalizeNext =>
    obtain ⟨policies, i, finalizing, ⟨-, rfl⟩ | ⟨c, -, rfl⟩⟩ := finalizeNext_some stepped
    · exact inv.move (by rw [finalizing]; rfl)
    · exact stuckOnlyWaiting_finalizeFound inv finalizing
  | finalizeResume =>
    obtain ⟨policies, i, c, waiting, -, rfl⟩ := finalizeResume_some stepped
    refine inv.put (fun stuck => ?_) fun j _ waits => ?_
    · have exitSig := stuck.exitSig
      dsimp only [Held.deactivateStopped, Held.deactivate, Binding.resetInactive,
        Binding.pqcHsClearCache, Binding.deactivate] at exitSig
      split at exitSig
      · cases exitSig
      · cases exitSig
    · rw [waiting] at waits
      cases waits
  | finalizeTimeout =>
    obtain ⟨policies, i, waiting, rfl⟩ := finalizeTimeout_some stepped
    exact inv.move (by rw [waiting]; rfl)
  | work i op =>
    obtain ⟨c, here, started, rfl⟩ := onWorker_some stepped
    refine inv.write fun stuck => ?_
    have stopped := stuck.stopped
    dsimp only at stopped
    rw [(op.keeps c.b).2.2.1, started] at stopped
    cases stopped
  | workerExit i =>
    obtain ⟨c, here, started, rfl⟩ := onWorker_some stepped
    refine inv.write fun stuck => ?_
    have active : c.active = true := stuck.active
    have exitSig := stuck.exitSig
    dsimp only [Held.workerExit] at exitSig
    rw [active] at exitSig
    cases exitSig
  | workerAbort i =>
    obtain ⟨c, here, started, rfl⟩ := onWorker_some stepped
    refine inv.write fun stuck => ?_
    exact startable c here stuck.active stuck.exitSig
  | supervise created =>
    cases stepped
    refine inv.mapAll fun c stuck => ?_
    unfold Held.supervise at stuck
    split at stuck
    · exact start_stuck stuck
    · exact stuck
  | handshakeStart profileId created =>
    cases stepped
    refine inv.mapAll fun c stuck => ?_
    unfold Held.handshakeStart at stuck
    split at stuck
    · exact start_stuck stuck
    · exact stuck
  | other i op =>
    obtain ⟨c, here, rfl⟩ := Option.map_eq_some_iff.mp stepped
    refine inv.write fun stuck => ?_
    have tame := Binding.tame_other op c.b
    refine inv i c here ⟨stuck.active, ?_, ?_⟩
    · rw [← tame.threadStarted]
      exact stuck.stopped
    · rw [← tame.threadExitSig]
      exact stuck.exitSig

/-- In runs that forget no stop request, every policy can get a worker once a reload is over. -/
theorem canStart_of_reachable (reached : ReachableWith step KeepsStartable initial st) :
    st.CanStart := by
  have inv : StuckOnlyWaiting st := by
    refine reached.invariant (fun i c here => ?_) fun _ _ _ inv startable stepped =>
      stuckOnlyWaiting_step inv startable stepped
    cases List.getElem?_nil.symm.trans here
  intro idle c member active _ priv pub peer stopped
  have unsignalled : c.b.threadExitSig = false := by
    obtain ⟨i, here⟩ := List.mem_iff_getElem?.mp member
    rw [Bool.eq_false_iff]
    intro exitSig
    have waits := inv i c here ⟨active, stopped, exitSig⟩
    rw [idle] at waits
    cases waits
  refine ⟨unsignalled, ?_⟩
  unfold Binding.pqcStartPolicyWorkerLocked
  rw [stopped, unsignalled, ← Option.not_isSome, ← Option.not_isSome, ← Option.not_isSome, priv, pub,
    peer]
  rfl

/-- A reload that changes the key of policy 7 cannot stop its worker; the next one changes it back, and
the worker stops before the policy is bound. -/
def revertedReload : List ReloadAct :=
  [.prepare [7], .bind (sampleArgs 7 "k1"), .finalize, .finalizeNext, .finalizeNext,
    .supervise fun _ => true,
    .prepare [7], .bind (sampleArgs 7 "k2"), .bindTimeout, .finalize, .finalizeNext, .finalizeNext,
    .prepare [7], .workerExit 0, .bind (sampleArgs 7 "k1"), .finalize, .finalizeNext, .finalizeNext]

theorem not_canStart : ¬ ∀ st, Reachable step initial st → st.CanStart := by
  intro always
  obtain ⟨st, reached, stuck⟩ : ∃ st, Reachable step initial st ∧ (st.pc.isIdle &&
      st.table.any fun c => c.active && c.b.identity.isTunnel && c.b.identity.localPriv.isSome &&
        c.b.identity.localPub.isSome && c.b.identity.peerPub.isSome && !c.b.threadStarted &&
        c.b.threadExitSig) = true :=
    exists_reachable_of_run revertedReload (by decide +kernel)
  simp only [Bool.and_eq_true, List.any_eq_true, Bool.not_eq_true'] at stuck
  obtain ⟨idle, c, member, ⟨⟨⟨⟨⟨⟨active, tunnel⟩, priv⟩, pub⟩, peer⟩, stopped⟩, exitSig⟩⟩ := stuck
  have started := always st reached (LoadPc.isIdle_iff.mp idle) c member active tunnel priv pub peer
    stopped
  rw [exitSig] at started
  cases started.1

/-- A worker that stops once its policy is bound again. -/
def stoppedReload : List ReloadAct :=
  revertedReload.take 12 ++
    [.prepare [7], .bind (sampleArgs 7 "k1"), .workerExit 0, .finalize, .finalizeNext, .finalizeNext]

theorem canStart_stoppedReload : ∃ st : Reloads, st.table.length = 1 ∧ st.CanStart := by
  have ran : (runWith step KeepsStartable initial stoppedReload).any
      (fun st => st.table.length == 1) = true := by decide +kernel
  obtain ⟨st, reached, one⟩ := (Option.any_eq_true _ _).mp ran
  exact ⟨st, by simpa using one, canStart_of_reachable (.of_runWith stoppedReload reached)⟩

end Reloads

end NeEncryptor.Pqc
