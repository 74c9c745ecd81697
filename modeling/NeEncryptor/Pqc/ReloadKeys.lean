import NeEncryptor.Pqc.ReloadSteps

/-!
# Policies that are gone

`sig_pqc_finalize_reload` takes the keys of the policies that are no longer there, but not of one whose
worker does not stop in time; and nothing comes back to that one before the next reload.
-/

namespace NeEncryptor.Pqc

open Transition

namespace Reloads

variable {st st' : Reloads} {i j : ℕ} {c c' : Held}

/-- `sig_pqc_finalize_reload` is done with the cell, and no reload has begun since. -/
def Settled (st : Reloads) (i : ℕ) : Prop :=
  match st.pc with
  | .idle => True
  | .loading _ | .bindWait .. => False
  | .finalizing _ j | .finalizeWait _ j => i < j

instance (st : Reloads) (i : ℕ) : Decidable (st.Settled i) :=
  match here : st.pc with
  | .idle => isTrue (by rw [Settled, here]; trivial)
  | .loading _ => isFalse (by rw [Settled, here]; exact id)
  | .bindWait .. => isFalse (by rw [Settled, here]; exact id)
  | .finalizing _ j | .finalizeWait _ j =>
    decidable_of_iff (i < j) (by rw [Settled, here])

/-- Once no reload is in progress and its worker has exited, a policy that is not in the configuration
has no key. -/
structure RemovedKeyless (st : Reloads) : Prop where
  keyless : st.pc = .idle → ∀ c ∈ st.table, c.b.policyId ∉ st.loaded →
    c.b.threadStarted = false → c.b.Keyless
  getKeys : st.pc = .idle → ∀ policyId ∉ st.loaded,
    (∀ c ∈ st.table, c.b.policyId = policyId → c.b.threadStarted = false) →
    ∀ slots ∈ st.sigPqcGetKeys policyId,
      slots.prev.valid = false ∧ slots.current.valid = false ∧ slots.next.valid = false

/-- A reload gives up on a worker only if its policy has no key, and no handshake of such a worker
succeeds after that. -/
def ForgetsNoKey (st : Reloads) : ReloadAct → Prop
  | .finalizeTimeout => ∀ i ∈ st.pc.cleansAfter, ∀ c ∈ st.table[i]?, c.b.Keyless
  | .work i op => op.succeeds = true → ∀ c ∈ st.table[i]?, c.active = false → ¬ st.Settled i
  | _ => True

instance (st : Reloads) (act : ReloadAct) : Decidable (st.ForgetsNoKey act) :=
  match act with
  | .finalizeTimeout => inferInstanceAs
      (Decidable (∀ i ∈ st.pc.cleansAfter, ∀ c ∈ st.table[i]?, c.b.Keyless))
  | .work i op => inferInstanceAs (Decidable (op.succeeds = true → ∀ c ∈ st.table[i]?,
      c.active = false → ¬ st.Settled i))
  | .prepare _ | .bind _ | .bindResume | .bindTimeout | .finalize | .finalizeNext
  | .finalizeResume | .workerExit _ | .workerAbort _ | .supervise _ | .handshakeStart _ _
  | .other _ _ => isTrue trivial

/-- A reload that waits for a worker has found the binding of its policy. -/
def Waits (st : Reloads) : Prop :=
  ∀ policies i args, st.pc = .bindWait policies i args → args.valid = true ∧
    args.policyId ∈ policies ∧ ∀ c, st.table[i]? = some c → c.b.policyId = args.policyId

theorem waits_of_none (ready : st.pc.bindsAfter = none) : st.Waits := by
  intro policies i args waiting
  rw [waiting] at ready
  cases ready

structure KeyInv (st : Reloads) : Prop where
  waits : st.Waits
  owned : ∀ c ∈ st.table, c.active = true → c.b.policyId ∈ st.policies
  unbound : ∀ c ∈ st.table, c.b.identity.localPriv = none →
    c.b.Keyless ∧ c.b.threadStarted = false
  settled : ∀ i c, st.table[i]? = some c → c.active = false → st.Settled i → c.b.Keyless

/-- A write that gives the reload no more settled cells. -/
theorem KeyInv.put (inv : KeyInv st) {pc : LoadPc} (here : st.table[i]? = some c)
    (samePolicies : policies { st with pc := pc } = st.policies)
    (owned : c'.active = true → c'.b.policyId ∈ st.policies)
    (unbound : c'.b.identity.localPriv = none → c'.b.Keyless ∧ c'.b.threadStarted = false)
    (settled : c'.active = false → Settled { st with pc := pc } i → c'.b.Keyless)
    (before : ∀ j ≠ i, Settled { st with pc := pc } j → st.Settled j)
    (waits : Waits { st.put i c' with pc := pc }) : KeyInv { st.put i c' with pc := pc } := by
  refine ⟨waits, fun d member active => ?_, fun d member none_priv => ?_, fun j d at_j inactive done => ?_⟩
  · change d.b.policyId ∈ policies { st with pc := pc }
    rw [samePolicies]
    rcases mem_put member with rfl | old
    · exact owned active
    · exact inv.owned d old active
  · rcases mem_put member with rfl | old
    · exact unbound none_priv
    · exact inv.unbound d old none_priv
  · change (st.put i c').table[j]? = some d at at_j
    rw [getElem?_put] at at_j
    split at at_j
    · rename_i same
      obtain rfl := Option.some.inj at_j
      refine settled inactive ?_
      rw [same.1]
      exact done
    · rename_i outside
      have other : j ≠ i := by
        rintro rfl
        exact outside ⟨rfl, (List.getElem?_eq_some_iff.mp here).1⟩
      exact inv.settled j d at_j inactive (before j other done)

/-- A write that leaves the reload where it is. -/
theorem KeyInv.write (inv : KeyInv st) (here : st.table[i]? = some c)
    (owner : c'.b.policyId = c.b.policyId) (active : c'.active = c.active)
    (unbound : c'.b.identity.localPriv = none → c'.b.Keyless ∧ c'.b.threadStarted = false)
    (settled : c.active = false → st.Settled i → c.b.Keyless → c'.b.Keyless) :
    KeyInv (st.put i c') := by
  have member := List.mem_of_getElem? here
  have written : KeyInv { st.put i c' with pc := st.pc } := by
    refine inv.put here rfl (fun isActive => ?_) unbound (fun inactive done => ?_)
      (fun _ _ done => done) fun policies j args waiting => ?_
    · rw [owner]
      exact inv.owned c member (active ▸ isActive)
    · rw [active] at inactive
      exact settled inactive done (inv.settled i c here inactive done)
    · obtain ⟨valid, listed, named⟩ := inv.waits policies j args waiting
      refine ⟨valid, listed, fun d at_j => ?_⟩
      change (st.put i c').table[j]? = some d at at_j
      rw [getElem?_put] at at_j
      split at at_j
      · rename_i same
        obtain rfl := Option.some.inj at_j
        rw [owner]
        exact named c (same.1 ▸ here)
      · exact named d at_j
  exact written

/-- The reload goes on without a write. -/
theorem KeyInv.move (inv : KeyInv st) {pc : LoadPc} {loaded : List ℤ}
    (samePolicies : policies { st with pc := pc, loaded := loaded } = st.policies)
    (ready : pc.bindsAfter = none)
    (settled : ∀ i c, st.table[i]? = some c → c.active = false →
      Settled { st with pc := pc, loaded := loaded } i → c.b.Keyless) :
    KeyInv { st with pc := pc, loaded := loaded } := by
  refine ⟨waits_of_none ready, fun c member active => ?_, inv.unbound, settled⟩
  rw [samePolicies]
  exact inv.owned c member active

/-- The same write to every cell. -/
theorem KeyInv.map (inv : KeyInv st) {f : Held → Held}
    (owner : ∀ c, (f c).b.policyId = c.b.policyId ∧ (f c).active = c.active ∧
      (f c).b.identity = c.b.identity)
    (started : ∀ c, c.b.identity.localPriv = none → (f c).b.threadStarted = c.b.threadStarted)
    (keyless : ∀ c, c.b.Keyless → (f c).b.Keyless) :
    KeyInv { st with table := st.table.map f } := by
  refine ⟨fun policies i args waiting => ?_, fun d member active => ?_, fun d member unbound => ?_,
    fun i d here inactive done => ?_⟩
  · obtain ⟨valid, listed, named⟩ := inv.waits policies i args waiting
    refine ⟨valid, listed, fun d at_i => ?_⟩
    dsimp only at at_i
    rw [List.getElem?_map] at at_i
    obtain ⟨c, old, rfl⟩ := Option.map_eq_some_iff.mp at_i
    rw [(owner c).1]
    exact named c old
  · obtain ⟨c, old, rfl⟩ := List.mem_map.mp member
    rw [(owner c).1]
    exact inv.owned c old ((owner c).2.1 ▸ active)
  · obtain ⟨c, old, rfl⟩ := List.mem_map.mp member
    rw [(owner c).2.2] at unbound
    obtain ⟨none_key, stopped⟩ := inv.unbound c old unbound
    exact ⟨keyless c none_key, (started c unbound).trans stopped⟩
  · dsimp only at here
    rw [List.getElem?_map] at here
    obtain ⟨c, old, rfl⟩ := Option.map_eq_some_iff.mp here
    exact keyless c (inv.settled i c old ((owner c).2.1 ▸ inactive) done)

/-- What `sig_pqc_finalize_reload` leaves of a binding whose worker is gone. -/
theorem deactivate_keyless (c : Held) :
    c.deactivate.b.Keyless ∧ c.deactivate.b.threadStarted = false ∧
      c.deactivate.b.policyId = c.b.policyId ∧ c.deactivate.active = c.active :=
  ⟨⟨rfl, rfl, rfl, rfl⟩, rfl, rfl, rfl⟩

theorem policies_loading {policies : List ℤ} (loading : st.pc = .loading policies) :
    st.policies = policies := by
  unfold Reloads.policies
  rw [loading]

theorem keyInv_bindFound (inv : KeyInv st) {policies : List ℤ} {args : BindArgs}
    (loading : st.pc = .loading policies) (valid : args.valid = true)
    (listed : args.policyId ∈ policies)
    (found : (st.table.findIdx? fun c => c.b.policyId == args.policyId) = some i)
    (here : st.table[i]? = some c) : KeyInv (st.bindFound policies args i c) := by
  have member := List.mem_of_getElem? here
  have named : c.b.policyId = args.policyId := by
    obtain ⟨inside, same, -⟩ := List.findIdx?_eq_some_iff_getElem.mp found
    rw [List.getElem?_eq_getElem inside] at here
    obtain rfl := Option.some.inj here
    exact beq_iff_eq.mp same
  have samePolicies : st.policies = policies := by
    unfold Reloads.policies
    rw [loading]
  have unsettled (j : ℕ) : ¬ st.Settled j := by
    unfold Settled
    rw [loading]
    exact id
  have bound (fresh : Bool) (b : Binding) : KeyInv (st.put i
      ⟨b.bindFields args.now args.requestId fresh args.policyId args.profileId args.identity,
        true⟩) := by
    obtain ⟨policyId, priv⟩ := bindFields_bound valid fresh b
    have written : KeyInv { st.put i ⟨b.bindFields args.now args.requestId fresh args.policyId
        args.profileId args.identity, true⟩ with pc := st.pc } := by
      refine inv.put here rfl (fun _ => ?_) (fun unbound => absurd unbound priv)
        (fun inactive => nomatch inactive) (fun _ _ done => done) fun policies j args waiting => ?_
      · dsimp only
        rw [policyId, samePolicies]
        exact listed
      · cases loading.symm.trans waiting
    exact written
  unfold bindFound
  split
  · exact bound false c.b
  · split
    · rename_i started
      refine inv.put here ?_ (fun _ => ?_) (fun unbound => ?_) (fun _ done => nomatch done)
        (fun _ _ done => nomatch done) fun policies' j args' waiting => ?_
      · exact samePolicies.symm
      · rw [samePolicies]
        exact named ▸ listed
      · have stopped := (inv.unbound c member unbound).2
        rw [started] at stopped
        cases stopped
      · obtain ⟨rfl, rfl, rfl⟩ := LoadPc.bindWait.inj waiting
        refine ⟨valid, listed, fun d at_i => ?_⟩
        change (st.put i c.requestExit).table[i]? = some d at at_i
        rw [getElem?_put, if_pos ⟨rfl, (List.getElem?_eq_some_iff.mp here).1⟩] at at_i
        obtain rfl := Option.some.inj at_i
        exact named
    · exact bound true c.b.resetForBind

theorem keyInv_finalizeFound (inv : KeyInv st) {policies : List ℤ}
    (finalizing : st.pc = .finalizing policies i) (here : st.table[i]? = some c) :
    KeyInv (st.finalizeFound policies i c) := by
  have member := List.mem_of_getElem? here
  have samePolicies : st.policies = policies := by
    unfold Reloads.policies
    rw [finalizing]
  have earlier (j : ℕ) : st.Settled j ↔ j < i := by
    unfold Settled
    rw [finalizing]
  have next (j : ℕ) (other : j ≠ i)
      (done : Settled { st with pc := .finalizing policies (i + 1) } j) : st.Settled j := by
    have le : j < i + 1 := done
    rw [earlier]
    omega
  unfold finalizeFound
  split
  · rename_i active
    refine inv.move samePolicies.symm rfl fun j d at_j inactive done => ?_
    by_cases same : j = i
    · subst same
      rw [here] at at_j
      obtain rfl := Option.some.inj at_j
      rw [active] at inactive
      cases inactive
    · exact inv.settled j d at_j inactive (next j same done)
  · rename_i inactive
    have never {p : Prop} (active : c.active = true) : p := absurd active inactive
    split
    · rename_i unused
      have clean : c.b.Keyless ∧ c.b.threadStarted = false := by
        refine inv.unbound c member ?_
        unfold Binding.inUse at unused
        cases priv : c.b.identity.localPriv with
        | none => rfl
        | some _ => simp [priv] at unused
      exact inv.put here samePolicies.symm (fun active => never active) (fun _ => clean)
        (fun _ _ => clean.1) next (waits_of_none rfl)
    · split
      · rename_i started
        refine inv.put here samePolicies.symm (fun active => never active) (fun unbound => ?_)
          (fun _ done => absurd done (lt_irrefl i)) (fun j _ done => (earlier j).mpr done)
          (waits_of_none rfl)
        have stopped := (inv.unbound c member unbound).2
        rw [started] at stopped
        cases stopped
      · obtain ⟨keyless, stopped, -, -⟩ := deactivate_keyless c
        exact inv.put here samePolicies.symm (fun active => never active)
          (fun _ => ⟨keyless, stopped⟩) (fun _ _ => keyless) next (waits_of_none rfl)

theorem keyInv_step (inv : KeyInv st) {act : ReloadAct} (ok : st.ForgetsNoKey act)
    (stepped : st.step act = some st') : KeyInv st' := by
  cases act with
  | prepare policies =>
    obtain ⟨-, rfl⟩ := prepare_some stepped
    refine ⟨waits_of_none rfl, fun d member active => ?_, fun d member unbound => ?_,
      fun _ _ _ _ done => nomatch done⟩
    · obtain ⟨c, -, rfl⟩ := List.mem_map.mp member
      cases active
    · obtain ⟨c, old, rfl⟩ := List.mem_map.mp member
      exact inv.unbound c old unbound
  | bind args =>
    obtain ⟨policies, loading, valid, listed, rfl | rfl | ⟨i, c, found, here, rfl⟩⟩ :=
      bind_some stepped
    · exact inv
    · obtain ⟨policyId, priv⟩ := bindFields_bound valid true Binding.unbound
      refine ⟨fun _ _ _ waiting => (nomatch loading.symm.trans waiting),
        fun d member active => ?_, fun d member unbound => ?_, fun j d _ _ done => ?_⟩
      · change d.b.policyId ∈ st.policies
        rcases List.mem_append.mp member with old | new
        · exact inv.owned d old active
        · obtain rfl := List.mem_singleton.mp new
          rw [policies_loading loading]
          exact policyId.symm ▸ listed
      · rcases List.mem_append.mp member with old | new
        · exact inv.unbound d old unbound
        · obtain rfl := List.mem_singleton.mp new
          exact absurd unbound priv
      · unfold Settled at done
        rw [loading] at done
        cases done
    · exact keyInv_bindFound inv loading valid listed found here
  | bindResume =>
    obtain ⟨policies, i, args, c, waiting, here, rfl⟩ := bindResume_some stepped
    obtain ⟨valid, listed, -⟩ := inv.waits policies i args waiting
    obtain ⟨policyId, priv⟩ := bindFields_bound valid true c.b.resetForBind
    have samePolicies : st.policies = policies := by
      unfold Reloads.policies
      rw [waiting]
    refine inv.put here samePolicies.symm (fun _ => ?_) (fun unbound => absurd unbound priv)
      (fun inactive => nomatch inactive) (fun _ _ done => nomatch done) (waits_of_none rfl)
    rw [samePolicies]
    exact policyId.symm ▸ listed
  | bindTimeout =>
    obtain ⟨policies, i, args, c, waiting, here, -, rfl⟩ := bindTimeout_some stepped
    obtain ⟨-, listed, named⟩ := inv.waits policies i args waiting
    have samePolicies : st.policies = policies := by
      unfold Reloads.policies
      rw [waiting]
    refine inv.put here samePolicies.symm (fun _ => ?_)
      (inv.unbound c (List.mem_of_getElem? here)) (fun inactive => nomatch inactive)
      (fun _ _ done => nomatch done) (waits_of_none rfl)
    rw [samePolicies]
    exact named c here ▸ listed
  | finalize =>
    obtain ⟨-, rfl⟩ := finalize_some stepped
    exact inv.move rfl rfl fun _ _ _ _ done => nomatch done
  | finalizeNext =>
    obtain ⟨policies, i, finalizing, ⟨past, rfl⟩ | ⟨c, here, rfl⟩⟩ := finalizeNext_some stepped
    · refine inv.move ?_ rfl fun j c here inactive _ => ?_
      · unfold Reloads.policies
        rw [finalizing]
      · refine inv.settled j c here inactive ?_
        unfold Settled
        rw [finalizing]
        exact (List.getElem?_eq_some_iff.mp here).1.trans_le (List.getElem?_eq_none_iff.mp past)
    · exact keyInv_finalizeFound inv finalizing here
  | finalizeResume =>
    obtain ⟨policies, i, c, waiting, here, rfl⟩ := finalizeResume_some stepped
    have samePolicies : st.policies = policies := by
      unfold Reloads.policies
      rw [waiting]
    refine inv.put here samePolicies.symm (inv.owned c (List.mem_of_getElem? here))
      (fun _ => ⟨⟨rfl, rfl, rfl, rfl⟩, rfl⟩) (fun _ _ => ⟨rfl, rfl, rfl, rfl⟩)
      (fun j other done => ?_) (waits_of_none rfl)
    have le : j < i + 1 := done
    unfold Settled
    rw [waiting]
    dsimp only
    omega
  | finalizeTimeout =>
    obtain ⟨policies, i, waiting, rfl⟩ := finalizeTimeout_some stepped
    have samePolicies : st.policies = policies := by
      unfold Reloads.policies
      rw [waiting]
    refine inv.move samePolicies.symm rfl fun j d at_j inactive done => ?_
    have le : j < i + 1 := done
    by_cases same : j = i
    · subst same
      exact ok j (by rw [waiting]; rfl) d at_j
    · refine inv.settled j d at_j inactive ?_
      unfold Settled
      rw [waiting]
      dsimp only
      omega
  | work i op =>
    obtain ⟨c, here, started, rfl⟩ := onWorker_some stepped
    obtain ⟨policyId, identity, running, -⟩ := op.keeps c.b
    refine inv.write here policyId rfl (fun unbound => ?_) fun inactive done keyless => ?_
    · rw [identity] at unbound
      have stopped := (inv.unbound c (List.mem_of_getElem? here) unbound).2
      rw [started] at stopped
      cases stopped
    · refine WorkerOp.keyless (Bool.eq_false_iff.mpr fun succeeds => ?_) keyless
      exact ok succeeds c here inactive done
  | workerExit i =>
    obtain ⟨c, here, started, rfl⟩ := onWorker_some stepped
    refine inv.write here rfl rfl (fun unbound => ?_) fun _ _ keyless => keyless
    exact ⟨(inv.unbound c (List.mem_of_getElem? here) unbound).1, rfl⟩
  | workerAbort i =>
    obtain ⟨c, here, started, rfl⟩ := onWorker_some stepped
    refine inv.write here rfl rfl (fun unbound => ?_) fun _ _ keyless => keyless
    exact ⟨(inv.unbound c (List.mem_of_getElem? here) unbound).1, rfl⟩
  | supervise created =>
    cases stepped
    refine inv.map (fun c => ?_) (fun c => ?_) fun c => ?_
    all_goals
      obtain ⟨policyId, identity, started, keyless⟩ :=
        start_keeps (created c.b.policyId) c.b
      unfold Held.supervise
      split
    · exact ⟨policyId, rfl, identity⟩
    · exact ⟨rfl, rfl, rfl⟩
    · exact started
    · exact fun _ => rfl
    · exact keyless
    · exact id
  | handshakeStart profileId created =>
    cases stepped
    refine inv.map (fun c => ?_) (fun c => ?_) fun c => ?_
    all_goals
      obtain ⟨policyId, identity, started, keyless⟩ :=
        start_keeps (created c.b.policyId) c.b
      unfold Held.handshakeStart
      split
    · exact ⟨policyId, rfl, identity⟩
    · exact ⟨rfl, rfl, rfl⟩
    · exact started
    · exact fun _ => rfl
    · exact keyless
    · exact id
  | other i op =>
    obtain ⟨c, here, rfl⟩ := Option.map_eq_some_iff.mp stepped
    have tame := Binding.tame_other op c.b
    refine inv.write here tame.policyId rfl (fun unbound => ?_) fun _ _ keyless => tame.keyless keyless
    have clean := inv.unbound c (List.mem_of_getElem? here) (tame.identity ▸ unbound)
    exact ⟨tame.keyless clean.1, tame.threadStarted.trans clean.2⟩

theorem keyInv_initial : KeyInv initial := by
  refine ⟨waits_of_none rfl, fun c member => ?_, fun c member => ?_, fun i c here => ?_⟩
  · cases member
  · cases member
  · cases List.getElem?_nil.symm.trans here

/-- In runs whose reloads forget no key, a policy that is gone has none. -/
theorem removedKeyless_of_reachable (reached : ReachableWith step ForgetsNoKey initial st) :
    st.RemovedKeyless := by
  have inv : KeyInv st :=
    reached.invariant keyInv_initial fun _ _ _ inv ok stepped => keyInv_step inv ok stepped
  have keyless (idle : st.pc = .idle) (c : Held) (member : c ∈ st.table)
      (removed : c.b.policyId ∉ st.loaded) : c.b.Keyless := by
    have policies : st.policies = st.loaded := by
      unfold Reloads.policies
      rw [idle]
    have inactive : c.active = false := by
      rw [Bool.eq_false_iff]
      intro active
      have listed := inv.owned c member active
      rw [policies] at listed
      exact removed listed
    obtain ⟨i, here⟩ := List.mem_iff_getElem?.mp member
    refine inv.settled i c here inactive ?_
    unfold Settled
    rw [idle]
    trivial
  refine ⟨fun idle c member removed _ => keyless idle c member removed, ?_⟩
  intro idle policyId removed _ slots found
  obtain ⟨c, isFirst, rfl⟩ := Option.map_eq_some_iff.mp found
  have named : c.b.policyId = policyId := by
    have holds := List.find?_some isFirst
    exact beq_iff_eq.mp holds
  exact (keyless idle c (List.mem_of_find?_eq_some isFirst) (named ▸ removed)).2

/-- A policy with a key is removed, its worker does not stop in time, and it stops later. -/
def forgottenKey : List ReloadAct :=
  [.prepare [7], .bind (sampleArgs 7 "k1"), .finalize, .finalizeNext, .finalizeNext,
    .supervise fun _ => true, .work 0 (.success 1 9),
    .prepare [], .finalize, .finalizeNext, .finalizeTimeout, .finalizeNext, .workerExit 0]

theorem not_removedKeyless : ¬ ∀ st, Reachable step initial st → st.RemovedKeyless := by
  intro always
  obtain ⟨st, reached, kept⟩ : ∃ st, Reachable step initial st ∧ (st.pc.isIdle &&
      st.table.any fun c => !st.loaded.contains c.b.policyId && !c.b.threadStarted &&
        c.b.keyReady) = true :=
    exists_reachable_of_run forgottenKey (by decide +kernel)
  simp only [Bool.and_eq_true, List.any_eq_true, Bool.not_eq_true', List.contains_eq_mem,
    decide_eq_false_iff_not] at kept
  obtain ⟨idle, c, member, ⟨removed, stopped⟩, ready⟩ := kept
  have keyless := (always st reached).keyless (LoadPc.isIdle_iff.mp idle) c member removed stopped
  rw [keyless.1] at ready
  cases ready

/-- The worker of the removed policy stops in time. -/
def removedInTime : List ReloadAct :=
  forgottenKey.take 10 ++ [.workerExit 0, .finalizeResume, .finalizeNext]

theorem removedKeyless_removedInTime : ∃ st : Reloads, st.table.length = 1 ∧ st.RemovedKeyless := by
  have ran : (runWith step ForgetsNoKey initial removedInTime).any
      (fun st => st.table.length == 1) = true := by decide +kernel
  obtain ⟨st, reached, one⟩ := (Option.any_eq_true _ _).mp ran
  exact ⟨st, by simpa using one, removedKeyless_of_reachable (.of_runWith removedInTime reached)⟩

end Reloads

end NeEncryptor.Pqc
