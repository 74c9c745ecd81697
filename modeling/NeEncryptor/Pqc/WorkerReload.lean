import NeEncryptor.Lib.Transition
import NeEncryptor.Pqc.PolicyBindings
import NeEncryptor.Pqc.Worker

/-!
# Workers across reloads

The table of bindings while reloads stop and start the workers (`pqc_handshake.c`).  A reload lets the
lock go whenever it waits for a worker, and it gives up after `PQC_HS_WORKER_STOP_TIMEOUT_MS`; so the
workers, the supervisor and the other threads get in between its steps.
-/

namespace NeEncryptor.Pqc

open Transition

namespace Binding

/-- `pqc_start_policy_worker_locked`; `created` tells whether `pthread_create` succeeds. -/
def pqcStartPolicyWorkerLocked (created : Bool) (b : Binding) : Binding :=
  if b.threadStarted || b.threadExitSig || b.identity.localPriv.isNone ||
      b.identity.localPub.isNone || b.identity.peerPub.isNone then b
  else { b with threadStarted := created }

/-- No slot has a valid key, and the key is not ready. -/
def Keyless (b : Binding) : Prop :=
  b.keyReady = false ∧ b.slots.prev.valid = false ∧ b.slots.current.valid = false ∧
    b.slots.next.valid = false

instance (b : Binding) : Decidable b.Keyless := inferInstanceAs (Decidable (_ ∧ _))

end Binding

/-- What a worker does with its binding. -/
inductive WorkerOp
  | housekeeping (now : ℕ)
  | success (now : ℕ) (key : TrafficKey)
  | stage (key : TrafficKey)
  | promote (now : ℕ)

def WorkerOp.apply (b : Binding) : WorkerOp → Binding
  | .housekeeping now => b.workerHousekeeping now
  | .success now key => b.handleHandshakeSuccess now key
  | .stage key => (b.pqcHsStageNextKey key).getD b
  | .promote now => (b.pqcHsPromoteStagedKey now).getD b

/-- What other threads do with a binding. -/
inductive OtherOp
  | feed (P : Primitives) (now : ℕ) (m : Msg)
  | retry (now : ℕ) (requestId : BitVec 64)
  | newSession
  | discardPrev

def OtherOp.apply (b : Binding) : OtherOp → Binding
  | .feed P now m => b.sigPqcFeedRxPacket P now m
  | .retry now requestId => b.sigPqcTriggerRetry now requestId
  | .newSession => b.sigPqcRequestNewSession
  | .discardPrev => b.sigPqcDiscardPrevKey

/-- A cell of `g_policy_bindings` and of `g_policy_bindings_active`. -/
structure Held where
  b : Binding
  active : Bool

/-- The arguments of `sig_pqc_bind_policy`. -/
structure BindArgs where
  now : ℕ
  requestId : BitVec 64
  policyId : ℤ
  profileId : ℤ
  identity : BindIdentity

/-- What `sig_pqc_load_and_bind_policy` has found before it binds. -/
def BindArgs.valid (args : BindArgs) : Bool :=
  args.identity.localPriv.isSome && args.identity.localPub.isSome &&
    args.identity.peerPub.isSome && args.identity.isTunnel

/-- Where the thread that loads configurations is, with the policies of the new one.  A load that fails
stays in `loading` until the next one. -/
inductive LoadPc
  | idle
  | loading (policies : List ℤ)
  | bindWait (policies : List ℤ) (i : ℕ) (args : BindArgs)
  | finalizing (policies : List ℤ) (i : ℕ)
  | finalizeWait (policies : List ℤ) (i : ℕ)

/-- The bindings, the reload, and the policies of the last configuration that was loaded. -/
structure Reloads where
  table : List Held
  pc : LoadPc
  loaded : List ℤ

inductive ReloadAct
  /-- `sig_pqc_prepare_reload`. -/
  | prepare (policies : List ℤ)
  /-- `sig_pqc_bind_policy`, until it returns or waits. -/
  | bind (args : BindArgs)
  | bindResume
  | bindTimeout
  /-- `sig_pqc_finalize_reload`, one binding a step. -/
  | finalize
  | finalizeNext
  | finalizeResume
  | finalizeTimeout
  | work (i : ℕ) (op : WorkerOp)
  /-- The end of `pqc_policy_handshake_worker_run`. -/
  | workerExit (i : ℕ)
  /-- Its return before it enters its loop. -/
  | workerAbort (i : ℕ)
  /-- `pqc_supervise_l3_workers`. -/
  | supervise (created : ℤ → Bool)
  /-- `sig_pqc_handshake_start`. -/
  | handshakeStart (profileId : ℤ) (created : ℤ → Bool)
  | other (i : ℕ) (op : OtherOp)

namespace Held

/-- The binding gets the policy, its identity being the same. -/
def rebind (args : BindArgs) (c : Held) : Held :=
  ⟨c.b.bindFields args.now args.requestId false args.policyId args.profileId args.identity, true⟩

/-- The binding gets the policy with a new identity. -/
def bindChanged (args : BindArgs) (c : Held) : Held :=
  ⟨c.b.resetForBind.bindFields args.now args.requestId true args.policyId args.profileId
    args.identity, true⟩

/-- The binding of a new policy. -/
def bindNew (args : BindArgs) : Held :=
  ⟨.bindNew args.now args.requestId args.policyId args.profileId args.identity, true⟩

def requestExit (c : Held) : Held := { c with b := { c.b with threadExitSig := true } }

/-- The worker is gone, and the keys and identities go too. -/
def deactivate (c : Held) : Held := { c with b := c.b.deactivate.resetInactive }

/-- `deactivate` after a wait, which takes the stop request back. -/
def deactivateStopped (c : Held) : Held :=
  deactivate { c with b := { c.b with threadExitSig := false } }

def supervise (created : ℤ → Bool) (c : Held) : Held :=
  if c.active && c.b.identity.isTunnel && !c.b.threadStarted && !c.b.threadExitSig then
    { c with b := c.b.pqcStartPolicyWorkerLocked (created c.b.policyId) }
  else c

def handshakeStart (profileId : ℤ) (created : ℤ → Bool) (c : Held) : Held :=
  if c.b.profileId = profileId then
    { c with b := c.b.pqcStartPolicyWorkerLocked (created c.b.policyId) }
  else c

/-- A binding that is not active keeps the stop request of its worker. -/
def workerExit (c : Held) : Held :=
  { c with b := { c.b with
      threadStarted := false
      threadExitSig := if c.active then false else c.b.threadExitSig } }

def workerAbort (c : Held) : Held := { c with b := { c.b with threadStarted := false } }

end Held

namespace Reloads

/-- Writes a cell. -/
def put (st : Reloads) (i : ℕ) (c : Held) : Reloads := { st with table := st.table.set i c }

/-- A step of the worker of a cell. -/
def onWorker (st : Reloads) (i : ℕ) (f : Held → Held) : Option Reloads :=
  match st.table[i]? with
  | none => none
  | some c => if c.b.threadStarted then some (st.put i (f c)) else none

/-- `sig_pqc_bind_policy` on the binding that it finds. -/
def bindFound (st : Reloads) (policies : List ℤ) (args : BindArgs) (i : ℕ) (c : Held) : Reloads :=
  if args.identity = c.b.identity then st.put i (c.rebind args)
  else if c.b.threadStarted then { st.put i c.requestExit with pc := .bindWait policies i args }
  else st.put i (c.bindChanged args)

/-- One round of the loop of `sig_pqc_finalize_reload`. -/
def finalizeFound (st : Reloads) (policies : List ℤ) (i : ℕ) (c : Held) : Reloads :=
  if c.active then { st with pc := .finalizing policies (i + 1) }
  else if !c.b.inUse then
    { st.put i { c with b := c.b.resetInactive } with pc := .finalizing policies (i + 1) }
  else if c.b.threadStarted then { st.put i c.requestExit with pc := .finalizeWait policies i }
  else { st.put i c.deactivate with pc := .finalizing policies (i + 1) }

def step (st : Reloads) : ReloadAct → Option Reloads
  | .prepare policies =>
    let cleared := st.table.map fun c => { c with active := false }
    match st.pc with
    | .idle | .loading _ => some { st with table := cleared, pc := .loading policies }
    | _ => none
  | .bind args =>
    match st.pc with
    | .loading policies =>
      if args.valid ∧ args.policyId ∈ policies then
        match st.table.findIdx? fun c => c.b.policyId == args.policyId with
        | none =>
          if st.table.length < maxPolicyBindings then
            some { st with table := st.table ++ [.bindNew args] }
          else some st
        | some i => st.table[i]?.map (st.bindFound policies args i)
      else none
    | _ => none
  | .bindResume =>
    match st.pc with
    | .bindWait policies i args =>
      match st.table[i]? with
      | none => none
      | some c =>
        if c.b.threadStarted then none
        else some { st.put i (c.bindChanged args) with pc := .loading policies }
    | _ => none
  | .bindTimeout =>
    match st.pc with
    | .bindWait policies i _ =>
      match st.table[i]? with
      | none => none
      | some c =>
        if c.b.threadStarted then
          some { st.put i { c with active := true } with pc := .loading policies }
        else none
    | _ => none
  | .finalize =>
    match st.pc with
    | .idle => some { st with pc := .finalizing st.loaded 0 }
    | .loading policies => some { st with pc := .finalizing policies 0 }
    | _ => none
  | .finalizeNext =>
    match st.pc with
    | .finalizing policies i =>
      match st.table[i]? with
      | none => some { st with pc := .idle, loaded := policies }
      | some c => some (st.finalizeFound policies i c)
    | _ => none
  | .finalizeResume =>
    match st.pc with
    | .finalizeWait policies i =>
      match st.table[i]? with
      | none => none
      | some c =>
        if c.b.threadStarted then none
        else some { st.put i c.deactivateStopped with pc := .finalizing policies (i + 1) }
    | _ => none
  | .finalizeTimeout =>
    match st.pc with
    | .finalizeWait policies i =>
      match st.table[i]? with
      | none => none
      | some c =>
        if c.b.threadStarted then some { st with pc := .finalizing policies (i + 1) } else none
    | _ => none
  | .work i op => st.onWorker i fun c => { c with b := op.apply c.b }
  | .workerExit i => st.onWorker i .workerExit
  | .workerAbort i => st.onWorker i .workerAbort
  | .supervise created => some { st with table := st.table.map (.supervise created) }
  | .handshakeStart profileId created =>
    some { st with table := st.table.map (.handshakeStart profileId created) }
  | .other i op => st.table[i]?.map fun c => st.put i { c with b := op.apply c.b }

/-- A new process. -/
def initial : Reloads := ⟨[], .idle, []⟩

/-- `sig_pqc_get_keys`. -/
def sigPqcGetKeys (st : Reloads) (policyId : ℤ) : Option (KeySlots KeySlot) :=
  (st.table.find? fun c => c.b.policyId == policyId).map fun c => c.b.slots

end Reloads

end NeEncryptor.Pqc
