import NeEncryptor.Lib.Transition
import NeEncryptor.Pqc.Worker

/-!
# The two parties of a policy

One initiator and one responder over a network that loses, delays, reorders and duplicates: a message
once sent may be delivered at any later time, any number of times.  The history records what the
parties drew, agreed on and put in use; no function of the program reads it.
-/

namespace NeEncryptor.Pqc

/-- A HELLO the responder took as new: the key it agreed on, and whether it was treated as a rekey. -/
structure Taken where
  hello : Hello
  key : TrafficKey
  rotation : Bool
  deriving DecidableEq, Repr

structure History where
  /-- The HELLOs the initiator drew a session for. -/
  drawn : List Hello
  /-- The HELLOs the responder took as new. -/
  taken : List Taken
  /-- The keys the initiator staged as NEXT. -/
  staged : List TrafficKey
  /-- The keys the initiator put in CURRENT. -/
  currents : List TrafficKey
  /-- The keys the responder put in CURRENT on a READY. -/
  readyPromoted : List TrafficKey
  deriving DecidableEq, Repr

structure World where
  ini : Node IniPc
  res : Node ResPc
  /-- Every message the initiator ever sent. -/
  toRes : List Msg
  /-- Every message the responder ever sent. -/
  toIni : List Msg
  hist : History
  deriving DecidableEq

/-- The configuration of both ends. -/
structure Parties where
  policyId : ℤ
  profileId : ℤ
  iniIdentity : BindIdentity
  resIdentity : BindIdentity
  iniRequestId : BitVec 64
  resRequestId : BitVec 64
  iniNow : ℕ
  resNow : ℕ

/-- A party whose process has just bound the policy and started its worker. -/
def Node.boot {π : Type} (top : π) (now : ℕ) (requestId : BitVec 64) (policyId profileId : ℤ)
    (identity : BindIdentity) : Node π where
  b := { Binding.bindNew now requestId policyId profileId identity with threadStarted := true }
  now := now
  l := .initial
  pc := top

/-- Both processes have just started; the roles are resolved. -/
def World.initial (p : Parties) : World where
  ini := .boot .top p.iniNow p.iniRequestId p.policyId p.profileId
    { p.iniIdentity with roleMode := .initiator, isTunnel := true }
  res := .boot .top p.resNow p.resRequestId p.policyId p.profileId
    { p.resIdentity with roleMode := .responder, isTunnel := true }
  toRes := []
  toIni := []
  hist := ⟨[], [], [], [], []⟩

inductive Act
  | tickIni (d : ℕ)
  | tickRes (d : ℕ)
  | workIni (d : Draws)
  | workRes (d : Draws)
  | deliverIni (m : Msg)
  | deliverRes (m : Msg)
  /-- The encryptor asks for a new session (`sig_pqc_request_new_session`). -/
  | requestIni
  | requestRes
  /-- A manual retry (`sig_pqc_trigger_retry`). -/
  | retryIni (requestId : BitVec 64)
  | retryRes (requestId : BitVec 64)
  /-- A reload asks the worker to stop. -/
  | stopIni
  | stopRes
  /-- The supervisor starts the worker of a stopped binding. -/
  | startIni
  | startRes
  /-- The process restarts with an empty memory. -/
  | restartIni (now : ℕ) (requestId : BitVec 64)
  | restartRes (now : ℕ) (requestId : BitVec 64)
  deriving DecidableEq, Repr

/-- The session a loop head has just opened. -/
def drawnBy : IniPc → IniPc → List Hello
  | .top, .helloSend session kem => [⟨session, kem⟩]
  | .top, .rotationSend session kem _ => [⟨session, kem⟩]
  | _, _ => []

/-- The key staged by a step that enters the commit wait. -/
def stagedBy (n n' : Node IniPc) : List TrafficKey :=
  match n.pc, n'.pc with
  | .rotationRecv _ _ _ _, .commitWait _ _ _ _ _ => [n'.b.slots.next.key]
  | _, _ => []

/-- The key a step put in CURRENT. -/
def currentBy (b b' : Binding) : List TrafficKey :=
  if b'.slots.current = b.slots.current then [] else [b'.slots.current.key]

namespace Node

/-- The message a responder's next receive hands to a handler. -/
def receives (n : Node ResPc) : Option Msg :=
  if n.pc = .listeningRecv ∨ n.pc = .onlineRecv then n.b.rxQueue.head? else none

/-- The HELLO the responder's next step handles as new. -/
def takes (n : Node ResPc) : Option Hello :=
  match n.receives with
  | some (.hello h) =>
    if (findCache n.b.hsCache fun e => e.hello.session == h.session).isNone then some h else none
  | _ => none

/-- The cached entry the responder's next step answers a repeated HELLO from. -/
def answersFrom (n : Node ResPc) : Option HsCacheEntry :=
  match n.receives with
  | some (.hello h) =>
    ((findCache n.b.hsCache fun e => e.hello.session == h.session).map Prod.snd).filter
      (·.hello = h)
  | _ => none

/-- The session whose RESP completes a first handshake in the initiator's next step. -/
def completes (n : Node IniPc) : Option SessionId :=
  match n.pc, n.b.rxQueue with
  | .helloRecv session _ _, .resp answered _ :: _ =>
    if answered = session then some session else none
  | _, _ => none

/-- The session of a rekey the initiator has opened and not finished. -/
def openRotation (n : Node IniPc) : Option SessionId :=
  match n.pc with
  | .rotationSend session _ _ => some session
  | .rotationRecv session _ _ _ => some session
  | .commitWait session _ _ _ _ => some session
  | _ => none

/-- The session of the commit wait an initiator is in. -/
def commitWaits (n : Node IniPc) : Option SessionId :=
  match n.pc with
  | .commitWait session _ _ _ _ => some session
  | _ => none

def workerStart {π : Type} [DecidableEq π] (stopped top : π) (n : Node π) : Option (Node π) :=
  if n.pc = stopped ∧ n.b.threadExitSig = false then
    some { n with b := { n.b with threadStarted := true }, l := .initial, pc := top }
  else none

end Node

/-- What a step of the responder took as new. -/
def takenBy (fresh : TrafficKey) (n n' : Node ResPc) : List Taken :=
  match n.takes with
  | some h => if n'.b.hsCacheNext = n.b.hsCacheNext then [] else [⟨h, fresh, n.b.keyReady⟩]
  | none => []

/-- The key a READY put in CURRENT. -/
def readyPromotedBy (n n' : Node ResPc) : List TrafficKey :=
  match n.receives with
  | some (.ready _) => currentBy n.b n'.b
  | _ => []

namespace World

variable (P : Primitives)

/-- An ideal KEM draws key pairs and secrets that were not drawn before. -/
def Fresh (w : World) (d : Draws) : Prop :=
  (∀ draw ∈ d.session, draw.1 ≠ 0 ∧ ∀ h ∈ w.hist.drawn, h.pk ≠ draw.2) ∧
    ∀ t ∈ w.hist.taken, t.key ≠ d.fresh

instance (w : World) (d : Draws) : Decidable (w.Fresh d) := by
  unfold Fresh
  infer_instance

/-- A step of the initiator's worker. -/
def workIni (w : World) (d : Draws) : World :=
  let (n, msgs) := initiatorWork P d w.ini
  { w with
    ini := n
    toRes := msgs ++ w.toRes
    hist := { w.hist with
      drawn := drawnBy w.ini.pc n.pc ++ w.hist.drawn
      staged := stagedBy w.ini n ++ w.hist.staged
      currents := currentBy w.ini.b n.b ++ w.hist.currents } }

/-- A step of the responder's worker. -/
def workRes (w : World) (d : Draws) : World :=
  let (n, msgs) := responderWork P d w.res
  { w with
    res := n
    toIni := msgs ++ w.toIni
    hist := { w.hist with
      taken := takenBy d.fresh w.res n ++ w.hist.taken
      readyPromoted := readyPromotedBy w.res n ++ w.hist.readyPromoted } }

def step (w : World) : Act → Option World
  | .tickIni d => some { w with ini := { w.ini with now := w.ini.now + d } }
  | .tickRes d => some { w with res := { w.res with now := w.res.now + d } }
  | .workIni d => if w.Fresh d then some (w.workIni P d) else none
  | .workRes d => if w.Fresh d then some (w.workRes P d) else none
  | .deliverIni m =>
    if m ∈ w.toIni then
      some { w with ini := { w.ini with b := w.ini.b.sigPqcFeedRxPacket P w.ini.now m } }
    else none
  | .deliverRes m =>
    if m ∈ w.toRes then
      some { w with res := { w.res with b := w.res.b.sigPqcFeedRxPacket P w.res.now m } }
    else none
  | .requestIni => some { w with ini := { w.ini with b := w.ini.b.sigPqcRequestNewSession } }
  | .requestRes => some { w with res := { w.res with b := w.res.b.sigPqcRequestNewSession } }
  | .retryIni id =>
    some { w with ini := { w.ini with b := w.ini.b.sigPqcTriggerRetry w.ini.now id } }
  | .retryRes id =>
    some { w with res := { w.res with b := w.res.b.sigPqcTriggerRetry w.res.now id } }
  | .stopIni => some { w with ini := { w.ini with b := { w.ini.b with threadExitSig := true } } }
  | .stopRes => some { w with res := { w.res with b := { w.res.b with threadExitSig := true } } }
  | .startIni => (w.ini.workerStart .stopped .top).map fun n => { w with ini := n }
  | .startRes => (w.res.workerStart .stopped .top).map fun n => { w with res := n }
  | .restartIni now id =>
    some { w with ini := .boot .top now id w.ini.b.policyId w.ini.b.profileId w.ini.b.identity }
  | .restartRes now id =>
    some { w with res := .boot .top now id w.res.b.policyId w.res.b.profileId w.res.b.identity }

end World

/-- Two parties of policy 7, for runs on fixed inputs. -/
def sampleParties : Parties where
  policyId := 7
  profileId := 1
  iniIdentity := sampleIdentity .initiator
  resIdentity := sampleIdentity .responder
  iniRequestId := 11
  resRequestId := 12
  iniNow := 1
  resNow := 1

namespace Act

/-- A step of the initiator's worker that opens session `n`. -/
def iniOpen (n : ℕ) : Act := .workIni ⟨some 1, some (BitVec.ofNat 32 n, n), 0, true, true⟩

def ini : Act := .workIni ⟨some 1, none, 0, true, true⟩

/-- A step of the responder's worker that agrees on key `k`, should it take a HELLO as new. -/
def resFresh (k : TrafficKey) : Act := .workRes ⟨some 1, none, k, true, true⟩

def res : Act := resFresh 0

def hello (n : ℕ) : Msg := .hello ⟨BitVec.ofNat 32 n, n⟩

def resp (n : ℕ) (k : TrafficKey) : Msg := .resp (BitVec.ofNat 32 n) ⟨n, k⟩

/-- The initiator opens session `n` and its HELLO arrives. -/
def opens (n : ℕ) : List Act := [.iniOpen n, .ini, .deliverRes (hello n)]

/-- The responder, waiting in its loop head, handles what has arrived. -/
def serves (k : TrafficKey) : List Act := [.res, .res, .resFresh k]

/-- A first handshake with session 1 and key 101. -/
def greeting : List Act :=
  opens 1 ++ serves 101 ++ [.deliverIni (resp 1 101), .ini, .ini, .res]

/-- A rekey with session `n` and key `k`, up to the commit wait. -/
def rekeyToCommitWait (n : ℕ) (k : TrafficKey) : List Act :=
  .requestIni :: opens n ++ serves k ++ [.deliverIni (resp n k), .ini, .ini]

/-- The end of the rekey of session `n`. -/
def finishRekey (n : ℕ) : List Act :=
  .deliverRes (.ready (BitVec.ofNat 32 n)) :: serves 0 ++
    [.deliverIni (.commit (BitVec.ofNat 32 n)), .ini]

/-- A rekey the initiator gives up after its HELLO was answered. -/
def lostRekey (n : ℕ) (k : TrafficKey) : List Act :=
  .requestIni :: opens n ++ serves k ++ [.tickIni 15000, .ini, .ini]

end Act

end NeEncryptor.Pqc
