import NeEncryptor.Dataplane.EgressPolicy
import NeEncryptor.Dataplane.IngressPolicy

/-!
# Runs of the edges

The calls for frames from the LANs and from the WANs in any order, each with what its thread finds,
and the sweeps of a crypto worker between them.  A frame that a run hands to a LAN was deciphered by
its calls, however late the reordering releases it.
-/

namespace NeEncryptor

open Buffer Custody

variable {n : ℕ}

/-- A call of `dataplane_process_local`. -/
structure LocalCall (n : ℕ) where
  edge : Edge n
  draws : LocalDraws
  job : Job

/-- A call of `dataplane_process_wan`. -/
structure WanCall (n : ℕ) where
  edge : Edge n
  draws : WanDraws
  job : Job

/-! ## Where a packet comes from -/

/-- Fragments that calls have opened, each with its time. -/
def FedBy (calls : List (WanCall n)) (fed : List (OpenedUdp × BitVec 64)) : Prop :=
  ∀ f ∈ fed, ∃ c ∈ calls, c.edge.OpensUdp c.job f.1 ∧ c.draws.optNowNs = f.2

/-- The packets that calls decipher. -/
inductive Deciphered (calls : List (WanCall n)) : Bytes → Prop
  | whole {c : WanCall n} {packet : Bytes} (mem : c ∈ calls)
      (opened : c.edge.OpensWhole c.job packet) : Deciphered calls packet
  | datagram {c : WanCall n} {p : OpenedUdp} (mem : c ∈ calls)
      (opened : c.edge.OpensUdp c.job p) (kind : p.kind = .full) : Deciphered calls p.packet
  | joined {fed : List (OpenedUdp × BitVec 64)} {now : BitVec 64} {packet : Bytes}
      (fedBy : FedBy calls fed) (joins : JoinedFrom fed now packet) : Deciphered calls packet

/-- The frame is a deciphered packet, with the MSS that one of the calls leaves. -/
def DecipheredFrame (calls : List (WanCall n)) (frame : Bytes) : Prop :=
  ∃ c ∈ calls, ∃ packet, Deciphered calls packet ∧ frame = c.edge.wanClampTcpMss packet

section Deciphered

variable {calls more : List (WanCall n)} {fed : List (OpenedUdp × BitVec 64)} {packet frame : Bytes}

theorem FedBy.mono (fedBy : FedBy calls fed) (grows : calls ⊆ more) : FedBy more fed := by
  intro f mem
  obtain ⟨c, here, opened⟩ := fedBy f mem
  exact ⟨c, grows here, opened⟩

theorem FedBy.feed (fedBy : FedBy calls fed) {c : WanCall n} {p : OpenedUdp}
    (opened : c.edge.OpensUdp c.job p) : FedBy (c :: calls) ((p, c.draws.optNowNs) :: fed) := by
  intro f mem
  rcases List.mem_cons.mp mem with rfl | old
  · exact ⟨c, List.mem_cons_self, opened, rfl⟩
  · exact fedBy.mono (List.subset_cons_self _ _) f old

theorem Deciphered.mono (deciphered : Deciphered calls packet) (grows : calls ⊆ more) :
    Deciphered more packet := by
  cases deciphered with
  | whole mem opened => exact .whole (grows mem) opened
  | datagram mem opened kind => exact .datagram (grows mem) opened kind
  | joined fedBy joins => exact .joined (fedBy.mono grows) joins

theorem DecipheredFrame.mono (deciphered : DecipheredFrame calls frame) (grows : calls ⊆ more) :
    DecipheredFrame more frame := by
  obtain ⟨c, mem, packet, deciphered, same⟩ := deciphered
  exact ⟨c, grows mem, packet, deciphered.mono grows, same⟩

/-- What a call makes from a table that calls have fed is deciphered. -/
theorem Edge.Makes.deciphered {c : WanCall n} {st : WanState} (fedBy : FedBy calls fed)
    (sourced : ∀ j, (st.ft j).Sourced fed) (makes : c.edge.Makes c.draws st c.job packet) :
    Deciphered (c :: calls) packet := by
  cases makes with
  | whole opened => exact .whole List.mem_cons_self opened
  | datagram opened kind => exact .datagram List.mem_cons_self opened kind
  | @joined p _ opened joins =>
    exact .joined (fedBy.feed opened) ((l2Reassemble_sound sourced).2 packet joins)

end Deciphered

/-! ## Runs -/

/-- The frames that a trace hands to LANs. -/
def lanPushes (es : List FrameEvent) : List Bytes :=
  es.filterMap fun
    | .release _ (.ring (.lan _) frame) => some frame
    | _ => none

theorem mem_lanPushes {es : List FrameEvent} {frame : Bytes} (mem : frame ∈ lanPushes es) :
    ∃ a li, .release a (.ring (.lan li) frame) ∈ es := by
  obtain ⟨event, here, same⟩ := List.mem_filterMap.mp mem
  split at same
  · cases same
    exact ⟨_, _, here⟩
  · cases same

/-- What a run of calls has done so far. -/
structure EdgeRun (n : ℕ) where
  wan : WanState
  /-- Every call so far has returned. -/
  returned : Bool
  localCalls : List (LocalCall n)
  wanCalls : List (WanCall n)
  /-- The frames for LANs, with the call that pushed them if it was not a sweep. -/
  delivered : List (Option (WanCall n) × Bytes)

inductive EdgeAct (n : ℕ)
  | fromLan (c : LocalCall n)
  | fromWan (c : WanCall n)
  /-- `dataplane_udp_reorder_gc`. -/
  | reorderGc (e : Edge n) (now : BitVec 64)
  /-- `dataplane_udp_reorder_reset`. -/
  | reorderReset (e : Edge n)
  /-- `opt_frag_gc_table`, from entry `start` on. -/
  | fragGc (start : ℕ) (now : BitVec 64)

namespace EdgeRun

/-- A worker starts with empty tables. -/
def initial : EdgeRun n := ⟨⟨fun _ => .zero, .initial⟩, true, [], [], []⟩

/-- The reordering has made callbacks outside of a call. -/
def sweep (s : EdgeRun n) (e : Edge n) (r : Reorder.Worker WanItem × List (Fin 512 × Reorder.Event WanItem)) :
    EdgeRun n :=
  let frames := lanPushes ((Reorder.Worker.callbacks r.2).flatMap e.reorderTrace)
  { s with wan := { s.wan with reorder := r.1 }, delivered := s.delivered ++ frames.map (none, ·) }

def act (s : EdgeRun n) : EdgeAct n → EdgeRun n
  | .fromLan c => { s with localCalls := c :: s.localCalls }
  | .fromWan c =>
    let (wan, events, returned) := c.edge.dataplaneProcessWan c.draws s.wan c.job
    { s with
      wan := wan
      returned := returned
      wanCalls := c :: s.wanCalls
      delivered := s.delivered ++ (lanPushes events).map (some c, ·) }
  | .reorderGc e now =>
    s.sweep e (s.wan.reorder.dpUdpReorderGc (fun item => (e.forwardWanToLocal item).isSome)
      e.reorder.holdNs now)
  | .reorderReset e => s.sweep e s.wan.reorder.dpUdpReorderResetWorker
  | .fragGc start now => { s with wan := { s.wan with ft := gcFrom now start s.wan.ft gcSlice } }

/-- A call starts once the one before it has returned. -/
def step (s : EdgeRun n) (a : EdgeAct n) : Option (EdgeRun n) :=
  if s.returned then some (s.act a) else none

/-- A policy that encrypts finds its own context at its place, and no frame passes as it is. -/
def Meets : EdgeAct n → Prop
  | .fromLan c => c.edge.Encrypts c.job → c.edge.OwnContext c.job
  | .fromWan c => ¬ c.edge.PassesRaw c.job
  | _ => True

/-- The frame for a LAN is ARP, was deciphered, or passes in the clear for a BYPASS policy. -/
def Admitted (calls : List (WanCall n)) : Option (WanCall n) × Bytes → Prop
  | (some c, frame) =>
    (cryptoEthL2HasArpMarker c.job.frame || dpPktIsArp c.job.frame) = true ∨
      DecipheredFrame calls frame ∨ c.edge.PassesPlain c.job frame
  | (none, frame) => DecipheredFrame calls frame

/-- The policies have been enforced at both edges. -/
structure Enforced (s : EdgeRun n) : Prop where
  out : ∀ c ∈ s.localCalls, dpPktIsArp c.job.frame = false → c.edge.Encrypts c.job →
    c.edge.OutEnforced c.draws c.job
  into : ∀ entry ∈ s.delivered, Admitted s.wanCalls entry

/-- The tables of the worker have only what the calls have opened. -/
structure Kept (s : EdgeRun n) : Prop where
  ordered : Edge.WanOrdered s.wan
  table : ∃ fed, FedBy s.wanCalls fed ∧ ∀ j, (s.wan.ft j).Sourced fed
  held : ∀ item, s.wan.reorder.HasItem item → DecipheredFrame s.wanCalls item.frame
  enforced : s.Enforced

variable {s t : EdgeRun n}

theorem kept_initial : (initial : EdgeRun n).Kept where
  ordered := ⟨Reorder.Worker.counted_initial, fun _ _ _ valid => nomatch valid⟩
  table := ⟨[], fun _ mem => (nomatch mem), fun _ => .empty rfl rfl⟩
  held := by
    rintro item ⟨idx, i, slot, here, -⟩
    cases here
  enforced := ⟨fun _ mem => (nomatch mem), fun _ mem => nomatch mem⟩

theorem Admitted.mono {calls more : List (WanCall n)} {entry : Option (WanCall n) × Bytes}
    (admitted : Admitted calls entry) (grows : calls ⊆ more) : Admitted more entry := by
  obtain ⟨call, frame⟩ := entry
  cases call with
  | none => exact DecipheredFrame.mono admitted grows
  | some c => exact admitted.imp_right fun rest => rest.imp_left fun old => old.mono grows

theorem Kept.fromLan (kept : s.Kept) {c : LocalCall n}
    (own : c.edge.Encrypts c.job → c.edge.OwnContext c.job) :
    (s.act (.fromLan c)).Kept where
  ordered := kept.ordered
  table := kept.table
  held := kept.held
  enforced := by
    refine ⟨fun c' mem data encrypts => ?_, kept.enforced.into⟩
    rcases List.mem_cons.mp mem with rfl | old
    · exact Edge.outEnforced data encrypts (own encrypts)
    · exact kept.enforced.out c' old data encrypts

/-- A step of the reordering outside of a call hands on what was held. -/
theorem Kept.sweep (kept : s.Kept) (e : Edge n)
    {r : Reorder.Worker WanItem × List (Fin 512 × Reorder.Event WanItem)}
    (accounts : s.wan.reorder.Accounts 0 (Reorder.Worker.callbacks r.2) r.1)
    (placed : r.1.Placed) : (s.sweep e r).Kept := by
  have old {item : WanItem} (here : item ∈ Reorder.disposedItems (Reorder.Worker.callbacks r.2) ∨
      r.1.HasItem item) : DecipheredFrame s.wanCalls item.frame := by
    rcases accounts.among here with new | held
    · cases Multiset.notMem_zero _ new
    · exact kept.held item held
  refine ⟨⟨accounts.counted, placed⟩, kept.table, fun item held => old (.inr held),
    kept.enforced.out, fun entry mem => ?_⟩
  rcases List.mem_append.mp mem with before | new
  · exact kept.enforced.into entry before
  · obtain ⟨frame, pushed, rfl⟩ := List.mem_map.mp new
    obtain ⟨a, li, here⟩ := mem_lanPushes pushed
    obtain ⟨event, called, here⟩ := List.mem_flatMap.mp here
    obtain ⟨seq, item, rfl, rfl⟩ := Edge.mem_reorderTrace here
    exact old (.inl (Edge.mem_disposed_of_emit called))

theorem Kept.fromWan (kept : s.Kept) {c : WanCall n} (meets : ¬ c.edge.PassesRaw c.job) :
    (s.act (.fromWan c)).Kept := by
  obtain ⟨fed, fedBy, sourced⟩ := kept.table
  have grows : s.wanCalls ⊆ c :: s.wanCalls := List.subset_cons_self _ _
  have keeps := c.edge.keeps_processWan c.draws s.wan c.job
  have opened {packet : Bytes} (makes : c.edge.Makes c.draws s.wan c.job packet) :
      DecipheredFrame (c :: s.wanCalls) (c.edge.wanClampTcpMss packet) :=
    ⟨c, List.mem_cons_self, packet, makes.deciphered fedBy sourced, rfl⟩
  refine ⟨kept.ordered.process c.edge c.draws c.job, ?_, fun item held => ?_, kept.enforced.out,
    fun entry mem => ?_⟩
  · rcases keeps.ft with same | ⟨p, opens, feeds⟩
    · exact ⟨fed, fedBy.mono grows, fun j => (congrFun same j).symm ▸ sourced j⟩
    · exact ⟨_, fedBy.feed opens, fun j =>
        (congrFun feeds j).symm ▸ (l2Reassemble_sound sourced).1 j⟩
  · rcases keeps.items kept.ordered held with old | ⟨packet, makes, same⟩
    · exact (kept.held item old).mono grows
    · rw [same]
      exact opened makes
  · rcases List.mem_append.mp mem with before | new
    · exact (kept.enforced.into entry before).mono grows
    · obtain ⟨frame, pushed, rfl⟩ := List.mem_map.mp new
      obtain ⟨a, li, here⟩ := mem_lanPushes pushed
      cases Edge.passes_of_mem kept.ordered here with
      | arp isArp => exact .inl isArp
      | opened makes same => exact .inr (.inl (same ▸ opened makes))
      | released held same => exact .inr (.inl (same ▸ (kept.held _ held).mono grows))
      | plain passes => exact .inr (.inr passes)
      | raw passes => exact absurd passes meets

theorem Kept.thin (kept : s.Kept) {ft : OptTable} (thinned : s.wan.ft.Thinned ft) :
    ({ s with wan := { s.wan with ft := ft } } : EdgeRun n).Kept := by
  obtain ⟨fed, fedBy, sourced⟩ := kept.table
  exact ⟨⟨kept.ordered.counted, kept.ordered.placed⟩, ⟨fed, fedBy, thinned.sourced sourced⟩,
    kept.held, kept.enforced.out, kept.enforced.into⟩

theorem Kept.act (kept : s.Kept) {a : EdgeAct n} (meets : Meets a) : (s.act a).Kept := by
  cases a with
  | fromLan c => exact kept.fromLan meets
  | fromWan c => exact kept.fromWan meets
  | reorderGc e now =>
    exact kept.sweep e (kept.ordered.counted.accounts_gc _ _ now) (kept.ordered.placed.gc _ _ now)
  | reorderReset e =>
    exact kept.sweep e kept.ordered.counted.accounts_resetWorker kept.ordered.placed.resetWorker
  | fragGc start now => exact kept.thin (OptTable.gcFrom_thinned start gcSlice)

/-- In a run whose calls find the context of a policy at its place, and pass no frame as it is, both
edges enforce the policies. -/
theorem enforced_of_meets
    (reached : Transition.ReachableWith step (fun _ a => Meets a) initial s) : s.Enforced := by
  refine (reached.invariant (I := Kept) kept_initial fun s a t kept meets enabled => ?_).enforced
  unfold step at enabled
  split at enabled
  · cases enabled
    exact kept.act meets
  · cases enabled

/-! ## A run of two calls -/

def synCall : LocalCall 1 := ⟨mssEdge 1500, mssDraws, lanSynJob⟩

def synBackCall : WanCall 1 := ⟨mssEdge 1500, mssWanDraws, wanSynJob⟩

/-- A SYN has left for a WAN, and one has come. -/
def synRun : EdgeRun 1 := (initial.act (.fromLan synCall)).act (.fromWan synBackCall)

theorem synCall_meets : Meets (.fromLan synCall) := by
  intro _ t pi cp ctx flow picked loaded
  have flows : dpParseFlow lanSynJob.frame lanSynJob.len = some lanSynFlow := by decide +kernel
  obtain rfl := Option.some.inj (flows.symm.trans flow)
  have picks : (mssEdge 1500).pickProfilePolicy ((mssEdge 1500).ingressLocal lanSynJob)
      (some lanSynFlow) = some (0, lanPolicy) := by decide +kernel
  obtain ⟨rfl, rfl⟩ := Prod.mk.inj (Option.some.inj (picks.symm.trans picked))
  have loads : (mssEdge 1500).fwdCryptoPolicyCtx 0 = some lanPolicyCtx := by decide +kernel
  obtain rfl := Option.some.inj (loads.symm.trans loaded)
  exact ⟨rfl, rfl⟩

theorem synBackCall_meets : Meets (.fromWan synBackCall) := by
  intro raw
  exact absurd raw.unlisted (by decide +kernel)

theorem synRun_enforced : synRun.delivered.length = 1 ∧ synRun.Enforced := by
  refine ⟨by decide +kernel, enforced_of_meets (.tail (.single synCall_meets rfl) synBackCall_meets ?_)⟩
  rfl

/-! ## A frame that nothing opens -/

/-- A reload has just given the policy another wire id. -/
def renamedEdge : Edge 1 :=
  { mssEdge 1500 with
    cfg := ⟨true, [⟨1, [0], true⟩], [anyPolicy 6]⟩
    rt :=
      { (mssEdge 1500).rt with
        active := ⟨[⟨anyPolicy 6, some { lanPolicyCtx with wireId := 6 }⟩],
          fun w => if w = 6 then some 0 else none, fun w => if w = 6 then 1 else -1⟩
        prev := { (mssEdge 1500).rt.active with entries := [⟨anyPolicy 5, some lanPolicyCtx⟩] }
        prevGraceActive := true
        prevGraceUntilMs := CryptoRuntime.profileReloadGraceMs
        generation := 2 } }

/-- A frame under the wire id of before, with a tag that no key makes. -/
def forgedJob : Job := paddedJob (wanSynJob.frame.take 87 ++ [1]) 88 wanSynJob.fits

def forgedCall : WanCall 1 := ⟨renamedEdge, mssWanDraws, forgedJob⟩

def forgedRun : EdgeRun 1 := initial.act (.fromWan forgedCall)

/-- Without a frame that opens there is no packet. -/
theorem not_decipheredFrame {c : WanCall n} {frame : Bytes}
    (closed : ∀ ctx, c.edge.Loads c.job ctx →
      l2DoDecrypt c.edge.aead ctx c.job.frame c.job.frame.length = none ∧
        l2DoDecryptUdp c.edge.aead ctx c.job.frame c.job.frame.length = none) :
    ¬ DecipheredFrame [c] frame := by
  have noUdp {p : OpenedUdp} (opened : c.edge.OpensUdp c.job p) : False := by
    obtain ⟨ctx, loads, -, opened⟩ := opened
    rw [(closed ctx loads).2] at opened
    cases opened
  rintro ⟨-, -, packet, deciphered, -⟩
  cases deciphered with
  | whole mem opened =>
    cases List.mem_singleton.mp mem
    obtain ⟨ctx, loads, -, opened⟩ := opened
    rw [(closed ctx loads).1] at opened
    cases opened
  | datagram mem opened =>
    cases List.mem_singleton.mp mem
    exact noUdp opened
  | joined fedBy joins =>
    obtain ⟨F, tF, -, -, mem, -⟩ := joins
    obtain ⟨c', here, opened, -⟩ := fedBy (F, tF) mem
    cases List.mem_singleton.mp here
    exact noUdp opened

theorem forgedCall_closed (ctx : PacketCryptoCtx)
    (loads : forgedCall.edge.Loads forgedCall.job ctx) :
    l2DoDecrypt sampleAead ctx forgedJob.frame forgedJob.frame.length = none ∧
      l2DoDecryptUdp sampleAead ctx forgedJob.frame forgedJob.frame.length = none := by
  obtain ⟨rx, worker, wireId, read, loads⟩ := loads
  have found : (renamedEdge.rx.bind fun rx => (cryptoEthL2ReadPolicyId forgedJob.frame
      forgedJob.frame.length).bind rx.ctxFor) = some ctx :=
    Option.bind_eq_some_iff.mpr ⟨rx, worker, Option.bind_eq_some_iff.mpr ⟨wireId, read, loads⟩⟩
  have known : (renamedEdge.rx.bind fun rx => (cryptoEthL2ReadPolicyId forgedJob.frame
      forgedJob.frame.length).bind rx.ctxFor) = some lanPolicyCtx := by decide +kernel
  obtain rfl := Option.some.inj (known.symm.trans found)
  exact ⟨by decide +kernel, by decide +kernel⟩

/-- The frame is handed to the LAN as it came. -/
theorem not_always_enforced :
    ¬ ∀ s : EdgeRun 1, Transition.Reachable step initial s → s.Enforced := by
  intro always
  have pushes : lanPushes (renamedEdge.dataplaneProcessWan mssWanDraws freshWanState
      forgedJob).2.1 = [forgedJob.frame] := by decide +kernel
  have delivered : (some forgedCall, forgedJob.frame) ∈ forgedRun.delivered := by
    rw [show forgedRun.delivered = (lanPushes (renamedEdge.dataplaneProcessWan mssWanDraws
      freshWanState forgedJob).2.1).map (some forgedCall, ·) from rfl, pushes]
    exact List.mem_singleton_self _
  rcases (always forgedRun (.single trivial rfl)).into _ delivered with isArp | deciphered | plain
  · exact absurd isArp (by decide +kernel)
  · exact not_decipheredFrame forgedCall_closed deciphered
  · exact absurd plain.2.1 (by decide +kernel)

end EdgeRun

end NeEncryptor
