import NeEncryptor.Crypto.SoundTables
import NeEncryptor.Dataplane.Classification

/-!
# The grace period of a reload

For some time after a reload `fwd_crypto_ctx_for_wire_id` still finds the contexts of before it, but a
frame with the wire id of a policy that is gone never gets there: the thread that receives it looks for
its worker with the new table alone.
-/

namespace NeEncryptor

variable {n : ℕ}

/-- What `dp_crypto_pick_local_worker` and `dp_crypto_worker_idx_for_cpu` return. -/
structure WorkerMap where
  localWorker : Bytes → ℕ
  workerIdxForCpu : UInt8 → Option ℕ

/-- Where the receiving thread of `forwarder.c` takes a frame from the WAN. -/
inductive WanRoute (n : ℕ)
  | drop
  /-- The ring of a crypto worker. -/
  | crypto (w : Fin n)
  /-- `dataplane_process_wan` in the receiving thread. -/
  | inPlace
  deriving DecidableEq

/-- `dp_pkt_is_arp`. -/
def dpPktIsArp (pkt : Bytes) : Bool :=
  if pkt.length < 14 then false
  else if ethReadEt pkt 12 = ethP8021q then
    decide (18 ≤ pkt.length) && ethReadEt pkt 16 == ethPArp
  else ethReadEt pkt 12 == ethPArp

/-- `crypto_eth_l2_read_worker_idx`. -/
def cryptoEthL2ReadWorkerIdx (pkt : Bytes) : Option UInt8 :=
  if !cryptoEthL2HasMarker pkt pkt.length then none
  else (cryptoEthL2PolicyOff pkt pkt.length).map fun off => pkt.getD (off + 1) 0

/-- The worker that a data frame names by its index or its CPU. -/
def WorkerMap.names (workers : WorkerMap) (n : ℕ) (pkt : Bytes) : Option ℕ :=
  (cryptoEthL2ReadWorkerIdx pkt).bind fun wireId =>
    if wireId.toNat < n then some wireId.toNat else workers.workerIdxForCpu wireId

namespace WanRx

variable (rx : WanRx n)

/-- `dataplane_wan_needs_mid`. -/
def dataplaneWanNeedsMid (pkt : Bytes) : Bool :=
  if cryptoEthL2HasArpMarker pkt || dpPktIsArp pkt then true
  else rx.cfg.cryptoEnabled && rx.wanWireIsEncrypted pkt

/-- `dp_crypto_pick_wan_worker`. -/
def dpCryptoPickWanWorker (workers : WorkerMap) (pkt : Bytes) : Option ℕ :=
  if cryptoEthL2HasArpMarker pkt || dpPktIsArp pkt then some (workers.localWorker pkt)
  else if !rx.cfg.cryptoEnabled || !rx.rt.fwdCryptoHasL2Marker pkt then none
  else workers.names n pkt

/-- The round of the receiving thread for one frame. -/
def wanRoute (workers : WorkerMap) (pkt : Bytes) : WanRoute n :=
  if rx.dataplaneWanNeedsMid pkt then
    match rx.dpCryptoPickWanWorker workers pkt with
    | none => .drop
    | some wi => if inside : wi < n then .crypto ⟨wi, inside⟩ else .drop
  else .inPlace

/-- The worker opens the frame with the context.  A frame with the marker of UDP is opened as a UDP
frame, and then `fwd->cfg` must have a policy of its wire id. -/
def OpensWith (pkt : Bytes) (ctx : PacketCryptoCtx) : Prop :=
  rx.cfg.cryptoEnabled = true ∧ ∃ wireId, cryptoEthL2ReadPolicyId pkt pkt.length = some wireId ∧
    rx.ctxFor wireId = some ctx ∧
    (wanL2IsUdpTagged pkt = true →
      (fwdPolicyByWireId rx.cfg wireId).isSome = true ∨ l2UdpIsFragment rx.cfg pkt = true)

end WanRx

/-- The receiving thread takes the frame in one state and puts it into the ring of a worker, which
opens it in a later state with the context. -/
def DeliveredTo (taken opened : WanRx n) (workers : WorkerMap) (pkt : Bytes)
    (ctx : PacketCryptoCtx) : Prop :=
  ∃ w, taken.wanRoute workers pkt = .crypto w ∧ { opened with worker := w }.OpensWith pkt ctx

/-- A call that neither takes over a configuration nor a snapshot. -/
def KeyCall.quiet : KeyCall n → Bool
  | .rebuild .. => false
  | .snapshot .. => false
  | _ => true

/-- No policy of the configuration but a bypass has the wire id. -/
def AppConfig.Unused (cfg : AppConfig) (wireId : UInt8) : Prop :=
  ∀ cp ∈ cfg.policies.take maxCryptoPolicies, cp.action ≠ .bypass → UInt8.ofInt cp.id ≠ wireId

theorem toBitVec_uint8_ofInt (i : ℤ) : (UInt8.ofInt i).toBitVec = BitVec.ofInt 8 i := by
  apply BitVec.eq_of_toNat_eq
  rw [UInt8.ofInt, BitVec.toNat_ofInt]
  simp only [UInt8.toNat_toBitVec, UInt8.toNat_ofNat']
  omega

theorem AppConfig.Unused.wireSlot_ne {cfg : AppConfig} {wireId : UInt8} (unused : cfg.Unused wireId)
    {cp : CryptoPolicy} (mem : cp ∈ cfg.policies.take maxCryptoPolicies)
    (encrypts : cp.isEncrypt = true) : wireSlot cp ≠ some wireId.toBitVec := by
  intro stamped
  have isEncrypt : cp.action = .encryptL2 := by simpa [CryptoPolicy.isEncrypt] using encrypts
  refine unused cp mem (by rw [isEncrypt]; decide) ?_
  unfold wireSlot at stamped
  split at stamped
  · exact UInt8.eq_of_toBitVec_eq ((toBitVec_uint8_ofInt cp.id).trans (Option.some.inj stamped))
  · cases stamped

/-- Without a policy of its wire id, a UDP frame is not opened as one. -/
theorem AppConfig.Unused.no_udp {cfg : AppConfig} {wireId : UInt8} (unused : cfg.Unused wireId)
    {pkt : Bytes} (read : cryptoEthL2ReadPolicyId pkt pkt.length = some wireId) :
    (fwdPolicyByWireId cfg wireId).isSome = false ∧ l2UdpIsFragment cfg pkt = false := by
  constructor
  · rw [fwdPolicyByWireId, Option.isSome_eq_false_iff, Option.isNone_iff_eq_none,
      List.find?_eq_none]
    intro cp mem meets
    rw [Bool.and_eq_true, bne_iff_ne, beq_iff_eq] at meets
    exact unused cp mem meets.1 meets.2
  · have none_matches : optPolicyMatch cfg wireId = false := by
      rw [optPolicyMatch, List.any_eq_false]
      intro cp mem meets
      rw [Bool.and_eq_true, beq_iff_eq, beq_iff_eq] at meets
      exact unused cp mem (by rw [meets.1]; decide) meets.2
    rw [l2UdpIsFragment, read, Option.any_some, none_matches, Bool.and_false]

theorem indexByWireId_eq_none {policies : List CryptoPolicy} {wireId : BitVec 8}
    (unused : ∀ cp ∈ policies, cp.isEncrypt = true → wireSlot cp ≠ some wireId) :
    indexByWireId policies wireId = none := by
  cases found : indexByWireId policies wireId with
  | none => rfl
  | some j =>
    obtain ⟨cp, here, encrypts, stamped⟩ := mem_of_indexByWireId found
    exact absurd stamped (unused cp (List.mem_of_getElem? here) encrypts)

/-- After a rebuild, a wire id that no policy has is in no table but that of the snapshot. -/
theorem index_rebuild {rt : CryptoRuntime n} {now : ℕ} {views : ℕ → KeyView} {cfg : AppConfig}
    {wireId : UInt8} (unused : cfg.Unused wireId) :
    (rt.fwdCryptoRebuild now views cfg).active.policyIndexByWireId wireId.toBitVec = none := by
  have none := indexByWireId_eq_none fun cp mem encrypts => unused.wireSlot_ne mem encrypts
  unfold CryptoRuntime.fwdCryptoRebuild
  split
  · rfl
  · cases profiles : cfg.profiles with
    | nil => exact none
    | cons p ps => exact none

/-! ## The snapshot and its copies -/

namespace CryptoRuntime

/-- The snapshot and its grace period are the same. -/
structure SamePrev (rt rt' : CryptoRuntime n) : Prop where
  prev : rt'.prev = rt.prev
  active : rt'.prevGraceActive = rt.prevGraceActive
  untilMs : rt'.prevGraceUntilMs = rt.prevGraceUntilMs

theorem SamePrev.trans {rt rt' rt'' : CryptoRuntime n} (first : SamePrev rt rt')
    (second : SamePrev rt' rt'') : SamePrev rt rt'' :=
  ⟨second.prev.trans first.prev, second.active.trans first.active,
    second.untilMs.trans first.untilMs⟩

/-- A call takes over the copies of a worker or publishes, or it leaves both sides as they are. -/
structure Publishes (rt rt' : CryptoRuntime n) : Prop where
  workers : rt'.workers = rt.workers
  generation : rt'.generation = rt.generation + 1

/-- A worker whose copies are up to date has the contexts of the snapshot. -/
def PrevCopies (rt : CryptoRuntime n) : Prop :=
  ∀ w, (rt.workers w).generation = some rt.generation → (rt.workers w).prevEntries = rt.prev.entries

/-- No worker has copies of exactly `2 ^ 32` publications ago. -/
def Recent (rt : CryptoRuntime n) : Prop :=
  ∀ w, (rt.workers w).generation ≠ some (rt.generation + 1)

theorem Recent.prevCopies {rt rt' : CryptoRuntime n} (recent : rt.Recent)
    (publishes : Publishes rt rt') : rt'.PrevCopies := by
  intro w current
  rw [publishes.workers, publishes.generation] at current
  exact absurd current (recent w)

theorem publishes_rebuild (rt : CryptoRuntime n) (now : ℕ) (views : ℕ → KeyView) (cfg : AppConfig) :
    Publishes rt (rt.fwdCryptoRebuild now views cfg) ∧
      SamePrev rt (rt.fwdCryptoRebuild now views cfg) := by
  unfold fwdCryptoRebuild
  split
  · exact ⟨⟨rfl, rfl⟩, ⟨rfl, rfl, rfl⟩⟩
  · cases cfg.profiles with
    | nil => exact ⟨⟨rfl, rfl⟩, ⟨rfl, rfl, rfl⟩⟩
    | cons p ps => exact ⟨⟨rfl, rfl⟩, ⟨rfl, rfl, rfl⟩⟩

/-- The copies after a synchronisation. -/
theorem PrevCopies.syncWorker {rt : CryptoRuntime n} (copies : rt.PrevCopies) (w : Fin n) :
    (rt.policyCryptoSyncWorker w).PrevCopies ∧ SamePrev rt (rt.policyCryptoSyncWorker w) ∧
      ((rt.policyCryptoSyncWorker w).workers w).prevEntries = rt.prev.entries := by
  unfold policyCryptoSyncWorker
  split
  · rename_i current
    exact ⟨copies, ⟨rfl, rfl, rfl⟩, copies w current⟩
  · refine ⟨fun v current => ?_, ⟨rfl, rfl, rfl⟩, by dsimp only; rw [Function.update_self]⟩
    dsimp only at current ⊢
    by_cases same : v = w
    · subst same
      rw [Function.update_self]
    · rw [Function.update_of_ne same] at current ⊢
      exact copies v current

/-- A call works on the tables of before it: the wire ids stay where they are, the snapshot stays, and
the copies of the workers are taken over, or published anew. -/
structure Refreshes (rt rt' : CryptoRuntime n) : Prop where
  index : rt'.active.policyIndexByWireId = rt.active.policyIndexByWireId
  prev : SamePrev rt rt'
  copies : rt.PrevCopies → rt.Recent → rt'.PrevCopies

theorem Refreshes.refl (rt : CryptoRuntime n) : Refreshes rt rt :=
  ⟨rfl, ⟨rfl, rfl, rfl⟩, fun copies _ => copies⟩

theorem Refreshes.of_publishes {rt rt' : CryptoRuntime n} (publishes : Publishes rt rt')
    (prev : SamePrev rt rt')
    (index : rt'.active.policyIndexByWireId = rt.active.policyIndexByWireId) : Refreshes rt rt' :=
  ⟨index, prev, fun _ recent => recent.prevCopies publishes⟩

/-- Quiet calls refresh. -/
theorem refreshes_run (rt : CryptoRuntime n) {call : KeyCall n} (quiet : call.quiet = true) :
    Refreshes rt (call.run rt) := by
  cases call with
  | rebuild now views cfg => cases quiet
  | snapshot now grace => cases quiet
  | sync now views cfg =>
    unfold KeyCall.run fwdCryptoSyncPqcSessionKeys
    dsimp only
    split
    · exact .refl rt
    split
    · exact ⟨rfl, ⟨rfl, rfl, rfl⟩, fun copies _ => copies⟩
    · exact .of_publishes ⟨rfl, rfl⟩ ⟨rfl, rfl, rfl⟩ rfl
  | diversify now views profileId => exact .of_publishes ⟨rfl, rfl⟩ ⟨rfl, rfl, rfl⟩ rfl
  | discard policyId =>
    unfold KeyCall.run fwdCryptoDiscardPqcPrevKey
    dsimp only
    split
    · exact .refl rt
    split
    · exact .of_publishes ⟨rfl, rfl⟩ ⟨rfl, rfl, rfl⟩ rfl
    · exact ⟨rfl, ⟨rfl, rfl, rfl⟩, fun copies _ => copies⟩
  | syncWorker w =>
    refine ⟨?_, ?_, fun copies _ => (copies.syncWorker w).1⟩
    · unfold KeyCall.run policyCryptoSyncWorker
      dsimp only
      split
      · rfl
      · rfl
    · unfold KeyCall.run policyCryptoSyncWorker
      dsimp only
      split
      · exact ⟨rfl, rfl, rfl⟩
      · exact ⟨rfl, rfl, rfl⟩

/-- A call that takes over no configuration leaves the table of the wire ids. -/
theorem index_run {rt : CryptoRuntime n} {call : KeyCall n}
    (other : ∀ now views cfg, call ≠ .rebuild now views cfg) :
    (call.run rt).active.policyIndexByWireId = rt.active.policyIndexByWireId := by
  cases call with
  | rebuild now views cfg => exact absurd rfl (other now views cfg)
  | snapshot now grace => rfl
  | sync _ _ _ | diversify _ _ _ | discard _ | syncWorker _ => exact (refreshes_run rt rfl).index

theorem index_runs (calls : List (KeyCall n))
    (others : ∀ call ∈ calls, ∀ now views cfg, call ≠ .rebuild now views cfg)
    (rt : CryptoRuntime n) :
    (calls.foldl KeyCall.run rt).active.policyIndexByWireId = rt.active.policyIndexByWireId := by
  induction calls generalizing rt with
  | nil => rfl
  | cons call calls ih =>
    rw [List.foldl_cons, ih (fun c mem => others c (List.mem_cons_of_mem call mem)),
      index_run (others call List.mem_cons_self)]

theorem prevCopies_run {rt : CryptoRuntime n} (copies : rt.PrevCopies) (recent : rt.Recent)
    (call : KeyCall n) : (call.run rt).PrevCopies := by
  cases call with
  | rebuild now views cfg => exact recent.prevCopies (publishes_rebuild rt now views cfg).1
  | snapshot now grace => exact recent.prevCopies ⟨rfl, rfl⟩
  | sync _ _ _ | diversify _ _ _ | discard _ | syncWorker _ =>
    exact (refreshes_run rt rfl).copies copies recent

theorem prevCopies_runs (calls : List (KeyCall n)) {rt : CryptoRuntime n} (copies : rt.PrevCopies)
    (recent : ∀ k < calls.length, ((calls.take k).foldl KeyCall.run rt).Recent) :
    (calls.foldl KeyCall.run rt).PrevCopies := by
  induction calls generalizing rt with
  | nil => exact copies
  | cons call calls ih =>
    refine ih (prevCopies_run copies (recent 0 (Nat.zero_lt_succ _)) call) fun k inside => ?_
    exact recent (k + 1) (Nat.succ_lt_succ inside)

/-- Quiet calls leave the snapshot alone. -/
theorem samePrev_runs (calls : List (KeyCall n)) (quiet : ∀ call ∈ calls, call.quiet = true)
    (rt : CryptoRuntime n) : SamePrev rt (calls.foldl KeyCall.run rt) := by
  induction calls generalizing rt with
  | nil => exact ⟨rfl, rfl, rfl⟩
  | cons call calls ih =>
    exact (refreshes_run rt (quiet call List.mem_cons_self)).prev.trans
      (ih (fun c mem => quiet c (List.mem_cons_of_mem call mem)) _)

end CryptoRuntime

theorem KeyCall.ne_rebuild {call : KeyCall n} (quiet : call.quiet = true) (now : ℕ)
    (views : ℕ → KeyView) (cfg : AppConfig) : call ≠ .rebuild now views cfg := by
  rintro rfl
  cases quiet

/-! ## A reload -/

/-- A reload among the other calls: what comes before its snapshot, between the snapshot and the
rebuild, and behind the rebuild. -/
structure Reload (n : ℕ) where
  before : List (KeyCall n)
  now : ℕ
  mid : List (KeyCall n)
  rebuilt : ℕ
  views : ℕ → KeyView
  cfg : AppConfig
  after : List (KeyCall n)
  quiet : ∀ call ∈ before ++ mid ++ after, call.quiet = true

namespace Reload

variable (r : Reload n) (rt : CryptoRuntime n)

def untilRebuild : List (KeyCall n) :=
  r.before ++ .snapshot r.now CryptoRuntime.profileReloadGraceMs :: r.mid

def calls : List (KeyCall n) := r.untilRebuild ++ .rebuild r.rebuilt r.views r.cfg :: r.after

/-- The runtime behind the first `k` calls. -/
def rtAt (k : ℕ) : CryptoRuntime n := (r.calls.take k).foldl KeyCall.run rt

/-- The table that the snapshot takes over. -/
def snapped : PolicyTables := (r.before.foldl KeyCall.run rt).active

variable {r rt} {k : ℕ} {wireId : UInt8}

theorem index_before (early : k ≤ r.untilRebuild.length) :
    (r.rtAt rt k).active.policyIndexByWireId = rt.active.policyIndexByWireId := by
  rw [rtAt, calls, List.take_append_of_le_length early]
  refine CryptoRuntime.index_runs _ (fun call mem => ?_) rt
  have listed := List.mem_of_mem_take mem
  rw [untilRebuild, List.mem_append, List.mem_cons] at listed
  rcases listed with old | rfl | mid
  · exact KeyCall.ne_rebuild (r.quiet call (by simp [old]))
  · exact fun _ _ _ => nofun
  · exact KeyCall.ne_rebuild (r.quiet call (by simp [mid]))

theorem index_snapped : (r.snapped rt).policyIndexByWireId = rt.active.policyIndexByWireId :=
  CryptoRuntime.index_runs _ (fun call mem => KeyCall.ne_rebuild (r.quiet call (by simp [mem]))) rt

theorem index_behind (rt : CryptoRuntime n) (late : r.untilRebuild.length < k)
    (unused : r.cfg.Unused wireId) :
    (r.rtAt rt k).active.policyIndexByWireId wireId.toBitVec = none := by
  obtain ⟨m, rfl⟩ := Nat.exists_eq_add_of_lt late
  rw [rtAt, calls, Nat.add_assoc, List.take_length_add_append, List.take_succ_cons,
    List.foldl_append, List.foldl_cons,
    CryptoRuntime.index_runs _ fun call mem => KeyCall.ne_rebuild (r.quiet call (by
      simp [List.mem_of_mem_take mem]))]
  exact index_rebuild unused

/-- The snapshot is there until the end of the grace period. -/
theorem prev_at_end (r : Reload n) (rt : CryptoRuntime n) :
    (r.rtAt rt r.calls.length).prev = r.snapped rt ∧
    (r.rtAt rt r.calls.length).prevGraceActive = !(r.snapped rt).entries.isEmpty ∧
    (r.rtAt rt r.calls.length).prevGraceUntilMs = r.now + CryptoRuntime.profileReloadGraceMs := by
  have quietMid := CryptoRuntime.samePrev_runs r.mid fun call mem => r.quiet call (by simp [mem])
  have quietAfter := CryptoRuntime.samePrev_runs r.after fun call mem =>
    r.quiet call (by simp [mem])
  have kept := ((quietMid ((r.before.foldl KeyCall.run rt).fwdCryptoSnapshotActiveToPrev r.now
    CryptoRuntime.profileReloadGraceMs)).trans
      (CryptoRuntime.publishes_rebuild _ r.rebuilt r.views r.cfg).2).trans (quietAfter _)
  rw [rtAt, List.take_length, calls, untilRebuild, List.foldl_append, List.foldl_append,
    List.foldl_cons, List.foldl_cons]
  exact ⟨kept.prev, kept.active, kept.untilMs⟩

/-- What `fwd_crypto_ctx_for_wire_id` finds for a wire id that is gone. -/
theorem ctxFor_at_end (copies : rt.PrevCopies)
    (recent : ∀ k < r.calls.length, (r.rtAt rt k).Recent) (unused : r.cfg.Unused wireId) {i : ℕ}
    {ctx : PacketCryptoCtx} (indexed : rt.active.policyIndexByWireId wireId.toBitVec = some i)
    (held : ctxAt (r.snapped rt).entries i = some ctx) (w : Fin n) (now : ℕ) :
    WanRx.ctxFor ⟨r.cfg, r.rtAt rt r.calls.length, w, now⟩ wireId =
      if now < r.now + CryptoRuntime.profileReloadGraceMs then some ctx else none := by
  have gone := index_behind rt (k := r.calls.length)
    (by simp [calls]) unused
  obtain ⟨prev, active, untilMs⟩ := prev_at_end r rt
  have upToDate : (r.rtAt rt r.calls.length).PrevCopies := by
    rw [rtAt, List.take_length]
    exact CryptoRuntime.prevCopies_runs _ copies recent
  have some_entry : (r.snapped rt).entries.isEmpty = false := by
    cases entries : (r.snapped rt).entries with
    | nil =>
      rw [ctxAt, entries] at held
      cases held
    | cons e es => rfl
  generalize r.rtAt rt r.calls.length = last at gone prev active untilMs upToDate ⊢
  rw [some_entry] at active
  rw [WanRx.ctxFor, CryptoRuntime.fwdCryptoCtxForWireId,
    CryptoRuntime.fwdCryptoMaybeExpirePrevGrace, active, untilMs]
  by_cases inTime : now < r.now + CryptoRuntime.profileReloadGraceMs
  · have ready : last.prev.ready i = true := by
      rw [PolicyTables.ready, prev]
      exact Option.isSome_iff_exists.mpr ⟨ctx, held⟩
    have copied := (upToDate.syncWorker w).2.2
    simp only [decide_eq_false (Nat.not_le.mpr inTime), Bool.and_false, Bool.false_eq_true,
      if_false, gone, Option.filter_none, active, Bool.not_false, if_true, if_pos inTime]
    rw [prev, index_snapped, indexed, ← prev, Option.filter_some_pos ready, Option.bind_some,
      CryptoRuntime.policyCryptoCtxForWorker, if_pos rfl, copied, prev]
    exact held
  · simp [Nat.not_lt.mp inTime, gone, if_neg inTime]

end Reload

section Route

variable {rx : WanRx n} {pkt : Bytes} {wireId : UInt8} {workers : WorkerMap}

theorem hasMarker_cases (marked : cryptoEthL2HasMarker pkt pkt.length = true) :
    ∃ etOff, cryptoEthInnerEtOff pkt pkt.length = some etOff ∧
      (ethReadEt pkt etOff = l2FakeEthertype ∨ ethReadEt pkt etOff = l2FakeEthertypeUdp) := by
  unfold cryptoEthL2HasMarker at marked
  split at marked
  · cases marked
  · rename_i etOff found
    rw [Bool.or_eq_true, beq_iff_eq, beq_iff_eq] at marked
    exact ⟨etOff, found, marked⟩

/-- A frame with a marker is no ARP frame. -/
theorem not_arp (marked : cryptoEthL2HasMarker pkt pkt.length = true) :
    (cryptoEthL2HasArpMarker pkt || dpPktIsArp pkt) = false := by
  obtain ⟨etOff, found, et⟩ := hasMarker_cases marked
  obtain ⟨-, inside, place⟩ := innerEtOff_cases found
  have marker : cryptoEthL2HasArpMarker pkt = false := by
    rw [cryptoEthL2HasArpMarker, found, Option.any_some]
    rcases et with et | et
    · rw [et]
      decide
    · rw [et]
      decide
  have plain : dpPktIsArp pkt = false := by
    unfold dpPktIsArp
    rcases place with rfl | ⟨rfl, tagged⟩
    · rcases et with et | et
      · simp [et, l2FakeEthertype, ethP8021q, ethPArp]
      · simp [et, l2FakeEthertypeUdp, ethP8021q, ethPArp]
    · rcases et with et | et
      · simp [et, tagged, l2FakeEthertype, ethPArp]
      · simp [et, tagged, l2FakeEthertypeUdp, ethPArp]
  rw [marker, plain]
  rfl

/-- A data frame whose wire id is not in the table goes to no worker. -/
theorem wanRoute_unused (unused : rx.rt.active.policyIndexByWireId wireId.toBitVec = none)
    (marked : cryptoEthL2HasMarker pkt pkt.length = true)
    (read : cryptoEthL2ReadPolicyId pkt pkt.length = some wireId) :
    rx.wanRoute workers pkt = if rx.cfg.cryptoEnabled then .drop else .inPlace := by
  have unknown : rx.rt.fwdCryptoHasL2Marker pkt = false := by
    rw [CryptoRuntime.fwdCryptoHasL2Marker, read, Option.any_some, unused]
    exact Bool.and_false _
  have noWorker : rx.dpCryptoPickWanWorker workers pkt = none := by
    rw [WanRx.dpCryptoPickWanWorker, not_arp marked, unknown]
    simp
  rw [WanRx.wanRoute, WanRx.dataplaneWanNeedsMid, not_arp marked, rx.wireIsEncrypted marked, noWorker]
  cases rx.cfg.cryptoEnabled with
  | true => rfl
  | false => rfl

/-- A data frame whose wire id is in the table goes to the worker that it names. -/
theorem wanRoute_used {j : ℕ} (used : rx.rt.active.policyIndexByWireId wireId.toBitVec = some j)
    (marked : cryptoEthL2HasMarker pkt pkt.length = true)
    (read : cryptoEthL2ReadPolicyId pkt pkt.length = some wireId) (w : Fin n) :
    rx.wanRoute workers pkt = .crypto w ↔
      rx.cfg.cryptoEnabled = true ∧ workers.names n pkt = some (w : ℕ) := by
  have known : rx.rt.fwdCryptoHasL2Marker pkt = true := by
    rw [CryptoRuntime.fwdCryptoHasL2Marker, read, Option.any_some, used, marked]
    rfl
  rw [WanRx.wanRoute, WanRx.dataplaneWanNeedsMid, not_arp marked, rx.wireIsEncrypted marked,
    WanRx.dpCryptoPickWanWorker, not_arp marked, known]
  cases rx.cfg.cryptoEnabled with
  | false => simp
  | true =>
    change (match workers.names n pkt with
      | none => WanRoute.drop
      | some wi => if inside : wi < n then .crypto ⟨wi, inside⟩ else .drop) = .crypto w ↔ _
    cases named : workers.names n pkt with
    | none => simp
    | some wi =>
      dsimp only
      split
      · simp [Fin.ext_iff]
      · rename_i outside
        have other : wi ≠ w := fun same => outside (same ▸ w.isLt)
        simp [other]

end Route

/-- The configuration of before the reload, with the policy under another wire id. -/
def movedConfig : AppConfig :=
  { gateConfig 80 443 with policies := (gateConfig 80 443).policies.map fun cp => { cp with id := 2 } }

/-- A reload that moves the policy to wire id 2. -/
def movingReload : Reload 1 where
  before := []
  now := 0
  mid := []
  rebuilt := 0
  views := fun _ _ => none
  cfg := movedConfig
  after := []
  quiet := nofun

/-- The receiver one millisecond later. -/
def graceReceiver : WanRx 1 :=
  ⟨movedConfig, movingReload.rtAt tcpReceiver.rt movingReload.calls.length, 0, 1⟩

def sampleWorkers : WorkerMap := ⟨fun _ => 0, fun _ => none⟩

theorem movedConfig_unused : movedConfig.Unused 1 := by
  intro cp mem _
  obtain rfl := List.mem_singleton.mp mem
  decide

theorem tcpReceiver_prevCopies : tcpReceiver.rt.PrevCopies := by
  intro w current
  cases current

theorem movingReload_recent : ∀ k < movingReload.calls.length,
    (movingReload.rtAt tcpReceiver.rt k).Recent := by
  intro k inside w
  match k, inside with
  | 0, _ => exact nofun
  | 1, _ => exact nofun

end NeEncryptor
