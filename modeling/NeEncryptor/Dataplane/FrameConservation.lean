import NeEncryptor.Dataplane.FrameCustody
import NeEncryptor.Dataplane.MssBound

/-!
# Which frames are conserved

A flood of ARP sends the frame itself to the first port that has room and reads it again for the
others, and some callers free what the push has freed.  Everything else that a call does to frames is
in order: a frame leaves once.
-/

namespace NeEncryptor

open Buffer Custody

namespace Edge

variable {n : ℕ} {e : Edge n} {y : WanDraws} {st : WanState} {job : Job}
  {held : Multiset FrameAddr}

/-! ## The flood of ARP -/

/-- A round of the flood reads the packet after an earlier round, the first that found room in a
ring, has pushed it. -/
def FloodRereads (e : Edge n) (y : WanDraws) (addr : FrameAddr) (k : ℕ) (ports : List ℕ) : Prop :=
  ∃ i j li port, i < j ∧ ports[i]? = some li ∧ ports[j]? = some port ∧
    (∀ l < i, ∀ p, ports[l]? = some p → midRingCap ≤ e.pushCount (.lan p) addr) ∧
    e.pushCount (.lan li) addr < midRingCap ∧ (port ≠ li ∨ 16 ≤ li) ∧
    (y.clone (k + j)).isSome = true

/-- After `arp_bridge_from_wan` the call has its frame only where it does not return 0. -/
def Bridged (addr : FrameAddr) (held : Multiset FrameAddr) : List FrameEvent × Bool → Prop
  | (events, true) => Leaves (addr ::ₘ held) events held
  | (events, false) => Leaves (addr ::ₘ held) (events ++ [.release addr .pool]) held

section Flood

variable {addr : FrameAddr} {frame : Bytes} {k : ℕ} {mask ports : List ℕ}

/-- A round that clones the packet for a port that has none. -/
def Clones (y : WanDraws) (k : ℕ) (mask ports : List ℕ) : Prop :=
  ∃ j port, ports[j]? = some port ∧ mask.contains port = false ∧ (y.clone (k + j)).isSome = true

theorem clones_cons {li : ℕ} :
    Clones y k mask (li :: ports) ↔
      mask.contains li = false ∧ (y.clone k).isSome = true ∨ Clones y (k + 1) mask ports := by
  constructor
  · rintro ⟨j, port, found, free, clone⟩
    cases j with
    | zero =>
      cases found
      exact .inl ⟨free, clone⟩
    | succ j => exact .inr ⟨j, port, found, free, by rwa [Nat.add_assoc, Nat.add_comm 1 j]⟩
  · rintro (⟨free, clone⟩ | ⟨j, port, found, free, clone⟩)
    · exact ⟨0, li, rfl, free, clone⟩
    · exact ⟨j + 1, port, found, free, by rwa [Nat.add_assoc, Nat.add_comm 1 j] at clone⟩

theorem arpFlood_of_sent : (e.arpFlood y addr frame k true mask ports).2 = true := by
  induction ports generalizing k mask with
  | nil => rfl
  | cons li ports ih =>
    unfold arpFlood
    split
    · exact ih
    · dsimp only
      rw [if_neg (by decide)]
      split
      · exact ih
      · split
        · exact ih
        · exact ih

/-- Without clones the rounds after the push do nothing. -/
theorem arpFlood_quiet (quiet : ¬ Clones y k mask ports) :
    (e.arpFlood y addr frame k true mask ports).1 = [] := by
  induction ports generalizing k with
  | nil => rfl
  | cons li ports ih =>
    rw [clones_cons, not_or] at quiet
    unfold arpFlood
    split
    · exact ih quiet.2
    · rename_i free
      dsimp only
      rw [if_neg (by decide)]
      split
      · exact ih quiet.2
      · rename_i clone cloned
        refine absurd ⟨Bool.eq_false_iff.mpr free, ?_⟩ quiet.1
        rw [cloned]
        rfl

/-- The first clone after the push is made of a frame that the call does not have. -/
theorem not_leaves_arpFlood (lost : addr ∉ held) (own : ∀ k, y.clone k ≠ some addr)
    (clones : Clones y k mask ports) {rest : Multiset FrameAddr} :
    ¬ Leaves held (e.arpFlood y addr frame k true mask ports).1 rest := by
  induction ports generalizing k with
  | nil =>
    obtain ⟨j, port, found, -⟩ := clones
    cases found
  | cons li ports ih =>
    rw [clones_cons] at clones
    unfold arpFlood
    split
    · rename_i served
      exact ih (clones.resolve_left fun both => by rw [served] at both; cases both.1)
    · dsimp only
      rw [if_neg (by decide)]
      split
      · rename_i none
        exact ih (clones.resolve_left fun both => by rw [none] at both; cases both.2)
      · rename_i clone cloned
        have apart : addr ≠ clone := fun same => own k (same ▸ cloned)
        have reads {es : List FrameEvent} :
            ¬ Leaves held (.take clone :: .use addr :: es) rest := by
          intro leaves
          by_cases taken : clone ∈ held
          · exact not_leaves_take taken leaves
          · rw [leaves_take taken] at leaves
            refine not_leaves_use (fun mem => ?_) leaves
            rcases Multiset.mem_cons.mp mem with same | mem
            · exact apart same
            · exact lost mem
        split
        · exact reads
        · exact reads

theorem floodRereads_cons_of_full {li : ℕ} (full : midRingCap ≤ e.pushCount (.lan li) addr) :
    e.FloodRereads y addr k (li :: ports) ↔ e.FloodRereads y addr (k + 1) ports := by
  constructor
  · rintro ⟨i, j, first, port, before, atI, atJ, filled, room, other, clone⟩
    cases i with
    | zero =>
      cases atI
      omega
    | succ i =>
      obtain ⟨j, rfl⟩ : ∃ j', j = j' + 1 := ⟨j - 1, by omega⟩
      refine ⟨i, j, first, port, by omega, atI, atJ, fun l below p atL => ?_, room, other, ?_⟩
      · exact filled (l + 1) (by omega) p atL
      · rwa [Nat.add_assoc, Nat.add_comm 1 j]
  · rintro ⟨i, j, first, port, before, atI, atJ, filled, room, other, clone⟩
    refine ⟨i + 1, j + 1, first, port, by omega, atI, atJ, fun l below p atL => ?_, room, other, ?_⟩
    · cases l with
      | zero =>
        cases atL
        exact full
      | succ l => exact filled l (by omega) p atL
    · rwa [Nat.add_assoc, Nat.add_comm 1 j] at clone

theorem floodRereads_cons_of_room {li : ℕ} (room : e.pushCount (.lan li) addr < midRingCap) :
    e.FloodRereads y addr k (li :: ports) ↔
      Clones y (k + 1) (if li < 16 then [li] else []) ports := by
  have served {port : ℕ} : (if li < 16 then [li] else []).contains port = false ↔
      port ≠ li ∨ 16 ≤ li := by
    split
    · rename_i low
      simp [low]
    · rename_i high
      simp [Nat.not_lt.mp high]
  constructor
  · rintro ⟨i, j, first, port, before, atI, atJ, filled, -, other, clone⟩
    cases i with
    | succ i => exact absurd (filled 0 (by omega) li rfl) (by omega)
    | zero =>
      cases atI
      obtain ⟨j, rfl⟩ : ∃ j', j = j' + 1 := ⟨j - 1, by omega⟩
      exact ⟨j, port, atJ, served.mpr other, by rwa [Nat.add_assoc, Nat.add_comm 1 j]⟩
  · rintro ⟨j, port, atJ, free, clone⟩
    refine ⟨0, j + 1, li, port, by omega, rfl, atJ, fun l below => absurd below (by omega), room,
      served.mp free, ?_⟩
    rwa [Nat.add_assoc, Nat.add_comm 1 j] at clone

/-- The flood gives the frame up once, or not at all. -/
theorem bridged_arpFlood (quiet : ¬ e.FloodRereads y addr k ports) :
    Bridged addr held (e.arpFlood y addr frame k false [] ports) := by
  have given (exit : Exit) : Leaves (addr ::ₘ held) ([.release addr exit] : List FrameEvent) held :=
    leaves_cons_release.mpr (.nil held)
  induction ports generalizing k with
  | nil => exact given .pool
  | cons li ports ih =>
    unfold arpFlood
    rw [if_neg (by simp)]
    dsimp only
    rw [if_pos (by decide)]
    split
    · rename_i room
      rw [floodRereads_cons_of_room room] at quiet
      have sent : (e.arpFlood y addr frame (k + 1) true (if li < 16 then [li] else []) ports).2 =
        true := arpFlood_of_sent
      have nothing : (e.arpFlood y addr frame (k + 1) true (if li < 16 then [li] else [])
        ports).1 = [] := arpFlood_quiet quiet
      generalize e.arpFlood y addr frame (k + 1) true _ ports = result at sent nothing
      obtain ⟨events, answer⟩ := result
      cases sent
      cases nothing
      exact given _
    · rename_i full
      exact ih ((floodRereads_cons_of_full (by omega)).not.mp quiet)

theorem not_bridged_arpFlood (lost : addr ∉ held) (own : ∀ k, y.clone k ≠ some addr)
    (rereads : e.FloodRereads y addr k ports) :
    ¬ Bridged addr held (e.arpFlood y addr frame k false [] ports) := by
  induction ports generalizing k with
  | nil =>
    obtain ⟨i, j, li, port, -, found, -⟩ := rereads
    cases found
  | cons li ports ih =>
    unfold arpFlood
    rw [if_neg (by simp)]
    dsimp only
    rw [if_pos (by decide)]
    split
    · rename_i room
      rw [floodRereads_cons_of_room room] at rereads
      have sent : (e.arpFlood y addr frame (k + 1) true (if li < 16 then [li] else []) ports).2 =
        true := arpFlood_of_sent
      have reads : ¬ Leaves held (e.arpFlood y addr frame (k + 1) true
        (if li < 16 then [li] else []) ports).1 held := not_leaves_arpFlood lost own rereads
      generalize e.arpFlood y addr frame (k + 1) true _ ports = result at sent reads
      obtain ⟨events, answer⟩ := result
      cases sent
      exact fun bridged => reads (leaves_cons_release.mp bridged)
    · rename_i full
      exact ih ((floodRereads_cons_of_full (by omega)).mp rereads)

end Flood

/-! ## Calls -/

/-- The frames that `dataplane_process_wan` reads after the push, gives up twice, or never gives up
because the call does not return. -/
inductive MishandlesWan (e : Edge n) (y : WanDraws) (st : WanState) (job : Job) : Prop
  | flooded {d : ℕ} {frame : Bytes} (long : 14 ≤ job.frame.length)
      (isArp : (cryptoEthL2HasArpMarker job.frame || dpPktIsArp job.frame) = true)
      (wan : e.ingressWan job = some d) (opened : e.arpTryDecryptL2Pqc job.frame = some frame)
      (profile : e.profilePiForWanDp d = true) (broadcast : arpEthDmacIsBroadcast frame = true)
      (rereads : e.FloodRereads y job.addr 0 e.floodLocals)
  | refused {d li : ℕ} {frame : Bytes} (long : 14 ≤ job.frame.length)
      (isArp : (cryptoEthL2HasArpMarker job.frame || dpPktIsArp job.frame) = true)
      (wan : e.ingressWan job = some d) (opened : e.arpTryDecryptL2Pqc job.frame = some frame)
      (profile : e.profilePiForWanDp d = true) (unicast : arpEthDmacIsBroadcast frame = false)
      (port : (e.mac.lookup (dmacOf frame)).filter e.profileOwnsLocal = some li)
      (full : frame.length > neFrame ∨ midRingCap ≤ e.pushCount (.lan li) job.addr)
  | stuck {rx : WanRx n} {ft : OptTable} {packet : Bytes} {ids : Option (BitVec 32 × BitVec 32)}
      (long : 14 ≤ job.frame.length)
      (data : (cryptoEthL2HasArpMarker job.frame || dpPktIsArp job.frame) = false)
      (encrypted : e.wireIsEncrypted job.frame = true) (enabled : e.cfg.cryptoEnabled = true)
      (worker : e.rx = some rx)
      (made : rx.decryptWan e.aead st.ft y.optNowNs job.frame = (ft, .plain packet ids))
      (profile : e.wanProfilePi (wireBuf job.frame) = true)
      (policy : e.wanPolicyIn packet = true)
      (submits : e.SubmitStuck y { st with ft := ft }
        ⟨job.addr, e.wanClampTcpMss packet, e.ingressWan job⟩ ids)

/-- What `arp_bridge_from_wan` mishandles. -/
def BridgeSlips (e : Edge n) (y : WanDraws) (job : Job) (d : ℕ) : Prop :=
  ∃ frame, e.arpTryDecryptL2Pqc job.frame = some frame ∧ e.profilePiForWanDp d = true ∧
    (arpEthDmacIsBroadcast frame = true ∧ e.FloodRereads y job.addr 0 e.floodLocals ∨
      arpEthDmacIsBroadcast frame = false ∧
        ∃ li, (e.mac.lookup (dmacOf frame)).filter e.profileOwnsLocal = some li ∧
          (frame.length > neFrame ∨ midRingCap ≤ e.pushCount (.lan li) job.addr))

theorem bridged_use {addr : FrameAddr} {r : List FrameEvent × Bool} :
    Bridged addr held (.use addr :: r.1, r.2) ↔ Bridged addr held r := by
  obtain ⟨events, answer⟩ := r
  cases answer with
  | true => exact leaves_cons_use
  | false => exact leaves_cons_use

theorem bridged_arpBridgeFromWan {d : ℕ} (fine : ¬ e.BridgeSlips y job d) :
    Bridged job.addr held (e.arpBridgeFromWan y job d) := by
  have kept : Bridged job.addr held ([.use job.addr], false) := leaves_given held job.addr .pool
  unfold arpBridgeFromWan
  split
  · exact kept
  rename_i frame opened
  split
  · exact kept
  rename_i profile
  have profile : e.profilePiForWanDp d = true := by simpa using profile
  split
  · rename_i broadcast
    exact bridged_use.mpr (bridged_arpFlood fun rereads =>
      fine ⟨frame, opened, profile, .inl ⟨broadcast, rereads⟩⟩)
  · rename_i unicast
    split
    · exact kept
    · rename_i li port
      have room : ¬ (frame.length > neFrame ∨ midRingCap ≤ e.pushCount (.lan li) job.addr) :=
        fun full => fine ⟨frame, opened, profile,
          .inr ⟨Bool.eq_false_iff.mpr unicast, li, port, full⟩⟩
      dsimp only
      rw [dpRingPush, if_neg room]
      exact leaves_given held job.addr _

theorem not_bridged_arpBridgeFromWan {d : ℕ} (lost : job.addr ∉ held)
    (own : ∀ k, y.clone k ≠ some job.addr) (slips : e.BridgeSlips y job d) :
    ¬ Bridged job.addr held (e.arpBridgeFromWan y job d) := by
  obtain ⟨frame, opened, profile, way⟩ := slips
  unfold arpBridgeFromWan
  rw [opened]
  dsimp only
  rw [if_neg (by rw [profile]; decide)]
  rcases way with ⟨broadcast, rereads⟩ | ⟨unicast, li, port, full⟩
  · rw [if_pos broadcast]
    exact bridged_use.not.mpr (not_bridged_arpFlood lost own rereads)
  · rw [if_neg (by rw [unicast]; decide), port]
    dsimp only
    rw [dpRingPush, if_pos full]
    exact fun twice => not_leaves_release lost (leaves_cons_release.mp (leaves_cons_use.mp twice))

theorem conserves_iff_bridged {d : ℕ} (long : 14 ≤ job.frame.length)
    (isArp : (cryptoEthL2HasArpMarker job.frame || dpPktIsArp job.frame) = true)
    (wan : e.ingressWan job = some d) :
    Conserves st job.addr (e.dataplaneProcessWan y st job) ↔
      Bridged job.addr st.heldAddrs (e.arpBridgeFromWan y job d) := by
  unfold dataplaneProcessWan
  dsimp only
  rw [if_neg (by omega), if_pos isArp, wan, Option.map_some]
  generalize e.arpBridgeFromWan y job d = result
  obtain ⟨events, answer⟩ := result
  cases answer with
  | true | false =>
    exact ⟨fun conserves => leaves_cons_use.mp conserves.2,
      fun bridged => ⟨rfl, leaves_cons_use.mpr bridged⟩⟩

/-- The packets of `processEncrypted` whose submit does not return. -/
def SubmitSlips (e : Edge n) (y : WanDraws) (st : WanState) (job : Job) : Prop :=
  ∃ rx ft packet ids, e.rx = some rx ∧
    rx.decryptWan e.aead st.ft y.optNowNs job.frame = (ft, .plain packet ids) ∧
    e.wanProfilePi (wireBuf job.frame) = true ∧ e.wanPolicyIn packet = true ∧
    e.SubmitStuck y { st with ft := ft } ⟨job.addr, e.wanClampTcpMss packet, e.ingressWan job⟩ ids

theorem conserves_processEncrypted_iff (ordered : WanOrdered st) :
    Conserves st job.addr (e.processEncrypted y st job) ↔ ¬ e.SubmitSlips y st job := by
  have given := leaves_given st.heldAddrs job.addr .pool
  unfold processEncrypted
  split
  · rename_i none
    refine iff_of_true ⟨rfl, leaves_cons_release.mpr (.nil _)⟩ ?_
    rintro ⟨rx, ft, packet, ids, worker, -⟩
    rw [none] at worker
    cases worker
  rename_i rx worker
  have other {result : OptTable × WanResult}
      (made : rx.decryptWan e.aead st.ft y.optNowNs job.frame = result)
      (fails : ∀ packet ids, result.2 ≠ .plain packet ids) : ¬ e.SubmitSlips y st job := by
    rintro ⟨rx', ft, packet, ids, worker', made', -⟩
    obtain rfl := Option.some.inj (worker.symm.trans worker')
    exact fails packet ids (congrArg Prod.snd (made.symm.trans made'))
  split
  · rename_i dropped
    exact iff_of_true ⟨rfl, given⟩ (other dropped fun _ _ same => nomatch same)
  · rename_i kept
    exact iff_of_true ⟨rfl, given⟩ (other kept fun _ _ same => nomatch same)
  · rename_i ft packet ids made
    dsimp only
    have slips : e.SubmitSlips y st job ↔
        (e.wanProfilePi (wireBuf job.frame) = true ∧ e.wanPolicyIn packet = true) ∧
          e.SubmitStuck y { st with ft := ft }
            ⟨job.addr, e.wanClampTcpMss packet, e.ingressWan job⟩ ids := by
      constructor
      · rintro ⟨rx', ft', packet', ids', worker', made', profile, policy, stuck⟩
        obtain rfl := Option.some.inj (worker.symm.trans worker')
        cases made.symm.trans made'
        exact ⟨⟨profile, policy⟩, stuck⟩
      · rintro ⟨⟨profile, policy⟩, stuck⟩
        exact ⟨rx, ft, packet, ids, worker, made, profile, policy, stuck⟩
    split
    · rename_i refused
      refine iff_of_true ⟨rfl, given⟩ fun bad => ?_
      obtain ⟨⟨profile, policy⟩, -⟩ := slips.mp bad
      rw [profile, policy] at refused
      cases refused
    · rename_i gates
      rw [Bool.or_eq_true, not_or, Bool.not_eq_true, Bool.not_eq_true, Bool.not_eq_false',
        Bool.not_eq_false'] at gates
      rw [slips, and_iff_right gates]
      have ordered' : WanOrdered { st with ft := ft } := ⟨ordered.counted, ordered.placed⟩
      rw [← conserves_deliver_iff ordered']
      exact ⟨fun conserves => ⟨conserves.1, leaves_cons_use.mp conserves.2⟩,
        fun conserves => ⟨conserves.1, leaves_cons_use.mpr conserves.2⟩⟩

theorem conserves_data_iff (ordered : WanOrdered st) (long : 14 ≤ job.frame.length)
    (data : (cryptoEthL2HasArpMarker job.frame || dpPktIsArp job.frame) = false) :
    Conserves st job.addr (e.dataplaneProcessWan y st job) ↔
      ¬ (e.wireIsEncrypted job.frame = true ∧ e.cfg.cryptoEnabled = true ∧
        e.SubmitSlips y st job) := by
  have given := leaves_given st.heldAddrs job.addr .pool
  unfold dataplaneProcessWan
  dsimp only
  rw [if_neg (by omega), if_neg (by rw [data]; decide)]
  split
  · rename_i encrypted
    split
    · rename_i disabled
      refine iff_of_true ⟨rfl, given⟩ fun slips => ?_
      rw [slips.2.1] at disabled
      cases disabled
    · rename_i enabled
      rw [conserves_processEncrypted_iff ordered, and_iff_right encrypted,
        and_iff_right (by simpa using enabled)]
  · rename_i clear
    have fine : ¬ (e.wireIsEncrypted job.frame = true ∧ e.cfg.cryptoEnabled = true ∧
        e.SubmitSlips y st job) := fun slips => clear slips.1
    split
    · exact iff_of_true ⟨rfl, given⟩ fine
    · refine iff_of_true ((conserves_deliver_iff ordered).mpr ?_) fine
      rintro ⟨-, epoch, seq, t, numbered, -⟩
      cases numbered

/-- Where nothing is mishandled, each frame leaves once and the slots keep theirs. -/
theorem conserves_of_not_mishandles (ordered : WanOrdered st) (fine : ¬ e.MishandlesWan y st job) :
    Conserves st job.addr (e.dataplaneProcessWan y st job) := by
  by_cases long : 14 ≤ job.frame.length
  swap
  · unfold dataplaneProcessWan
    dsimp only
    rw [if_pos (by omega)]
    exact ⟨rfl, leaves_cons_release.mpr (.nil _)⟩
  by_cases isArp : (cryptoEthL2HasArpMarker job.frame || dpPktIsArp job.frame) = true
  · cases wan : e.ingressWan job with
    | none =>
      unfold dataplaneProcessWan
      dsimp only
      rw [if_neg (by omega), if_pos isArp, wan]
      exact ⟨rfl, leaves_given st.heldAddrs job.addr .pool⟩
    | some d =>
      refine (conserves_iff_bridged long isArp wan).mpr (bridged_arpBridgeFromWan ?_)
      rintro ⟨frame, opened, profile, ⟨broadcast, rereads⟩ | ⟨unicast, li, port, full⟩⟩
      · exact fine (.flooded long isArp wan opened profile broadcast rereads)
      · exact fine (.refused long isArp wan opened profile unicast port full)
  · have data := Bool.eq_false_iff.mpr isArp
    refine (conserves_data_iff ordered long data).mpr ?_
    rintro ⟨encrypted, enabled, rx, ft, packet, ids, worker, made, profile, policy, submits⟩
    exact fine (.stuck long data encrypted enabled worker made profile policy submits)

theorem not_conserves_of_mishandles (ordered : WanOrdered st) (lost : job.addr ∉ st.heldAddrs)
    (own : ∀ k, y.clone k ≠ some job.addr) (bad : e.MishandlesWan y st job) :
    ¬ Conserves st job.addr (e.dataplaneProcessWan y st job) := by
  cases bad with
  | flooded long isArp wan opened profile broadcast rereads =>
    exact (conserves_iff_bridged long isArp wan).not.mpr (not_bridged_arpBridgeFromWan lost own
      ⟨_, opened, profile, .inl ⟨broadcast, rereads⟩⟩)
  | refused long isArp wan opened profile unicast port full =>
    exact (conserves_iff_bridged long isArp wan).not.mpr (not_bridged_arpBridgeFromWan lost own
      ⟨_, opened, profile, .inr ⟨unicast, _, port, full⟩⟩)
  | stuck long data encrypted enabled worker made profile policy submits =>
    rw [conserves_data_iff ordered long data, not_not]
    exact ⟨encrypted, enabled, _, _, _, _, worker, made, profile, policy, submits⟩

/-! ## Calls keep the reordering in order -/

theorem WanOrdered.submit {key : Reorder.Key} {epoch seq : BitVec 32} {item : WanItem}
    (ordered : WanOrdered st) : WanOrdered (e.udpReorderSubmit y st key epoch seq item).1 := by
  unfold udpReorderSubmit
  dsimp only
  split
  · exact ⟨(ordered.counted.accounts_submit _ _ _ _ _ _ _).counted,
      ordered.placed.submit _ _ _ _ _ _ _⟩
  · exact ordered

theorem WanOrdered.deliver {item : WanItem} {ids : Option (BitVec 32 × BitVec 32)}
    (ordered : WanOrdered st) : WanOrdered (e.deliver y st item ids).1 := by
  unfold Edge.deliver
  split
  · split
    · exact ordered
    · exact ordered.submit
  · split
    · exact ordered
    · exact ordered

theorem WanOrdered.process (ordered : WanOrdered st) (e : Edge n) (y : WanDraws) (job : Job) :
    WanOrdered (e.dataplaneProcessWan y st job).1 := by
  have table (ft : OptTable) : WanOrdered { st with ft := ft } := ⟨ordered.counted, ordered.placed⟩
  unfold dataplaneProcessWan
  dsimp only
  split
  · exact ordered
  split
  · split
    · exact ordered
    · exact ordered
    · exact ordered
  split
  · split
    · exact ordered
    unfold processEncrypted
    split
    · exact ordered
    split
    · exact table _
    · exact table _
    · dsimp only
      split
      · exact table _
      · exact (table _).deliver
  · split
    · exact ordered
    · exact ordered.deliver

/-- A call gives up each frame that it has, and each that it takes, exactly once and leaves it alone
afterwards, unless it is one of those that the conditions name: from a LAN an ARP frame that is
ignored or finds its ring full, from a WAN an ARP frame that is flooded to a second port or finds its
ring full, or a packet whose submit does not return. -/
theorem frames_conserved_iff (e : Edge n) :
    (∀ (x : LocalDraws) (job : Job), (∀ tail ∈ x.tail, tail.1 ≠ job.addr) →
      (Disposes [job.addr] (e.dataplaneProcessLocal x job) ↔ ¬ e.MishandlesLocal job)) ∧
      ∀ (y : WanDraws) (st : WanState) (job : Job), WanOrdered st →
        WanOrdered (e.dataplaneProcessWan y st job).1 ∧
          (¬ e.MishandlesWan y st job →
            Conserves st job.addr (e.dataplaneProcessWan y st job)) ∧
          (job.addr ∉ st.heldAddrs → (∀ k, y.clone k ≠ some job.addr) → e.MishandlesWan y st job →
            ¬ Conserves st job.addr (e.dataplaneProcessWan y st job)) :=
  ⟨fun _ _ fresh => disposes_local_iff fresh, fun y _ job ordered =>
    ⟨ordered.process e y job, conserves_of_not_mishandles ordered,
      not_conserves_of_mishandles ordered⟩⟩

end Edge

/-! ## ARP frames -/

/-- A request of 10.0.0.5 for 192.0.2.1. -/
def arpRequestJob : Job :=
  paddedJob ([255, 255, 255, 255, 255, 255, 2, 0, 0, 0, 0, 2, 0x08, 0x06, 0, 1, 8, 0, 6, 4, 0, 1,
    2, 0, 0, 0, 0, 2, 10, 0, 0, 5, 0, 0, 0, 0, 0, 0, 192, 0, 2, 1]) 42 (by decide)

/-- The sender was seen behind a WAN. -/
def relayEdge : Edge 1 :=
  { bypassEdge with mac := ⟨fun _ _ => true, fun _ => false, fun _ => none⟩ }

def fullRingEdge : Edge 1 := { bypassEdge with pushCount := fun _ _ => midRingCap }

/-- Two LANs. -/
def twoLanEdge : Edge 1 :=
  { bypassEdge with
    profile := ⟨true, [0, 1], [0], [(0, 0)]⟩
    locals := ["lan0", "lan1"]
    cfgLocals := ["lan0", "lan1"] }

def cloneDraws : WanDraws := ⟨fun _ => some 8192, 0, 0⟩

theorem ordered_fresh : Edge.WanOrdered freshWanState :=
  ⟨Reorder.Worker.counted_initial, fun _ _ _ valid => nomatch valid⟩

theorem heldAddrs_fresh : freshWanState.heldAddrs = 0 := by
  have empty : freshWanState.reorder.heldItems = 0 :=
    Finset.sum_eq_zero fun _ _ => Reorder.windowItems_empty
  rw [WanState.heldAddrs, empty, Multiset.map_zero]

theorem mishandles_two_lans :
    twoLanEdge.MishandlesWan cloneDraws freshWanState arpRequestJob := by
  have opened : twoLanEdge.arpTryDecryptL2Pqc arpRequestJob.frame = some arpRequestJob.frame := by
    decide +kernel
  refine .flooded (by decide +kernel) (by decide +kernel)
    (show twoLanEdge.ingressWan arpRequestJob = some 0 by decide +kernel) opened
    (by decide +kernel) (by decide +kernel) ?_
  have ports : twoLanEdge.floodLocals = [0, 1] := by decide +kernel
  rw [ports]
  exact ⟨0, 1, 0, 1, by decide, rfl, rfl, fun l below => absurd below (Nat.not_lt_zero l),
    by decide +kernel, .inl (by decide), rfl⟩

theorem frames_conserved_sample :
    Disposes [4096] (bypassEdge.dataplaneProcessLocal bypassDraws greJob) ∧
      Edge.Conserves freshWanState 4096
        (bypassEdge.dataplaneProcessWan mssWanDraws freshWanState greJob) ∧
      ¬ Edge.Conserves freshWanState 4096
        (twoLanEdge.dataplaneProcessWan cloneDraws freshWanState arpRequestJob) := by
  have noArp : (cryptoEthL2HasArpMarker greJob.frame || dpPktIsArp greJob.frame) = false := by
    decide +kernel
  have clear : bypassEdge.wireIsEncrypted greJob.frame = false := by decide +kernel
  refine ⟨((Edge.frames_conserved_iff bypassEdge).1 bypassDraws greJob (by decide)).mpr ?_,
    ((Edge.frames_conserved_iff bypassEdge).2 mssWanDraws freshWanState greJob
      ordered_fresh).2.1 ?_,
    ((Edge.frames_conserved_iff twoLanEdge).2 cloneDraws freshWanState arpRequestJob
      ordered_fresh).2.2 ?_ ?_ mishandles_two_lans⟩
  · rintro ⟨isArp, -⟩
    exact absurd isArp (by decide +kernel)
  · intro bad
    cases bad with
    | flooded _ isArp | refused _ isArp =>
      rw [noArp] at isArp
      cases isArp
    | stuck _ _ encrypted =>
      rw [clear] at encrypted
      cases encrypted
  · rw [heldAddrs_fresh]
    exact Multiset.notMem_zero _
  · intro k
    exact fun same => absurd (Option.some.inj same) (by decide)

/-- A frame that is ignored is never freed, one that finds its ring full is freed twice, and one that
was pushed to the first LAN is copied again for the second. -/
theorem arp_frames_mishandled :
    ¬ Disposes [4096] (relayEdge.dataplaneProcessLocal bypassDraws arpRequestJob) ∧
      ¬ Disposes [4096] (fullRingEdge.dataplaneProcessLocal bypassDraws arpRequestJob) ∧
      ¬ Edge.Conserves freshWanState 4096
        (twoLanEdge.dataplaneProcessWan cloneDraws freshWanState arpRequestJob) := by
  refine ⟨by decide +kernel, by decide +kernel, Edge.not_conserves_of_mishandles ordered_fresh ?_ ?_
    mishandles_two_lans⟩
  · rw [heldAddrs_fresh]
    exact Multiset.notMem_zero _
  · intro k
    exact fun same => absurd (Option.some.inj same) (by decide)

end NeEncryptor
