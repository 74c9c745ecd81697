import NeEncryptor.Dataplane.ReorderStuck
import NeEncryptor.Dataplane.WanDelivery

/-!
# Who has a frame

A call of `dataplane_process_local` or of `dataplane_process_wan` owns the frame of its packet, the
slots of the reordering own the frames that they hold, and a tail or a clone comes from the pool.
Each frame should leave once, and stay untouched afterwards.
-/

namespace NeEncryptor

open Buffer Custody

/-! ## Callbacks in pairs -/

namespace Reorder

variable {α : Type*} {emit : α → Bool} {events more : List (Event α)}

/-- Callbacks as `item_emit` and the drops make them: a packet that was not sent is dropped next. -/
inductive Paired (emit : α → Bool) : List (Event α) → Prop
  | nil : Paired emit []
  | item (seq : SerialNumber.Seq) (item : α) {events : List (Event α)} (rest : Paired emit events) :
      Paired emit (itemEmit emit seq item ++ events)
  | drop (item : α) {events : List (Event α)} (rest : Paired emit events) :
      Paired emit (.drop item :: events)
  | gap (next : SerialNumber.Seq) {events : List (Event α)} (rest : Paired emit events) :
      Paired emit (.gap next :: events)
  | reset (next : SerialNumber.Seq) {events : List (Event α)} (rest : Paired emit events) :
      Paired emit (.reset next :: events)

theorem Paired.append (first : Paired emit events) (second : Paired emit more) :
    Paired emit (events ++ more) := by
  induction first with
  | nil => exact second
  | item seq item _ ih =>
    rw [List.append_assoc]
    exact .item seq item ih
  | drop item _ ih => exact .drop item ih
  | gap next _ ih => exact .gap next ih
  | reset next _ ih => exact .reset next ih

theorem paired_itemEmit (emit : α → Bool) (seq : SerialNumber.Seq) (item : α) :
    Paired emit (itemEmit emit seq item) := by
  rw [← List.append_nil (itemEmit emit seq item)]
  exact .item seq item .nil

namespace Entry

variable {e e' : Entry α} {now : BitVec 64} {seq : SerialNumber.Seq} {item : α} {returned : Bool}

theorem Moves.paired (moves : Moves emit e events e') : Paired emit events := by
  induction moves with
  | refl => exact .nil
  | setGap _ _ ih => exact ih
  | release _ _ _ ih => exact .item _ _ ih
  | skip _ _ _ _ ih => exact .gap _ ih
  | jump _ _ _ ih => exact .gap _ ih

theorem paired_hold (emit : α → Bool) (now : BitVec 64) (seq : SerialNumber.Seq) (item : α)
    (e : Entry α) : Paired emit (e.hold now seq item).2 := by
  unfold hold
  split
  · split
    · exact .drop _ .nil
    · exact .drop _ .nil
  · exact .nil

theorem Submits.paired (submits : Submits emit now seq item e (e', events, returned)) :
    Paired emit events := by
  cases submits with
  | stuck moves => exact moves.paired
  | returns arrives =>
    cases arrives with
    | refused moves => exact moves.paired.append (.drop item .nil)
    | passed moves _ flushed =>
      exact moves.paired.append ((paired_itemEmit emit seq item).append flushed.paired)
    | held moves => exact moves.paired.append (paired_hold emit now seq item _)

end Entry

namespace Worker

variable {w w' : Worker α} {idx : Fin 512} {key : Key} {epoch : BitVec 32}
  {seq : SerialNumber.Seq} {now : BitVec 64}

theorem paired_slotDrops (emit : α → Bool) (slots : Fin 256 → Option (Slot α)) :
    Paired emit (slotDrops slots) := by
  unfold slotDrops
  induction List.finRange 256 with
  | nil => exact .nil
  | cons i places ih =>
    cases valid : slots i with
    | none => simpa [valid] using ih
    | some slot => simpa [valid] using Paired.drop slot.item ih

theorem paired_flowReset (emit : α → Bool) (idx : Fin 512) (key : Key) (epoch : BitVec 32)
    (seq : SerialNumber.Seq) (now : BitVec 64) (w : Worker α) :
    Paired emit (w.flowReset idx key epoch seq now).2 := by
  have drops : Paired emit (w.dropValid idx).2 := by
    unfold dropValid
    split
    · exact paired_slotDrops emit (w.slots idx)
    · exact .nil
  exact drops.append (.reset _ .nil)

theorem Looks.paired (emit : α → Bool)
    (looks : w.Looks key epoch seq now (idx, w', events)) : Paired emit events := by
  cases looks with
  | found => exact .nil
  | outdated => exact paired_flowReset emit idx key epoch seq now w
  | missed => exact paired_flowReset emit idx key epoch seq now w

theorem paired_submit (emit : α → Bool) (holdNs : BitVec 64) (key : Key) (epoch : BitVec 32)
    (seq : SerialNumber.Seq) (item : α) (now : BitVec 64) (w : Worker α) :
    Paired emit (callbacks (w.dpUdpReorderSubmit emit holdNs key epoch seq item now).2.1) := by
  have looks := looks_flowLookup w key epoch seq now
  unfold dpUdpReorderSubmit
  generalize w.flowLookup key epoch seq now = looked at looks
  obtain ⟨idx, w₁, events⟩ := looked
  obtain ⟨flow, valid⟩ := looks.valid
  have submits := Entry.submits_submit emit holdNs now seq item (w₁.entry idx flow)
  simp only [valid]
  generalize (w₁.entry idx flow).submit emit holdNs now seq item = result at submits
  obtain ⟨e, more, returned⟩ := result
  simpa only [callbacks_tagged] using (looks.paired emit).append submits.paired

end Worker

end Reorder

/-- The frames in the slots of the reordering. -/
def WanState.heldAddrs (st : WanState) : Multiset FrameAddr :=
  st.reorder.heldItems.map WanItem.addr

namespace Edge

variable {n : ℕ} {e : Edge n} {x : LocalDraws} {y : WanDraws} {st : WanState} {job : Job}
  {held : Multiset FrameAddr} {a : FrameAddr}

/-! ## From a LAN -/

theorem disposes_dropped (a : FrameAddr) :
    Disposes [a] ([.use a, .release a .pool] : List FrameEvent) := by
  simp [Disposes, run, step]

/-- A push gives the frame up, to the ring or to the pool. -/
theorem dpRingPush_gives (e : Edge n) (ring : MidRing) (addr : FrameAddr) (frame : Bytes) :
    ∃ exit, (e.dpRingPush ring addr frame).1 = [.release addr exit] := by
  rcases e.dpRingPush_cases ring addr frame with full | ⟨-, -, done⟩
  · exact ⟨_, congrArg Prod.fst full⟩
  · exact ⟨_, congrArg Prod.fst done⟩

theorem disposes_pushed (ring : MidRing) (addr : FrameAddr) (frame : Bytes) :
    Disposes [addr] (.use addr :: (e.dpRingPush ring addr frame).1) := by
  obtain ⟨exit, gives⟩ := e.dpRingPush_gives ring addr frame
  rw [gives]
  simp [Disposes, run, step]

theorem pushSplitToWan_cases (e : Edge n) (job tail : FrameAddr) (frame0 frame1 : Bytes) (d : ℕ) :
    e.pushSplitToWan job tail frame0 frame1 d = ([.release tail .pool], false) ∨
      e.pushSplitToWan job tail frame0 frame1 d =
        ([.release job (.ring (.wan d) frame0), .release tail (.ring (.wan d) frame1)], true) := by
  unfold pushSplitToWan
  split
  · exact .inl rfl
  split
  · exact .inl rfl
  split
  · exact .inl rfl
  · exact .inr rfl

/-- After `encrypt_to_wan` the call has the frame and nothing else, unless both parts were pushed. -/
def HandsBack (addr : FrameAddr) : List FrameEvent × EncryptResult → Prop
  | (events, .pushed) => Disposes [addr] events
  | (events, .failed) => run [addr] events = some [addr]
  | (events, .frame _) => run [addr] events = some [addr]

theorem handsBack_encryptToWan {buffer : Bytes} {d : ℕ} {ctx : PacketCryptoCtx}
    {pclass : ProtoClass} (fresh : ∀ tail ∈ x.tail, tail.1 ≠ job.addr) :
    HandsBack job.addr (e.encryptToWan x job buffer d ctx pclass) := by
  have used : run [job.addr] ([.use job.addr] : List FrameEvent) = some [job.addr] :=
    run_use (List.mem_singleton_self _)
  unfold encryptToWan
  split
  · exact used
  split
  · split
    · exact used
    · rename_i tail tailBuf taken
      have apart : tail ≠ job.addr := by
        refine fresh (tail, tailBuf) (Option.mem_def.mpr ?_)
        split at taken
        · cases taken
        · exact taken
      split
      · show run _ _ = _
        simp [run, step, apart, apart.symm]
      · rename_i frame0 frame1 _
        dsimp only
        rcases e.pushSplitToWan_cases job.addr tail frame0 frame1 d with full | both
        · rw [full]
          show run _ _ = _
          simp [run, step, apart, apart.symm]
        · rw [both]
          show run _ _ = _
          simp [run, step, apart, apart.symm]
  · split
    · exact used
    · exact used

theorem disposes_encryptFromLocal {pi d : ℕ} {proto : BitVec 8}
    (fresh : ∀ tail ∈ x.tail, tail.1 ≠ job.addr) :
    Disposes [job.addr] (.use job.addr :: e.encryptFromLocal x job pi d proto) := by
  have first {es : List FrameEvent} (rest : Disposes [job.addr] es) :
      Disposes [job.addr] (.use job.addr :: es) := by
    rw [Disposes, run_use (List.mem_singleton_self _)]
    exact rest
  refine first ?_
  unfold encryptFromLocal
  split
  · simp [Disposes, run, step]
  split
  · exact disposes_dropped job.addr
  · rename_i ctx _
    have hands : HandsBack job.addr (e.encryptToWan x job (egressBuffer job proto) d ctx
      (cryptoProtoClassify proto)) := handsBack_encryptToWan fresh
    split
    · rename_i events tried
      rw [tried] at hands
      have after : Disposes [job.addr] ([.release job.addr .pool] : List FrameEvent) := by
        simp [Disposes, run, step]
      exact first (after.after hands)
    · rename_i events frame tried
      rw [tried] at hands
      obtain ⟨exit, gives⟩ := e.dpRingPush_gives (.wan d) job.addr frame
      have after : Disposes [job.addr] (e.dpRingPush (.wan d) job.addr frame).1 := by
        rw [gives]
        simp [Disposes, run, step]
      exact first (after.after hands)
    · rename_i events tried
      rw [tried] at hands
      exact first hands

/-! ### ARP -/

/-- The frames of ARP that `dataplane_process_local` forgets, or gives up twice. -/
def MishandlesLocal (e : Edge n) (job : Job) : Prop :=
  dpPktIsArp job.frame = true ∧
    (e.arpFromLocalIgnored (e.ingressLocal job) job.frame = true ∨
      ∃ d, e.arpEgressWan (e.ingressLocal job) = some d ∧ (dpParseArpIps job.frame).isSome = true ∧
        midRingCap ≤ e.pushCount (.wan d) job.addr)

/-- An ARP frame fits into its buffer, encrypted or not. -/
theorem length_arpTryEncryptL2Pqc (e : Edge n) (x : LocalDraws) (job : Job) :
    (e.arpTryEncryptL2Pqc x job.buffer job.len).length ≤ neFrame := by
  have frameSize : neFrame = 2048 := rfl
  have plain : (job.buffer.take job.len).length ≤ neFrame := (length_frame job).le.trans job.fits
  unfold arpTryEncryptL2Pqc
  dsimp only
  generalize encrypted : e.arpCtx.bind _ = result
  cases result with
  | none => exact plain
  | some frame =>
    obtain ⟨ctx, -, made⟩ := Option.bind_eq_some_iff.mp encrypted
    unfold l2ArpEncrypt at made
    split at made
    · cases made
    split at made
    · cases made
      exact plain
    · obtain ⟨etOff, nonce, cipher, -, place, -, -, text, rfl⟩ :=
        l2DoEncryptArp_some (job.size.symm ▸ job.fits) made
      have payload : (slice job.buffer (etOff + 2) arpEthIpv4Payload).length ≤ 28 :=
        List.length_take_le _ _
      have size := e.aead.length_encrypt text
      have header : (job.buffer.take etOff).length ≤ etOff := List.length_take_le _ _
      rw [Option.getD_some, length_headedFrame nonce.length_toList]
      rcases place with rfl | ⟨rfl, -⟩
      · omega
      · omega

theorem dpRingPush_of_small {ring : MidRing} {addr : FrameAddr} {frame : Bytes}
    (small : frame.length ≤ neFrame) :
    e.dpRingPush ring addr frame =
      if midRingCap ≤ e.pushCount ring addr then ([.release addr .pool], false)
      else ([.release addr (.ring ring frame)], true) := by
  unfold dpRingPush
  by_cases full : midRingCap ≤ e.pushCount ring addr
  · rw [if_pos (.inr full), if_pos full]
  · rw [if_neg (by omega), if_neg full]

theorem disposes_local_iff (fresh : ∀ tail ∈ x.tail, tail.1 ≠ job.addr) :
    Disposes [job.addr] (e.dataplaneProcessLocal x job) ↔ ¬ e.MishandlesLocal job := by
  unfold dataplaneProcessLocal MishandlesLocal
  by_cases isArp : dpPktIsArp job.frame = true
  · dsimp only
    rw [if_pos isArp, and_iff_right isArp]
    unfold arpBridgeFromLocal
    by_cases ignored : e.arpFromLocalIgnored (e.ingressLocal job) job.frame = true
    · rw [if_pos ignored]
      simp [Disposes, run, step, ignored]
    rw [if_neg ignored]
    cases wan : e.arpEgressWan (e.ingressLocal job) with
    | none => simp [Disposes, run, step, ignored]
    | some d =>
      cases ips : dpParseArpIps job.frame with
      | none => simp [Disposes, run, step, ignored]
      | some ips =>
        have push : e.dpRingPush (.wan d) job.addr (e.arpTryEncryptL2Pqc x job.buffer job.len) = _ :=
          dpRingPush_of_small (e.length_arpTryEncryptL2Pqc x job)
        by_cases full : midRingCap ≤ e.pushCount (.wan d) job.addr
        · rw [if_pos full] at push
          simp [Disposes, run, step, push, full]
        · rw [if_neg full] at push
          simp [Disposes, run, step, push, full, ignored]
  · refine iff_of_true ?_ fun slip => isArp slip.1
    dsimp only
    rw [if_neg isArp]
    split
    · rename_i pi cp t _ _
      split
      · exact disposes_dropped job.addr
      · split
        · exact disposes_pushed _ _ _
        · exact disposes_encryptFromLocal fresh
    · exact disposes_dropped job.addr

/-! ## From a WAN -/

/-- A frame that is read and then given up. -/
theorem leaves_given (held : Multiset FrameAddr) (a : FrameAddr) (exit : Exit) :
    Leaves (a ::ₘ held) ([.use a, .release a exit] : List FrameEvent) held :=
  leaves_cons_use.mpr (leaves_cons_release.mpr (.nil held))

theorem leaves_forwarded (held : Multiset FrameAddr) {item : WanItem} {events : List FrameEvent}
    (forwarded : e.forwardWanToLocal item = some events) :
    Leaves (item.addr ::ₘ held) events held := by
  obtain ⟨-, -, li, rfl⟩ := forwardWanToLocal_some forwarded
  obtain ⟨exit, gives⟩ := e.dpRingPush_gives (.lan li) item.addr item.frame
  rw [gives]
  exact leaves_given held item.addr exit

/-- The callbacks give up the frames of the packets that leave the buffer. -/
theorem leaves_reorderTrace (e : Edge n) (held : Multiset FrameAddr)
    {events : List (Reorder.Event WanItem)}
    (paired : Reorder.Paired (fun item => (e.forwardWanToLocal item).isSome) events) :
    Leaves ((Reorder.disposedItems events).map WanItem.addr + held)
      (events.flatMap e.reorderTrace) held := by
  induction paired with
  | nil =>
    rw [Reorder.disposedItems_nil, Multiset.map_zero, zero_add]
    exact .nil held
  | @item seq item events _ ih =>
    rw [Reorder.disposedItems_append, Reorder.disposedItems_itemEmit, Multiset.map_add,
      Multiset.map_singleton, add_assoc, Multiset.singleton_add, List.flatMap_append]
    refine (leaves_append_iff ?_).mpr ih
    unfold Reorder.itemEmit
    cases forwarded : e.forwardWanToLocal item with
    | none =>
      have trace := leaves_given ((Reorder.disposedItems events).map WanItem.addr + held) item.addr
        .pool
      simpa [reorderTrace, forwarded] using trace
    | some trace =>
      have first := leaves_cons_use.mpr (leaves_forwarded
        ((Reorder.disposedItems events).map WanItem.addr + held) forwarded)
      simpa [reorderTrace, forwarded] using first
  | @drop item events _ ih =>
    rw [← List.singleton_append, Reorder.disposedItems_append, Reorder.disposedItems_drop,
      Multiset.map_add, Multiset.map_singleton, add_assoc, Multiset.singleton_add,
      List.flatMap_append]
    refine (leaves_append_iff ?_).mpr ih
    exact leaves_cons_release.mpr (.nil _)
  | gap _ _ ih => exact ih
  | reset _ _ ih => exact ih

/-- The counters of the reordering are right, and its packets are at their places. -/
structure WanOrdered (st : WanState) : Prop where
  counted : st.reorder.Counted
  placed : st.reorder.Placed

/-- The call leaves the slots' frames in the slots, and nothing else with anyone. -/
def Conserves (st : WanState) (addr : FrameAddr) (r : WanState × List FrameEvent × Bool) : Prop :=
  r.2.2 = true ∧ Leaves (addr ::ₘ st.heldAddrs) r.2.1 r.1.heldAddrs

/-- The packet goes to a flow of the reordering that is stuck. -/
def SubmitStuck (e : Edge n) (y : WanDraws) (st : WanState) (item : WanItem)
    (ids : Option (BitVec 32 × BitVec 32)) : Prop :=
  e.reorder.enabled = true ∧ ∃ epoch seq t, ids = some (epoch, seq) ∧
    dpParseFlow item.frame item.frame.length = some t ∧ t.protocol = 17 ∧
    st.reorder.StuckFor e.reorder.holdNs ⟨t.srcIp, t.dstIp, t.srcPort, t.dstPort⟩ epoch seq
      y.reorderNowNs

theorem udpReorderSubmit_leaves {key : Reorder.Key} {epoch seq : BitVec 32} {item : WanItem}
    (ordered : WanOrdered st) (returned : (e.udpReorderSubmit y st key epoch seq item).2.2 = true) :
    Leaves (item.addr ::ₘ st.heldAddrs)
      ((e.udpReorderSubmit y st key epoch seq item).2.1.flatMap e.reorderTrace)
      (e.udpReorderSubmit y st key epoch seq item).1.heldAddrs := by
  unfold udpReorderSubmit at returned ⊢
  dsimp only at returned ⊢
  split
  · rename_i enabled
    rw [if_pos enabled] at returned
    have accounts := ordered.counted.accounts_submit
      (fun item => (e.forwardWanToLocal item).isSome) e.reorder.holdNs key epoch seq item
      y.reorderNowNs
    have paired := Reorder.Worker.paired_submit (fun item => (e.forwardWanToLocal item).isSome)
      e.reorder.holdNs key epoch seq item y.reorderNowNs st.reorder
    rw [returned, if_pos rfl] at accounts
    have items := congrArg (Multiset.map WanItem.addr) accounts.items
    rw [Multiset.map_add, Multiset.map_add, Multiset.map_singleton, Multiset.singleton_add] at items
    unfold WanState.heldAddrs
    rw [items]
    exact e.leaves_reorderTrace _ paired
  · have trace := e.leaves_reorderTrace st.heldAddrs
      (Reorder.paired_itemEmit (fun item => (e.forwardWanToLocal item).isSome) seq item)
    rwa [Reorder.disposedItems_itemEmit, Multiset.map_singleton, Multiset.singleton_add] at trace

theorem conserves_deliver_iff {item : WanItem} {ids : Option (BitVec 32 × BitVec 32)}
    (ordered : WanOrdered st) :
    Conserves st item.addr (e.deliver y st item ids) ↔ ¬ e.SubmitStuck y st item ids := by
  unfold deliver
  split
  · rename_i epoch seq
    split
    · rename_i absent
      refine iff_of_true ⟨rfl, leaves_given _ _ _⟩ ?_
      rintro ⟨-, epoch', seq', t, -, flow, udp, -⟩
      rw [flow] at absent
      simp [udp] at absent
    · rename_i t found
      obtain ⟨flow, udp⟩ := Option.filter_eq_some_iff.mp found
      have answer : (e.udpReorderSubmit y st ⟨t.srcIp, t.dstIp, t.srcPort, t.dstPort⟩ epoch seq
          item).2.2 = true ↔ ¬ e.SubmitStuck y st item (some (epoch, seq)) := by
        unfold udpReorderSubmit SubmitStuck
        dsimp only
        split
        · rename_i enabled
          refine (Reorder.Worker.submit_returns_iff _ item ordered.counted ordered.placed).trans
            (not_congr ⟨fun stuck => ⟨enabled, epoch, seq, t, rfl, flow, of_decide_eq_true udp,
              stuck⟩, ?_⟩)
          rintro ⟨-, epoch', seq', t', same, flow', -, stuck⟩
          cases same
          rwa [Option.some.inj (flow.symm.trans flow')]
        · rename_i disabled
          exact iff_of_true rfl fun stuck => disabled stuck.1
      dsimp only
      rw [← answer]
      constructor
      · exact fun conserves => conserves.1
      · intro returned
        exact ⟨returned, leaves_cons_use.mpr (udpReorderSubmit_leaves ordered returned)⟩
  · have free : ¬ e.SubmitStuck y st item none := by
      rintro ⟨-, epoch, seq, t, numbered, -⟩
      cases numbered
    split
    · exact iff_of_true ⟨rfl, leaves_given _ _ _⟩ free
    · rename_i events forwarded
      exact iff_of_true ⟨rfl, leaves_forwarded _ forwarded⟩ free

end Edge

end NeEncryptor
