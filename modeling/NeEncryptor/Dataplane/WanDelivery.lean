import NeEncryptor.Dataplane.LocalEgress

/-!
# From a WAN to the LANs

`dataplane_process_wan` behind `decrypt_wan`, with `arp_bridge_from_wan` of `arp_bridge.c`.  A UDP
packet goes through the reordering, whose callbacks forward or drop what it releases.
-/

namespace NeEncryptor

open Buffer Custody

variable {n : ℕ}

/-- `struct dp_udp_reorder_item`; the profile is always the one at place 0. -/
structure WanItem where
  addr : FrameAddr
  frame : Bytes
  ingressWan : Option ℕ
  deriving DecidableEq, Repr

/-- What a crypto worker keeps between calls. -/
structure WanState where
  ft : OptTable
  reorder : Reorder.Worker WanItem

/-- What a call gets from outside. -/
structure WanDraws where
  /-- `ne_frame_alloc` in the rounds of a flood. -/
  clone : ℕ → Option FrameAddr
  /-- `opt_time_ns`. -/
  optNowNs : BitVec 64
  /-- `dp_udp_reorder_now_ns`. -/
  reorderNowNs : BitVec 64

namespace Edge

variable (e : Edge n) (y : WanDraws)

/-- What a crypto worker finds; the threads that receive decrypt nothing. -/
def rx : Option (WanRx n) := e.worker.map fun w => ⟨e.cfg, e.rt, w, e.nowMs⟩

/-- The WAN that a frame came from. -/
def ingressWan (job : Job) : Option ℕ := if job.wanIdx < e.wanCount then some job.wanIdx else none

/-! ## ARP -/

/-- `arp_try_decrypt_l2_pqc`, with the frame it leaves. -/
def arpTryDecryptL2Pqc (pkt : Bytes) : Option Bytes :=
  if cryptoPktIsArp pkt pkt.length then some pkt
  else if !cryptoEthL2HasArpMarker pkt then none
  else (e.arpCtx.bind fun ctx => l2ArpDecrypt e.aead ctx pkt).filter fun plain =>
    cryptoPktIsArp plain plain.length

/-- The ports that `arp_flood_to_profile_locals` goes through. -/
def floodLocals : List ℕ :=
  (e.profile.localIndices.filterMap e.macFwdLocalForCfgIdx).filter e.profileOwnsLocal

/-- The rounds of `arp_flood_to_profile_locals` from round `k` on, with whether one frame was sent;
`sentMask` are the ports that got one. -/
def arpFlood (addr : FrameAddr) (frame : Bytes) :
    ℕ → Bool → List ℕ → List ℕ → List FrameEvent × Bool
  | _, sent, _, [] => ([], sent)
  | k, sent, sentMask, li :: rest =>
    if sentMask.contains li then arpFlood addr frame (k + 1) sent sentMask rest
    else
      let mark := if li < 16 then li :: sentMask else sentMask
      if !sent then
        if e.pushCount (.lan li) addr < midRingCap then
          let (events, sent) := arpFlood addr frame (k + 1) true mark rest
          (.release addr (.ring (.lan li) frame) :: events, sent)
        else arpFlood addr frame (k + 1) false sentMask rest
      else
        match y.clone k with
        | none => arpFlood addr frame (k + 1) true sentMask rest
        | some clone =>
          -- the packet is read again, whoever has it now
          if e.pushCount (.lan li) clone < midRingCap then
            let (events, sent) := arpFlood addr frame (k + 1) true mark rest
            ([.take clone, .use addr, .use clone, .release clone (.ring (.lan li) frame)] ++ events,
              sent)
          else
            let (events, sent) := arpFlood addr frame (k + 1) true sentMask rest
            ([.take clone, .use addr, .use clone, .release clone .pool] ++ events, sent)

/-- `arp_bridge_from_wan`, with whether it returns 0. -/
def arpBridgeFromWan (job : Job) (d : ℕ) : List FrameEvent × Bool :=
  match e.arpTryDecryptL2Pqc job.frame with
  | none => ([.use job.addr], false)
  | some frame =>
    if !e.profilePiForWanDp d then ([.use job.addr], false)
    else if arpEthDmacIsBroadcast frame then
      let (events, sent) := e.arpFlood y job.addr frame 0 false [] e.floodLocals
      (.use job.addr :: events, sent)
    else
      match (e.mac.lookup (dmacOf frame)).filter e.profileOwnsLocal with
      | none => ([.use job.addr], false)
      | some li =>
        let pushed := e.dpRingPush (.lan li) job.addr frame
        (.use job.addr :: pushed.1, pushed.2)

/-! ## Data -/

/-- `forward_wan_to_local`, where it does not return −1. -/
def forwardWanToLocal (item : WanItem) : Option (List FrameEvent) :=
  if item.frame.length < 14 ∨ item.frame.getD 0 0 &&& 0x01 ≠ 0 then none
  else
    let known := (e.mac.lookup (dmacOf item.frame)).filter e.profileOwnsLocal
    let li := known <|> (item.ingressWan.bind e.macFwdLocalForWanDp).filter e.profileOwnsLocal
    li.map fun li => .use item.addr :: (e.dpRingPush (.lan li) item.addr item.frame).1

/-- What the callbacks `udp_reorder_emit` and `udp_reorder_drop` do to the frames. -/
def reorderTrace : Reorder.Event WanItem → List FrameEvent
  | .emit _ item true => .use item.addr :: (e.forwardWanToLocal item).getD []
  | .emit _ item false => [.use item.addr]
  | .drop item => [.release item.addr .pool]
  | .reset _ => []
  | .gap _ => []

/-- `dp_udp_reorder_submit`, and whether it returns. -/
def udpReorderSubmit (st : WanState) (key : Reorder.Key) (epoch seq : BitVec 32) (item : WanItem) :
    WanState × List (Reorder.Event WanItem) × Bool :=
  let emit := fun item => (e.forwardWanToLocal item).isSome
  if e.reorder.enabled then
    let (w, events, returned) :=
      st.reorder.dpUdpReorderSubmit emit e.reorder.holdNs key epoch seq item y.reorderNowNs
    ({ st with reorder := w }, events.map Prod.snd, returned)
  else (st, Reorder.itemEmit emit seq item, true)

/-- `profile_pi_for_wire_policy` finds the profile. -/
def profilePiForWirePolicy (wireId : UInt8) : Bool :=
  decide (0 ≤ e.rt.fwdCryptoProfileIdForWireId e.nowMs wireId) &&
    e.cfg.profiles.head?.any fun p => p.id == e.rt.fwdCryptoProfileIdForWireId e.nowMs wireId

/-- `wan_profile_pi_bypass` finds the profile. -/
def wanProfilePiBypass (pkt : Bytes) : Bool :=
  !e.cfg.profiles.isEmpty && e.profile.enabled &&
    (dpParseFlow pkt pkt.length).any fun t =>
      (configSelectCryptoPolicy e.cfg 0 t.reversed).any fun cp => cp.action == .bypass

/-- `wan_profile_pi` finds the profile. -/
def wanProfilePi (pkt : Bytes) : Bool :=
  if e.rt.fwdCryptoHasL2Marker pkt || cryptoEthL2HasMarker pkt pkt.length then
    (cryptoEthL2ReadPolicyId pkt pkt.length).any e.profilePiForWirePolicy
  else e.wanProfilePiBypass pkt

/-- The gate of the inbound policies for a packet that was decrypted. -/
def wanPolicyIn (pkt : Bytes) : Bool :=
  (e.cfg.profiles.head?.any fun p => p.policyInAny) ||
    (dpParseFlow pkt pkt.length).any (configPolicyInOk (configRefreshPolicyInAny e.cfg).2)

/-- `wan_clamp_tcp_mss`. -/
def wanClampTcpMss (pkt : Bytes) : Bytes :=
  let clamps :=
    !e.cfg.profiles.isEmpty && e.profile.enabled && (dpParseFlow pkt pkt.length).any fun t =>
      decide (t.protocol = 6) &&
        (configSelectCryptoPolicy e.cfg 0 t).any fun cp => cp.action != .bypass
  if clamps then (cryptoTcpClampMss pkt pkt.length cryptoOptFragMtuDefault 30).1 else pkt

/-- The header that `dataplane_process_wan` keeps of a frame before it is decrypted. -/
def wireBuf (pkt : Bytes) : Bytes := if wanL2IsUdpTagged pkt then pkt.take 64 else pkt

/-- How `dataplane_process_wan` ends for a packet with its place in a sequence, or without one. -/
def deliver (st : WanState) (item : WanItem) (ids : Option (BitVec 32 × BitVec 32)) :
    WanState × List FrameEvent × Bool :=
  match ids with
  | some (epoch, seq) =>
    match (dpParseFlow item.frame item.frame.length).filter fun t => t.protocol = 17 with
    | none => (st, [.use item.addr, .release item.addr .pool], true)
    | some t =>
      let key := ⟨t.srcIp, t.dstIp, t.srcPort, t.dstPort⟩
      let (st, events, returned) := e.udpReorderSubmit y st key epoch seq item
      (st, .use item.addr :: events.flatMap e.reorderTrace, returned)
  | none =>
    match e.forwardWanToLocal item with
    | none => (st, [.use item.addr, .release item.addr .pool], true)
    | some events => (st, events, true)

/-- The part of `dataplane_process_wan` for encrypted frames. -/
def processEncrypted (st : WanState) (job : Job) : WanState × List FrameEvent × Bool :=
  match e.rx with
  | none => (st, [.release job.addr .pool], true)
  | some rx =>
    match rx.decryptWan e.aead st.ft y.optNowNs job.frame with
    | (ft, .drop) => ({ st with ft := ft }, [.use job.addr, .release job.addr .pool], true)
    | (ft, .held) => ({ st with ft := ft }, [.use job.addr, .release job.addr .pool], true)
    | (ft, .plain packet ids) =>
      let st := { st with ft := ft }
      if !e.wanProfilePi (wireBuf job.frame) || !e.wanPolicyIn packet then
        (st, [.use job.addr, .release job.addr .pool], true)
      else
        let (st, events, returned) :=
          e.deliver y st ⟨job.addr, e.wanClampTcpMss packet, e.ingressWan job⟩ ids
        (st, .use job.addr :: events, returned)

/-- `wan_wire_is_encrypted`. -/
def wireIsEncrypted (pkt : Bytes) : Bool :=
  e.rt.fwdCryptoHasL2Marker pkt || cryptoEthL2HasMarker pkt pkt.length || wanL2IsUdpTagged pkt

/-- `dataplane_process_wan`: what it keeps, what it does to the frames, and whether it returns. -/
def dataplaneProcessWan (st : WanState) (job : Job) : WanState × List FrameEvent × Bool :=
  let pkt := job.frame
  if pkt.length < 14 then (st, [.release job.addr .pool], true)
  else if cryptoEthL2HasArpMarker pkt || dpPktIsArp pkt then
    match (e.ingressWan job).map (e.arpBridgeFromWan y job) with
    | some (events, true) => (st, .use job.addr :: events, true)
    | some (events, false) => (st, .use job.addr :: events ++ [.release job.addr .pool], true)
    | none => (st, [.use job.addr, .release job.addr .pool], true)
  else if e.wireIsEncrypted pkt then
    if !e.cfg.cryptoEnabled then (st, [.use job.addr, .release job.addr .pool], true)
    else e.processEncrypted y st job
  else if !cryptoPktIsIpv4 pkt pkt.length || !e.wanProfilePi (wireBuf pkt) then
    (st, [.use job.addr, .release job.addr .pool], true)
  else e.deliver y st ⟨job.addr, pkt, e.ingressWan job⟩ none

end Edge

/-! ## What a call pushes -/

namespace Edge

variable {e : Edge n} {y : WanDraws} {st : WanState} {job : Job} {item : WanItem}
  {ring : MidRing} {a : FrameAddr} {frame : Bytes}

theorem mem_dpRingPush {ring' : MidRing} {addr : FrameAddr} {bytes : Bytes}
    (pushed : .release a (.ring ring frame) ∈ (e.dpRingPush ring' addr bytes).1) :
    ring = ring' ∧ frame = bytes := by
  rcases e.dpRingPush_cases ring' addr bytes with full | ⟨-, -, done⟩
  · rw [full] at pushed
    cases List.mem_singleton.mp pushed
  · rw [done] at pushed
    cases List.mem_singleton.mp pushed
    exact ⟨rfl, rfl⟩

theorem forwardWanToLocal_some {events : List FrameEvent}
    (forwarded : e.forwardWanToLocal item = some events) :
    14 ≤ item.frame.length ∧ item.frame.getD 0 0 &&& 0x01 = 0 ∧ ∃ li,
      events = .use item.addr :: (e.dpRingPush (.lan li) item.addr item.frame).1 := by
  unfold forwardWanToLocal at forwarded
  split at forwarded
  · cases forwarded
  · rename_i unicast
    obtain ⟨li, -, rfl⟩ := Option.map_eq_some_iff.mp forwarded
    exact ⟨by omega, not_not.mp fun other => unicast (.inr other), li, rfl⟩

theorem mem_forwardWanToLocal (pushed : .release a (.ring ring frame) ∈
    (e.forwardWanToLocal item).getD []) : frame = item.frame := by
  cases forwarded : e.forwardWanToLocal item with
  | none =>
    rw [forwarded] at pushed
    cases pushed
  | some events =>
    obtain ⟨-, -, li, rfl⟩ := forwardWanToLocal_some forwarded
    rw [forwarded] at pushed
    rcases List.mem_cons.mp pushed with same | mem
    · cases same
    · exact (mem_dpRingPush mem).2

/-- The frame of an item that the reordering emits. -/
theorem mem_reorderTrace {event : Reorder.Event WanItem}
    (pushed : .release a (.ring ring frame) ∈ e.reorderTrace event) :
    ∃ seq item, event = .emit seq item true ∧ frame = item.frame := by
  cases event with
  | emit seq item done =>
    cases done with
    | true =>
      rcases List.mem_cons.mp pushed with same | mem
      · cases same
      · exact ⟨seq, item, rfl, mem_forwardWanToLocal mem⟩
    | false => cases List.mem_singleton.mp pushed
  | drop item => cases List.mem_singleton.mp pushed
  | reset _ => cases pushed
  | gap _ => cases pushed

/-- The ways of a frame through `deliver`. -/
inductive DeliverPushes (e : Edge n) (y : WanDraws) (st : WanState) (item : WanItem)
    (ids : Option (BitVec 32 × BitVec 32)) (frame : Bytes) : Prop
  | itself (unnumbered : ids = none) (same : frame = item.frame)
  | released {epoch seq seq' : BitVec 32} {t : FiveTuple} {item' : WanItem}
      (numbered : ids = some (epoch, seq))
      (flow : dpParseFlow item.frame item.frame.length = some t) (udp : t.protocol = 17)
      (emitted : .emit seq' item' true ∈ (e.udpReorderSubmit y st
        ⟨t.srcIp, t.dstIp, t.srcPort, t.dstPort⟩ epoch seq item).2.1)
      (same : frame = item'.frame)

theorem deliverPushes_of_mem {ids : Option (BitVec 32 × BitVec 32)}
    (pushed : .release a (.ring ring frame) ∈ (e.deliver y st item ids).2.1) :
    DeliverPushes e y st item ids frame := by
  unfold deliver at pushed
  split at pushed
  · rename_i epoch seq
    split at pushed
    · simp only [List.mem_cons, List.not_mem_nil, reduceCtorEq, or_false, Event.release.injEq,
        and_false] at pushed
    · rename_i t found
      obtain ⟨flow, udp⟩ := Option.filter_eq_some_iff.mp found
      rcases List.mem_cons.mp pushed with same | mem
      · cases same
      · obtain ⟨event, emitted, mem⟩ := List.mem_flatMap.mp mem
        obtain ⟨seq', item', rfl, same⟩ := mem_reorderTrace mem
        exact .released rfl flow (of_decide_eq_true udp) emitted same
  · split at pushed
    · simp only [List.mem_cons, List.not_mem_nil, reduceCtorEq, or_false, Event.release.injEq,
        and_false] at pushed
    · rename_i events forwarded
      have mem : .release a (.ring ring frame) ∈ (e.forwardWanToLocal item).getD [] := by
        rw [forwarded]
        exact pushed
      exact .itself rfl (mem_forwardWanToLocal mem)

/-- The ways of a frame to a ring of a LAN. -/
inductive PushedFromWan (e : Edge n) (y : WanDraws) (st : WanState) (job : Job) (frame : Bytes) :
    Prop
  | arp (isArp : (cryptoEthL2HasArpMarker job.frame || dpPktIsArp job.frame) = true)
  | decrypted {rx : WanRx n} {ft : OptTable} {packet : Bytes}
      {ids : Option (BitVec 32 × BitVec 32)}
      (data : (cryptoEthL2HasArpMarker job.frame || dpPktIsArp job.frame) = false)
      (encrypted : e.wireIsEncrypted job.frame = true) (worker : e.rx = some rx)
      (made : rx.decryptWan e.aead st.ft y.optNowNs job.frame = (ft, .plain packet ids))
      (profile : e.wanProfilePi (wireBuf job.frame) = true)
      (policy : e.wanPolicyIn packet = true)
      (delivered : DeliverPushes e y { st with ft := ft }
        ⟨job.addr, e.wanClampTcpMss packet, e.ingressWan job⟩ ids frame)
  | plain (data : (cryptoEthL2HasArpMarker job.frame || dpPktIsArp job.frame) = false)
      (clear : e.wireIsEncrypted job.frame = false)
      (ip : cryptoPktIsIpv4 job.frame job.frame.length = true)
      (profile : e.wanProfilePi (wireBuf job.frame) = true) (same : frame = job.frame)

/-- A call pushes nothing else. -/
theorem pushedFromWan_of_mem
    (pushed : .release a (.ring ring frame) ∈ (e.dataplaneProcessWan y st job).2.1) :
    PushedFromWan e y st job frame := by
  have dropped (mem : .release a (.ring ring frame) ∈
      ([.use job.addr, .release job.addr .pool] : List FrameEvent)) : False := by
    simp only [List.mem_cons, List.not_mem_nil, reduceCtorEq, or_false, Event.release.injEq,
      and_false] at mem
  unfold dataplaneProcessWan at pushed
  dsimp only at pushed
  split at pushed
  · cases List.mem_singleton.mp pushed
  split at pushed
  · rename_i isArp
    exact .arp isArp
  rename_i noArp
  have data := Bool.eq_false_iff.mpr noArp
  split at pushed
  · rename_i encrypted
    split at pushed
    · exact (dropped pushed).elim
    unfold processEncrypted at pushed
    split at pushed
    · cases List.mem_singleton.mp pushed
    rename_i rx worker
    split at pushed
    · exact (dropped pushed).elim
    · exact (dropped pushed).elim
    · rename_i ft packet ids made
      dsimp only at pushed
      split at pushed
      · exact (dropped pushed).elim
      · rename_i gates
        rw [Bool.or_eq_true, not_or, Bool.not_eq_true, Bool.not_eq_true, Bool.not_eq_false',
          Bool.not_eq_false'] at gates
        rcases List.mem_cons.mp pushed with same | mem
        · cases same
        · exact .decrypted data encrypted worker made gates.1 gates.2 (deliverPushes_of_mem mem)
  · rename_i clear
    split at pushed
    · exact (dropped pushed).elim
    · rename_i gates
      rw [Bool.or_eq_true, not_or, Bool.not_eq_true, Bool.not_eq_true, Bool.not_eq_false',
        Bool.not_eq_false'] at gates
      cases deliverPushes_of_mem pushed with
      | itself _ same => exact .plain data (Bool.eq_false_iff.mpr clear) gates.1 gates.2 same
      | released numbered => cases numbered

end Edge

end NeEncryptor
