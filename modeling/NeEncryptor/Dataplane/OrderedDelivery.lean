import NeEncryptor.Dataplane.DatagramDelivery
import NeEncryptor.Dataplane.ReorderStreams

/-!
# Datagrams in the order of their sender

The appliance of a sender numbers the datagrams of its flows and seals them; the WANs bring the
frames out of order, mixed with those of other flows.  The peer hands the datagrams of each flow to
the LAN in the order in which the sender numbered them.
-/

namespace NeEncryptor

open Buffer Custody Reorder Resequencer SerialNumber

variable {n m : ℕ}

/-- A datagram that an appliance sends in one frame, and the call at the peer that gets the frame. -/
structure Shipment (n m : ℕ) where
  sender : Edge n
  draws : LocalDraws
  lan : Job
  flow : FiveTuple
  ids : UdpMeta
  ctx : PacketCryptoCtx
  call : WanCall m
  /-- The place of the datagram among those of its flow. -/
  pos : ℕ

namespace Shipment

/-- The flow at the peer. -/
def key (a : Shipment n m) : Key := Edge.reorderKey a.flow

/-- What the peer submits to the reordering. -/
def item (a : Shipment n m) : WanItem :=
  ⟨a.call.job.addr, a.lan.frame, a.call.edge.ingressWan a.call.job⟩

def ask (a : Shipment n m) : Ask WanItem :=
  .packet a.key a.pos a.item a.call.draws.reorderNowNs fun item =>
    (a.call.edge.forwardWanToLocal item).isSome

/-- The sender seals the datagram with its number in one frame, and the peer takes this frame. -/
structure Arrives (plan : Plan WanItem) (a : Shipment n m) : Prop where
  governs : a.sender.Governs a.lan a.flow a.ctx
  udp : a.flow.protocol = 17
  numbered : a.draws.ids = some a.ids
  epoch : a.ids.epoch = (plan.source a.key).epoch
  seq : a.ids.seq = (plan.source a.key).seq a.pos
  sent : (wanPushes (a.sender.dataplaneProcessLocal a.draws a.lan)).map Prod.snd =
    [a.call.job.frame]
  taken : Edge.TakesFrom a.sender a.ctx a.lan a.call
  orders : a.call.edge.reorder = ⟨true, plan.holdNs⟩

variable {a : Shipment n m} {plan : Plan WanItem}

/-- The frame of a datagram is submitted to the reordering. -/
theorem Arrives.submitted (arrives : a.Arrives plan) (st : WanState) :
    a.call.edge.dataplaneProcessWan a.call.draws st a.call.job =
      a.call.edge.submitted a.call.draws st a.flow a.ids a.item := by
  have frames := arrives.governs.sends (x := a.draws) arrives.udp
  rw [arrives.sent] at frames
  obtain ⟨w, rctx, takes, key⟩ := arrives.taken
  cases frames with
  | whole numbered made =>
    obtain rfl := Option.some.inj (arrives.numbered.symm.trans numbered)
    exact takes.whole a.call.draws st arrives.governs.flow arrives.udp made key rfl

end Shipment

/-! ## What reaches the LANs -/

/-- The LAN ports that the datagrams of the plan go to from an appliance. -/
structure Lands (plan : Plan WanItem) (port : Key → ℕ) (e : Edge m) : Prop where
  long : ∀ key ∈ plan.keys, ∀ k, 14 ≤ ((plan.source key).item k).frame.length
  fits : ∀ key ∈ plan.keys, ∀ k, ((plan.source key).item k).frame.length ≤ neFrame
  flow : ∀ key ∈ plan.keys, ∀ k, (dpParseFlow ((plan.source key).item k).frame
    ((plan.source key).item k).frame.length).map Edge.reorderKey = some key
  lands : ∀ key ∈ plan.keys, ∀ k, e.landing ((plan.source key).item k) =
    [(port key, ((plan.source key).item k).frame)]

/-- The push of a datagram of a flow. -/
def ofFlow (key : Key) (push : ℕ × Bytes) : Bool :=
  decide ((dpParseFlow push.2 push.2.length).map Edge.reorderKey = some key)

/-- The pushes of the first datagrams of a flow, in the order of their sender. -/
def firstPushes (plan : Plan WanItem) (port : Key → ℕ) (key : Key) (n : ℕ) : List (ℕ × Bytes) :=
  (List.range n).map fun k => (port key, ((plan.source key).item k).frame)

variable {plan : Plan WanItem} {port : Key → ℕ} {e : Edge m} {key : Key}

theorem portPushes_handedOut (lands : Lands plan port e) (planned : key ∈ plan.keys)
    (positions : List ℕ) :
    portPushes (((plan.source key).handedOut (fun item => (e.forwardWanToLocal item).isSome)
      positions).flatMap e.reorderTrace) =
        positions.map fun k => (port key, ((plan.source key).item k).frame) := by
  induction positions with
  | nil => rfl
  | cons k positions ih =>
    have pushed := Edge.portPushes_forward (e := e) (lands.long key planned k)
      (lands.fits key planned k)
    rw [lands.lands key planned k] at pushed
    change portPushes ((itemEmit _ ((plan.source key).seq k) ((plan.source key).item k) ++
      (plan.source key).handedOut _ positions).flatMap e.reorderTrace) = _
    rw [List.flatMap_append, portPushes_append, ih, List.map_cons]
    have taken : (e.forwardWanToLocal ((plan.source key).item k)).isSome = true := by
      cases forwarded : e.forwardWanToLocal ((plan.source key).item k) with
      | none =>
        rw [forwarded] at pushed
        cases pushed
      | some events => rfl
    unfold itemEmit
    dsimp only
    rw [if_pos taken, List.flatMap_singleton, Edge.reorderTrace, portPushes_use, pushed]
    rfl

/-- The positions that a call hands out. -/
def handedBy (streams : Streams) (key : Key) (k : ℕ) : List ℕ :=
  if k ∈ (streams key).arrived then []
  else released (streams key).arrived (insert k (streams key).arrived)

variable {streams : Streams} {a : Shipment n m} {st : WanState}

/-- What one frame moves: the flows stay in step, and what is handed out lands. -/
theorem Shipment.Arrives.moves (arrives : a.Arrives plan)
    (few : ∀ set, (plan.keys.filter (Reorder.setOf · = set)).card ≤ 4)
    (lands : Lands plan port a.call.edge) (inStep : st.reorder.InStep plan streams)
    (timely : a.ask.Timely plan streams) :
    (a.call.edge.dataplaneProcessWan a.call.draws st a.call.job).1.reorder.InStep plan
        (a.ask.after streams) ∧
      (a.call.edge.dataplaneProcessWan a.call.draws st a.call.job).2.2 = true ∧
      portPushes (a.call.edge.dataplaneProcessWan a.call.draws st a.call.job).2.1 =
        (handedBy streams a.key a.pos).map fun k =>
          (port a.key, ((plan.source a.key).item k).frame) := by
  obtain ⟨idx, looked, answers⟩ := inStep.submit few timely
  have quiet : portPushes (looked.flatMap a.call.edge.reorderTrace) = [] := by
    rcases answers.looked with rfl | ⟨next, rfl⟩
    · rfl
    · rfl
  have answered : portPushes ((Entry.answer (plan.source a.key) (streams a.key) a.pos a.item
      fun item => (a.call.edge.forwardWanToLocal item).isSome).flatMap a.call.edge.reorderTrace) =
        (handedBy streams a.key a.pos).map fun k =>
          (port a.key, ((plan.source a.key).item k).frame) := by
    unfold Entry.answer handedBy
    split
    · rfl
    · exact portPushes_handedOut lands timely.1 _
  rw [arrives.submitted st, Edge.submitted, Edge.udpReorderSubmit, arrives.orders, arrives.epoch,
    arrives.seq]
  dsimp only
  rw [if_pos rfl]
  dsimp only
  change Worker.Answers plan streams st.reorder a.key a.pos a.item a.call.draws.reorderNowNs _ idx
    looked (st.reorder.dpUdpReorderSubmit _ plan.holdNs (Edge.reorderKey a.flow) _ _ _ _) at answers
  generalize st.reorder.dpUdpReorderSubmit (fun item => (a.call.edge.forwardWanToLocal item).isSome)
    plan.holdNs (Edge.reorderKey a.flow) (plan.source a.key).epoch ((plan.source a.key).seq a.pos)
    a.item a.call.draws.reorderNowNs = result at answers ⊢
  refine ⟨answers.inStep, answers.returned, ?_⟩
  have untagged : result.2.1.map Prod.snd = looked ++ Entry.answer (plan.source a.key)
      (streams a.key) a.pos a.item fun item => (a.call.edge.forwardWanToLocal item).isSome := by
    rw [answers.events, List.map_map]
    exact List.map_id _
  rw [portPushes_use, portPushes_use, untagged, List.flatMap_append, portPushes_append, quiet,
    answered]
  rfl

theorem filter_ofFlow (lands : Lands plan port e) (planned : key ∈ plan.keys) (other : Key)
    (positions : List ℕ) :
    (positions.map fun k => (port key, ((plan.source key).item k).frame)).filter (ofFlow other) =
      if key = other then positions.map fun k => (port key, ((plan.source key).item k).frame)
      else [] := by
  have flow (k : ℕ) : ofFlow other (port key, ((plan.source key).item k).frame) =
      decide (key = other) := by
    unfold ofFlow
    dsimp only
    rw [lands.flow key planned k]
    exact decide_eq_decide.mpr Option.some_inj
  by_cases same : key = other
  · rw [if_pos same, List.filter_eq_self]
    intro push mem
    obtain ⟨k, -, rfl⟩ := List.mem_map.mp mem
    rw [flow, decide_eq_true same]
  · rw [if_neg same, List.filter_eq_nil_iff]
    intro push mem
    obtain ⟨k, -, rfl⟩ := List.mem_map.mp mem
    rw [flow, decide_eq_false same]
    exact Bool.false_ne_true

/-- The pushes of a flow grow by what a call hands out. -/
theorem firstPushes_append (a : Shipment n m) (lands : Lands plan port e)
    (planned : a.key ∈ plan.keys) (key : Key) :
    firstPushes plan port key (front (streams key).arrived) ++
        ((handedBy streams a.key a.pos).map fun k =>
          (port a.key, ((plan.source a.key).item k).frame)).filter (ofFlow key) =
      firstPushes plan port key (front (a.ask.after streams key).arrived) := by
  rw [filter_ofFlow lands planned]
  change _ = firstPushes plan port key
    (front (Function.update streams a.key ((streams a.key).arrive a.pos _) key).arrived)
  by_cases same : a.key = key
  · subst same
    rw [if_pos rfl, Function.update_self]
    change _ = firstPushes plan port a.key (front (insert a.pos (streams a.key).arrived))
    unfold firstPushes handedBy
    split
    · rename_i came
      rw [Finset.insert_eq_of_mem came]
      exact List.append_nil _
    · rw [← List.map_append, range_append_released]
  · rw [if_neg same, Function.update_of_ne (Ne.symm same), List.append_nil]

/-- A whole run: the pushes of each flow grow in the order of its sender. -/
theorem runWan_grows (few : ∀ set, (plan.keys.filter (Reorder.setOf · = set)).card ≤ 4)
    (ships : List (Shipment n m)) (arrive : ∀ a ∈ ships, a.Arrives plan)
    (lands : ∀ a ∈ ships, Lands plan port a.call.edge)
    (inStep : st.reorder.InStep plan streams)
    (timely : Ask.AllTimely plan streams (ships.map Shipment.ask)) :
    (Edge.runWan st (ships.map Shipment.call)).2.2 = true ∧ ∀ key,
      firstPushes plan port key (front (streams key).arrived) ++
          (portPushes (Edge.runWan st (ships.map Shipment.call)).2.1).filter (ofFlow key) =
        firstPushes plan port key
          (front (Ask.afterAll streams (ships.map Shipment.ask) key).arrived) := by
  induction ships generalizing st streams with
  | nil => exact ⟨rfl, fun key => List.append_nil _⟩
  | cons a ships ih =>
    obtain ⟨now, later⟩ := timely
    have here := lands a List.mem_cons_self
    obtain ⟨next, returned, pushes⟩ :=
      (arrive a List.mem_cons_self).moves few here inStep now
    obtain ⟨ends, grows⟩ := ih (fun b mem => arrive b (List.mem_cons_of_mem a mem))
      (fun b mem => lands b (List.mem_cons_of_mem a mem)) next later
    rw [List.map_cons, Edge.runWan]
    dsimp only
    rw [if_pos returned]
    refine ⟨ends, fun key => ?_⟩
    dsimp only
    rw [portPushes_append, List.filter_append, pushes, ← List.append_assoc,
      firstPushes_append a here now.1 key]
    exact grows key

/-- A datagram of 60 bytes from a host of the LAN. -/
def smallUdp (tag : UInt8) : Bytes :=
  [2, 0, 0, 0, 0, 1, 2, 0, 0, 0, 0, 2, 8, 0, 69, 0, 0, 46, 0, 0, 64, 0, 64, 17, 0, 0] ++ lanHost ++
    wanHost ++ [156, 64, 0, 80, 0, 26, 0, 0] ++ List.replicate 18 tag

def smallJob (tag : UInt8) : Job := paddedJob (smallUdp tag) 60 (by decide)

def smallDraws (pos : ℕ) : LocalDraws where
  wanPick := fun _ => some 0
  ids := some ⟨1, BitVec.ofNat 32 pos, BitVec.ofNat 32 pos⟩
  tail := none
  nonce := some (Vector.replicate 12 (.ofNat (8 + pos)))
  nonce0 := none

/-- What the sender pushes for the datagram at a place. -/
def smallFrames (pos : ℕ) : List Bytes :=
  (wanPushes ((tunnelEdge 1500).dataplaneProcessLocal (smallDraws pos)
    (smallJob (.ofNat pos)))).map Prod.snd

/-- The peer holds a gap for two milliseconds. -/
def orderedEdge : Edge 1 := { tunnelEdge 1500 with reorder := ⟨true, 2000000⟩ }

theorem orderedEdge_peered : orderedEdge.Peered 0 5 lanPolicyCtx 1 :=
  ⟨rfl, rfl, tunnelEdge_hasKey, tunnelEdge_profile⟩

def smallShipment (pos : ℕ) (now : BitVec 64) : Shipment 1 1 where
  sender := tunnelEdge 1500
  draws := smallDraws pos
  lan := smallJob (.ofNat pos)
  flow := lanUdpFlow
  ids := ⟨1, BitVec.ofNat 32 pos, BitVec.ofNat 32 pos⟩
  ctx := lanPolicyCtx
  call := ⟨orderedEdge, ⟨fun _ => none, now, now⟩,
    paddedJob ((smallFrames pos).getD 0 []) 107 (by decide)⟩
  pos := pos

def smallPlan : Plan WanItem where
  keys := {Edge.reorderKey lanUdpFlow}
  source := fun _ => ⟨1, 0, fun k => (smallShipment (min k 1) 0).item⟩
  holdNs := 2000000

theorem length_smallFrames : (smallFrames 0).map List.length = [107] ∧
    (smallFrames 1).map List.length = [107] := by
  constructor
  · decide +kernel
  · decide +kernel

/-- The job of the peer is the frame that was sent. -/
theorem smallFrames_eq {pos : ℕ} (sizes : (smallFrames pos).map List.length = [107])
    (now : BitVec 64) : smallFrames pos = [(smallShipment pos now).call.job.frame] := by
  unfold smallShipment
  dsimp only
  generalize smallFrames pos = frames at sizes ⊢
  obtain ⟨frame, rfl, size⟩ := List.map_eq_singleton_iff.mp sizes
  change [frame] = [(paddedJob frame 107 _).frame]
  rw [frame_paddedJob _ size]

theorem tunnelEdge_governs_small {pos : ℕ} (early : pos = 0 ∨ pos = 1) :
    (tunnelEdge 1500).Governs (smallJob (.ofNat pos)) lanUdpFlow lanPolicyCtx := by
  rcases early with rfl | rfl
  · exact ⟨by decide +kernel, 0, anyPolicy 5, by decide +kernel, by decide, by decide +kernel⟩
  · exact ⟨by decide +kernel, 0, anyPolicy 5, by decide +kernel, by decide, by decide +kernel⟩

theorem orderedEdge_policyIn_small {pos : ℕ} (early : pos = 0 ∨ pos = 1) :
    orderedEdge.wanPolicyIn (smallJob (.ofNat pos)).frame = true := by
  rcases early with rfl | rfl
  · decide +kernel
  · decide +kernel

theorem smallShipment_arrives {pos : ℕ} (early : pos = 0 ∨ pos = 1) (now : BitVec 64) :
    (smallShipment pos now).Arrives smallPlan := by
  have sizes : (smallFrames pos).map List.length = [107] := by
    rcases early with rfl | rfl
    · exact length_smallFrames.1
    · exact length_smallFrames.2
  exact ⟨tunnelEdge_governs_small early, rfl, rfl, rfl, (BitVec.zero_add _).symm,
    smallFrames_eq sizes now, ⟨0, lanPolicyCtx, ⟨rfl, orderedEdge_peered,
      orderedEdge_policyIn_small early⟩, sameKey_lanPolicyCtx _⟩, rfl⟩

/-- What the peer is asked for does not depend on the time. -/
theorem smallShipment_ask {pos : ℕ} (early : pos ≤ 1) (now : BitVec 64) :
    (smallShipment pos now).ask = .packet (Edge.reorderKey lanUdpFlow) pos
      ((smallPlan.source (Edge.reorderKey lanUdpFlow)).item pos) now
        fun item => (orderedEdge.forwardWanToLocal item).isSome := by
  have same : (smallPlan.source (Edge.reorderKey lanUdpFlow)).item pos =
      (smallShipment pos now).item :=
    congrArg (fun pos => (smallShipment pos 0).item) (Nat.min_eq_left early)
  rw [same]
  rfl

theorem orderedEdge_lands : Lands smallPlan (fun _ => 0) orderedEdge := by
  have item (key : Key) (k : ℕ) : (smallPlan.source key).item k = (smallShipment 0 0).item ∨
      (smallPlan.source key).item k = (smallShipment 1 0).item := by
    cases k with
    | zero => exact .inl rfl
    | succ k =>
      refine .inr (congrArg (fun pos => (smallShipment pos 0).item) ?_)
      exact Nat.min_eq_right (Nat.le_add_left 1 k)
  refine ⟨fun key _ k => ?_, fun key _ k => ?_, fun key planned k => ?_, fun key _ k => ?_⟩
  · rcases item key k with same | same
    · rw [same]
      decide +kernel
    · rw [same]
      decide +kernel
  · rcases item key k with same | same
    · rw [same]
      decide +kernel
    · rw [same]
      decide +kernel
  · obtain rfl := Finset.mem_singleton.mp planned
    rcases item (Edge.reorderKey lanUdpFlow) k with same | same
    · rw [same]
      decide +kernel
    · rw [same]
      decide +kernel
  · rcases item key k with same | same
    · rw [same]
      decide +kernel
    · rw [same]
      decide +kernel

/-- The second datagram comes before the first. -/
def overtakenShipments : List (Shipment 1 1) := [smallShipment 1 5, smallShipment 0 7]

theorem overtakenShipments_timely :
    Ask.AllTimely smallPlan Streams.fresh (overtakenShipments.map Shipment.ask) := by
  change Ask.AllTimely smallPlan Streams.fresh [(smallShipment 1 5).ask, (smallShipment 0 7).ask]
  rw [smallShipment_ask le_rfl, smallShipment_ask (Nat.zero_le 1)]
  exact Run.timely_overtaken rfl rfl (by decide) (by decide) (by decide) _ _

end NeEncryptor
