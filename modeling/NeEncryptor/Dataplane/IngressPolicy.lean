import NeEncryptor.Crypto.ReassemblyRuns
import NeEncryptor.Dataplane.FrameConservation

/-!
# What comes from the WANs

What a call hands on was deciphered, or a BYPASS policy lets it through.  `decrypt_wan` also hands on
a frame with a marker as it is, where no policy has its wire id now and nothing opens it.
-/

namespace NeEncryptor

open Buffer Custody

/-! ## What is opened -/

/-- One of the keys of the context authenticates the end of the frame. -/
def Unlocks (aead : Aead) (ctx : PacketCryptoCtx) (frame : Bytes) : Prop :=
  ∃ key ∈ candidates ctx, ∃ nonce cipher plain, cipher <:+ frame ∧
    aead.decrypt key nonce cipher = some plain

/-- The context that the worker has for the frame. -/
def WanRx.Loads {n : ℕ} (rx : WanRx n) (pkt : Bytes) (ctx : PacketCryptoCtx) : Prop :=
  ∃ wireId, cryptoEthL2ReadPolicyId pkt pkt.length = some wireId ∧ rx.ctxFor wireId = some ctx

section Unlocks

variable {aead : Aead} {ctx : PacketCryptoCtx} {frame : Bytes}

theorem unlocks_of_resilient {nonce plain : Bytes} {start : ℕ}
    (opened : cryptoPqcDecryptPayloadResilient aead ctx nonce
      (slice frame start (frame.length - start)) = some plain) : Unlocks aead ctx frame := by
  have rest : slice frame start (frame.length - start) = frame.drop start :=
    List.take_of_length_le (List.length_drop ..).le
  rw [rest] at opened
  unfold cryptoPqcDecryptPayloadResilient at opened
  split at opened
  · cases opened
  · obtain ⟨key, tried, opens⟩ := List.exists_of_findSome?_eq_some opened
    exact ⟨key, tried, nonce, _, plain, List.drop_suffix start frame, opens⟩

theorem unlocks_of_l2DoDecrypt {packet : Bytes}
    (opened : l2DoDecrypt aead ctx frame frame.length = some packet) :
    Unlocks aead ctx frame := by
  simp only [l2DoDecrypt, Option.bind_eq_bind, Option.bind_eq_some_iff] at opened
  obtain ⟨_, -, _, -, _, -, plain, decrypted, -⟩ := opened
  exact unlocks_of_resilient decrypted

theorem unlocks_of_l2DoDecryptUdp {p : OpenedUdp}
    (opened : l2DoDecryptUdp aead ctx frame frame.length = some p) :
    Unlocks aead ctx frame := by
  simp only [l2DoDecryptUdp, Option.bind_eq_bind, Option.bind_eq_some_iff] at opened
  obtain ⟨_, -, opened⟩ := opened
  split at opened
  · cases opened
  split at opened
  · cases opened
  · obtain ⟨_, -, opened⟩ := Option.bind_eq_some_iff.mp opened
    obtain ⟨_, -, opened⟩ := Option.bind_eq_some_iff.mp opened
    obtain ⟨plain, decrypted, -⟩ := Option.bind_eq_some_iff.mp opened
    exact unlocks_of_resilient decrypted

end Unlocks

/-- What `decrypt_wan` makes of a frame with a marker. -/
inductive Decrypts {n : ℕ} (rx : WanRx n) (aead : Aead) (ft : OptTable) (now : BitVec 64)
    (pkt : Bytes) : OptTable × WanResult → Prop
  | dropped : Decrypts rx aead ft now pkt (ft, .drop)
  | whole {ctx : PacketCryptoCtx} {packet : Bytes} (loads : rx.Loads pkt ctx)
      (opened : l2DoDecrypt aead ctx pkt pkt.length = some packet) :
      Decrypts rx aead ft now pkt (ft, .plain packet none)
  | datagram {ctx : PacketCryptoCtx} {p : OpenedUdp} (loads : rx.Loads pkt ctx)
      (opened : l2DoDecryptUdp aead ctx pkt pkt.length = some p) (kind : p.kind = .full) :
      Decrypts rx aead ft now pkt (ft, .plain p.packet (some (p.ids.epoch, p.ids.seq)))
  /-- A fragment goes to the table. -/
  | fragment {ctx : PacketCryptoCtx} {p : OpenedUdp} {result : WanResult} (loads : rx.Loads pkt ctx)
      (opened : l2DoDecryptUdp aead ctx pkt pkt.length = some p)
      (joins : ∀ packet ids, result = .plain packet ids →
        (ft.l2Reassemble p now).2 = .joined packet ∧ ids ≠ none) :
      Decrypts rx aead ft now pkt ((ft.l2Reassemble p now).1, result)
  /-- Nothing opened the frame, and it is handed on. -/
  | raw (unlisted : rx.rt.fwdCryptoHasL2Marker pkt = false) (untagged : wanL2IsUdpTagged pkt = false)
      (closed : (rx.decryptL2 aead pkt).filter wanL2PlainOk = none) :
      Decrypts rx aead ft now pkt (ft, .plain pkt none)

section Decrypts

variable {n : ℕ} {rx : WanRx n} {aead : Aead} {ft : OptTable} {now : BitVec 64} {pkt : Bytes}

theorem decrypts_l2UdpReasm {ctx : PacketCryptoCtx} (loads : rx.Loads pkt ctx) :
    Decrypts rx aead ft now pkt (l2UdpReasm aead ctx ft pkt now) := by
  unfold l2UdpReasm
  split
  · exact .dropped
  rename_i p opened
  split
  · rename_i kind
    split
    · exact .datagram loads opened kind
    · exact .dropped
  · generalize result : ft.l2Reassemble p now = r
    obtain ⟨ft', answer⟩ := r
    have table : ft' = (ft.l2Reassemble p now).1 := by rw [result]
    cases answer with
    | failed =>
      rw [table]
      exact .fragment loads opened fun _ _ same => nomatch same
    | held =>
      rw [table]
      exact .fragment loads opened fun _ _ same => nomatch same
    | joined frame =>
      dsimp only
      rw [table]
      refine .fragment loads opened fun packet ids same => ?_
      cases same
      rw [result]
      exact ⟨rfl, fun absent => nomatch absent⟩

theorem decrypts_reassembleL2 {wireId : UInt8}
    (wire : cryptoEthL2ReadPolicyId pkt pkt.length = some wireId) :
    Decrypts rx aead ft now pkt (rx.reassembleL2 aead ft now pkt wireId) := by
  unfold WanRx.reassembleL2
  split
  · exact .dropped
  · rename_i ctx loaded
    split
    · exact .dropped
    · exact decrypts_l2UdpReasm ⟨wireId, wire, loaded⟩

theorem hasMarker_of_wireIsEncrypted (encrypted : rx.wanWireIsEncrypted pkt = true) :
    cryptoEthL2HasMarker pkt pkt.length = true := by
  simp only [WanRx.wanWireIsEncrypted, Bool.or_eq_true] at encrypted
  rcases encrypted with (listed | marker) | tagged
  · exact (Bool.and_eq_true_iff.mp listed).1
  · exact marker
  · exact (Bool.and_eq_true_iff.mp tagged).1

/-- The inner EtherType of a frame with a marker is not that of IPv4 or ARP. -/
theorem not_plainOk_of_marker (marker : cryptoEthL2HasMarker pkt pkt.length = true) :
    wanL2PlainOk pkt = false := by
  unfold cryptoEthL2HasMarker at marker
  split at marker
  · cases marker
  rename_i etOff found
  obtain ⟨known, -, place⟩ := innerEtOff_cases found
  have et : ethReadEt pkt etOff = 0x104A ∨ ethReadEt pkt etOff = 0x104B := by
    rwa [Bool.or_eq_true, beq_iff_eq, beq_iff_eq] at marker
  have ip : ethPIp = 0x0800 := rfl
  have arp : ethPArp = 0x0806 := rfl
  have vlan : ethP8021q = 0x8100 := rfl
  refine Bool.eq_false_iff.mpr fun plain => ?_
  rcases Bool.or_eq_true_iff.mp plain with isIpv4 | isArp
  · obtain ⟨l3Off, offset⟩ := Option.isSome_iff_exists.mp isIpv4
    obtain ⟨etOff', -, found', et', -⟩ := ipv4Offset_some offset
    obtain rfl := Option.some.inj (found.symm.trans found')
    omega
  · obtain ⟨arpOff, offset⟩ := Option.isSome_iff_exists.mp isArp
    obtain ⟨etOff', -, place', et', -⟩ := arpOffset_some offset
    rcases place with rfl | ⟨rfl, tagged⟩
    · rcases place' with rfl | ⟨rfl, tagged'⟩
      · omega
      · omega
    · rcases place' with rfl | ⟨rfl, -⟩
      · omega
      · omega

theorem decrypts_of_decryptL2 {packet : Bytes} (encrypted : rx.wanWireIsEncrypted pkt = true)
    (opened : (rx.decryptL2 aead pkt).filter wanL2PlainOk = some packet) :
    Decrypts rx aead ft now pkt (ft, .plain packet none) := by
  have marker := hasMarker_of_wireIsEncrypted encrypted
  obtain ⟨opened, plain⟩ := Option.filter_eq_some_iff.mp opened
  have itself (same : pkt = packet) : False := by
    rw [← same, not_plainOk_of_marker marker] at plain
    cases plain
  unfold WanRx.decryptL2 at opened
  rw [if_neg (by rw [marker]; decide)] at opened
  split at opened
  · exact (itself (Option.some.inj opened)).elim
  rename_i wireId wire
  split at opened
  · cases opened
  rename_i ctx loaded
  split at opened
  · cases opened
  · obtain ⟨opened, -⟩ := Option.filter_eq_some_iff.mp opened
    unfold l2TcpDecrypt at opened
    split at opened
    · cases opened
    rw [if_neg (by rw [marker]; decide)] at opened
    exact .whole ⟨wireId, wire, loaded⟩ opened

theorem decrypts_decryptWan (encrypted : rx.wanWireIsEncrypted pkt = true) :
    Decrypts rx aead ft now pkt (rx.decryptWan aead ft now pkt) := by
  unfold WanRx.decryptWan
  dsimp only
  rw [if_neg (by rw [encrypted]; decide)]
  split
  · rename_i result tried
    unfold WanRx.wanTryL2PqcUdp at tried
    split at tried
    · cases tried
    split at tried
    · cases tried
    rename_i wireId wire
    split at tried
    · cases tried
    split at tried
    · cases tried
    · cases tried
      exact decrypts_reassembleL2 wire
  split
  · rename_i packet opened
    exact decrypts_of_decryptL2 encrypted opened
  rename_i closed
  split
  · split
    · exact .dropped
    · rename_i wireId wire
      exact decrypts_reassembleL2 wire
  split
  · exact .dropped
  · rename_i unlisted
    rw [Bool.or_eq_true, not_or, Bool.not_eq_true, Bool.not_eq_true] at unlisted
    exact .raw unlisted.1 unlisted.2 closed

/-- The table is fed what was opened, or stays as it is. -/
theorem Decrypts.table {r : OptTable × WanResult} (decrypts : Decrypts rx aead ft now pkt r) :
    r.1 = ft ∨ ∃ ctx p, rx.Loads pkt ctx ∧ l2DoDecryptUdp aead ctx pkt pkt.length = some p ∧
      r.1 = (ft.l2Reassemble p now).1 := by
  cases decrypts with
  | dropped | whole | datagram | raw => exact .inl rfl
  | fragment loads opened => exact .inr ⟨_, _, loads, opened, rfl⟩

end Decrypts

/-! ### The reordering passes packets on -/

namespace Reorder

variable {α : Type*} {w w' : Worker α} {input : Multiset α} {events : List (Event α)} {item : α}

/-- A slot of a flow has the item. -/
def Worker.HasItem (w : Worker α) (item : α) : Prop :=
  ∃ idx i slot, w.slots idx i = some slot ∧ slot.item = item

theorem mem_windowItems_iff {slots : Fin 256 → Option (Slot α)} :
    item ∈ windowItems slots ↔ ∃ i slot, slots i = some slot ∧ slot.item = item := by
  rw [windowItems, Multiset.mem_sum]
  constructor
  · rintro ⟨i, -, mem⟩
    cases here : slots i with
    | none =>
      rw [here] at mem
      cases Multiset.notMem_zero _ mem
    | some slot =>
      rw [here] at mem
      exact ⟨i, slot, here, (Multiset.mem_singleton.mp mem).symm⟩
  · rintro ⟨i, slot, here, same⟩
    refine ⟨i, Finset.mem_univ i, ?_⟩
    rw [here, slotItems_some, same]
    exact Multiset.mem_singleton_self _

theorem Worker.mem_heldItems_iff : item ∈ w.heldItems ↔ w.HasItem item := by
  rw [heldItems, Multiset.mem_sum]
  simp only [Finset.mem_univ, true_and, mem_windowItems_iff, HasItem]

/-- What leaves or stays came in or was there. -/
theorem Worker.Accounts.among (accounts : w.Accounts input events w')
    (here : item ∈ disposedItems events ∨ w'.HasItem item) : item ∈ input ∨ w.HasItem item := by
  rwa [← mem_heldItems_iff, ← Multiset.mem_add, accounts.items, Multiset.mem_add, mem_heldItems_iff]

end Reorder

namespace Edge

variable {n : ℕ} {e : Edge n} {y : WanDraws} {st : WanState} {job : Job} {a : FrameAddr}
  {ring : MidRing} {frame : Bytes}

/-- The context that the call has for its frame. -/
def Loads (e : Edge n) (job : Job) (ctx : PacketCryptoCtx) : Prop :=
  ∃ rx, e.rx = some rx ∧ rx.Loads job.frame ctx

/-- The call opens its frame as a whole packet. -/
def OpensWhole (e : Edge n) (job : Job) (packet : Bytes) : Prop :=
  ∃ ctx, e.Loads job ctx ∧ Unlocks e.aead ctx job.frame ∧
    l2DoDecrypt e.aead ctx job.frame job.frame.length = some packet

/-- The call opens its frame as a datagram or as a part of one. -/
def OpensUdp (e : Edge n) (job : Job) (p : OpenedUdp) : Prop :=
  ∃ ctx, e.Loads job ctx ∧ Unlocks e.aead ctx job.frame ∧
    l2DoDecryptUdp e.aead ctx job.frame job.frame.length = some p

/-- The ways of a call to a packet that it opens. -/
inductive Makes (e : Edge n) (y : WanDraws) (st : WanState) (job : Job) : Bytes → Prop
  | whole {packet : Bytes} (opened : e.OpensWhole job packet) : Makes e y st job packet
  | datagram {p : OpenedUdp} (opened : e.OpensUdp job p) (kind : p.kind = .full) :
      Makes e y st job p.packet
  | joined {p : OpenedUdp} {packet : Bytes} (opened : e.OpensUdp job p)
      (joins : (st.ft.l2Reassemble p y.optNowNs).2 = .joined packet) : Makes e y st job packet

/-- A BYPASS policy is selected for the way back of an IPv4 packet. -/
def PassesPlain (e : Edge n) (job : Job) (frame : Bytes) : Prop :=
  frame = job.frame ∧ cryptoPktIsIpv4 frame frame.length = true ∧
    ∃ t cp, dpParseFlow frame frame.length = some t ∧
      configSelectCryptoPolicy e.cfg 0 t.reversed = some cp ∧ cp.action = .bypass

/-- The port that `forward_wan_to_local` finds. -/
def lanFor (e : Edge n) (frame : Bytes) (ingressWan : Option ℕ) : Option ℕ :=
  (e.mac.lookup (dmacOf frame)).filter e.profileOwnsLocal <|>
    (ingressWan.bind e.macFwdLocalForWanDp).filter e.profileOwnsLocal

/-- A frame with a marker whose wire id no policy has now, that is not tagged as UDP and that nothing
opens, but whose wire id still leads to the profile, where the profile lets every packet in: it goes
to the LAN as it is. -/
structure PassesRaw (e : Edge n) (job : Job) : Prop where
  data : (cryptoEthL2HasArpMarker job.frame || dpPktIsArp job.frame) = false
  marker : cryptoEthL2HasMarker job.frame job.frame.length = true
  unlisted : e.rt.fwdCryptoHasL2Marker job.frame = false
  untagged : wanL2IsUdpTagged job.frame = false
  closed : ∃ rx, e.rx = some rx ∧ (rx.decryptL2 e.aead job.frame).filter wanL2PlainOk = none
  profile : e.wanProfilePi job.frame = true
  policy : (e.cfg.profiles.head?.any fun p => p.policyInAny) = true
  unicast : job.frame.getD 0 0 &&& 0x01 = 0
  port : ∃ li, e.lanFor job.frame (e.ingressWan job) = some li ∧
    e.pushCount (.lan li) job.addr < midRingCap

theorem forwardWanToLocal_pushes {item : WanItem} {a : FrameAddr}
    (pushed : .release a (.ring ring frame) ∈ (e.forwardWanToLocal item).getD []) :
    frame = item.frame ∧ item.frame.getD 0 0 &&& 0x01 = 0 ∧ ∃ li,
      e.lanFor item.frame item.ingressWan = some li ∧ e.pushCount (.lan li) item.addr < midRingCap := by
  unfold forwardWanToLocal at pushed
  split at pushed
  · cases pushed
  rename_i unicast
  dsimp only at pushed
  cases target : e.lanFor item.frame item.ingressWan with
  | none =>
    rw [lanFor] at target
    rw [target] at pushed
    cases pushed
  | some li =>
    rw [lanFor] at target
    rw [target, Option.map_some, Option.getD_some] at pushed
    refine ⟨?_, not_not.mp fun other => unicast (.inr other), li, rfl, ?_⟩
    all_goals
      rcases List.mem_cons.mp pushed with same | pushed
      · cases same
      rcases e.dpRingPush_cases (.lan li) item.addr item.frame with full | ⟨-, space, done⟩
      · rw [full] at pushed
        cases List.mem_singleton.mp pushed
      · rw [done] at pushed
        cases List.mem_singleton.mp pushed
        first
          | rfl
          | exact space

theorem mem_disposed_of_emit {events : List (Reorder.Event WanItem)} {seq : SerialNumber.Seq}
    {item : WanItem} (emitted : .emit seq item true ∈ events) :
    item ∈ Reorder.disposedItems events :=
  Multiset.mem_add.mpr (.inl (Multiset.mem_coe.mpr
    (List.mem_filterMap.mpr ⟨_, emitted, rfl⟩)))

/-- What a submit releases or holds was held, or is the packet. -/
theorem udpReorderSubmit_items {key : Reorder.Key} {epoch seq : BitVec 32} {item other : WanItem}
    (ordered : WanOrdered st)
    (here : other ∈ Reorder.disposedItems (e.udpReorderSubmit y st key epoch seq item).2.1 ∨
      (e.udpReorderSubmit y st key epoch seq item).1.reorder.HasItem other) :
    other = item ∨ st.reorder.HasItem other := by
  unfold udpReorderSubmit at here
  dsimp only at here
  split at here
  · have accounts := ordered.counted.accounts_submit
      (fun item => (e.forwardWanToLocal item).isSome) e.reorder.holdNs key epoch seq item
      y.reorderNowNs
    refine (accounts.among here).imp_left fun new => ?_
    split at new
    · exact Multiset.mem_singleton.mp new
    · cases Multiset.notMem_zero _ new
  · dsimp only at here
    rw [Reorder.disposedItems_itemEmit] at here
    exact here.imp_left Multiset.mem_singleton.mp

theorem udpReorderSubmit_ft {key : Reorder.Key} {epoch seq : BitVec 32} {item : WanItem} :
    (e.udpReorderSubmit y st key epoch seq item).1.ft = st.ft := by
  unfold udpReorderSubmit
  dsimp only
  split
  · rfl
  · rfl

theorem deliver_ft {item : WanItem} {ids : Option (BitVec 32 × BitVec 32)} :
    (e.deliver y st item ids).1.ft = st.ft := by
  unfold deliver
  split
  · split
    · rfl
    · exact udpReorderSubmit_ft
  · split
    · rfl
    · rfl

/-- A packet without a number is not held. -/
theorem deliver_items {item other : WanItem} {ids : Option (BitVec 32 × BitVec 32)}
    (ordered : WanOrdered st) (held : (e.deliver y st item ids).1.reorder.HasItem other) :
    other = item ∧ ids ≠ none ∨ st.reorder.HasItem other := by
  unfold deliver at held
  split at held
  · split at held
    · exact .inr held
    · exact (udpReorderSubmit_items ordered (.inr held)).imp_left fun new =>
        ⟨new, fun absent => nomatch absent⟩
  · split at held
    · exact .inr held
    · exact .inr held

/-! ### What a call passes on -/

theorem wireIsEncrypted_rx {rx : WanRx n} (worker : e.rx = some rx) :
    rx.wanWireIsEncrypted = e.wireIsEncrypted ∧ rx.rt = e.rt := by
  obtain ⟨w, -, rfl⟩ := Option.map_eq_some_iff.mp worker
  exact ⟨rfl, rfl⟩

/-- A packet was opened, or it is the frame itself and has no number. -/
theorem makes_of_decrypts {rx : WanRx n} {ft : OptTable} {packet : Bytes}
    {ids : Option (BitVec 32 × BitVec 32)} (worker : e.rx = some rx)
    (decrypts : Decrypts rx e.aead st.ft y.optNowNs job.frame (ft, .plain packet ids)) :
    e.Makes y st job packet ∨ packet = job.frame ∧ ids = none ∧
      rx.rt.fwdCryptoHasL2Marker job.frame = false ∧ wanL2IsUdpTagged job.frame = false ∧
        (rx.decryptL2 e.aead job.frame).filter wanL2PlainOk = none := by
  cases decrypts with
  | @whole ctx _ loads opened =>
    exact .inl (.whole ⟨ctx, ⟨rx, worker, loads⟩, unlocks_of_l2DoDecrypt opened, opened⟩)
  | @datagram ctx p loads opened kind =>
    exact .inl (.datagram ⟨ctx, ⟨rx, worker, loads⟩, unlocks_of_l2DoDecryptUdp opened, opened⟩
      kind)
  | @fragment ctx p _ loads opened joins =>
    exact .inl (.joined ⟨ctx, ⟨rx, worker, loads⟩, unlocks_of_l2DoDecryptUdp opened, opened⟩
      (joins _ _ rfl).1)
  | raw unlisted untagged closed => exact .inr ⟨rfl, rfl, unlisted, untagged, closed⟩

/-- A packet without a number is forwarded at once. -/
theorem forwarded_of_unnumbered {rx : WanRx n} {ft : OptTable} {packet : Bytes}
    (data : (cryptoEthL2HasArpMarker job.frame || dpPktIsArp job.frame) = false)
    (worker : e.rx = some rx)
    (made : rx.decryptWan e.aead st.ft y.optNowNs job.frame = (ft, .plain packet none))
    (encrypted : e.wireIsEncrypted job.frame = true)
    (pushed : .release a (.ring ring frame) ∈ (e.dataplaneProcessWan y st job).2.1) :
    .release a (.ring ring frame) ∈ (e.forwardWanToLocal
      ⟨job.addr, e.wanClampTcpMss packet, e.ingressWan job⟩).getD [] := by
  have dropped (mem : .release a (.ring ring frame) ∈
      ([.use job.addr, .release job.addr .pool] : List FrameEvent)) : False := by
    simp only [List.mem_cons, List.not_mem_nil, reduceCtorEq, or_false, Event.release.injEq,
      and_false] at mem
  unfold dataplaneProcessWan at pushed
  dsimp only at pushed
  split at pushed
  · cases List.mem_singleton.mp pushed
  rw [data, if_neg Bool.false_ne_true] at pushed
  split at pushed
  · exact (dropped pushed).elim
  unfold processEncrypted at pushed
  rw [worker] at pushed
  dsimp only at pushed
  rw [made] at pushed
  dsimp only at pushed
  split at pushed
  · exact (dropped pushed).elim
  rcases List.mem_cons.mp pushed with same | mem
  · cases same
  unfold deliver at mem
  dsimp only at mem
  split at mem
  · exact (dropped mem).elim
  · rename_i events forwarded
    rw [forwarded]
    exact mem

/-- A frame with a marker has no flow. -/
theorem flow_of_marker {pkt : Bytes} (marker : cryptoEthL2HasMarker pkt pkt.length = true) :
    dpParseFlow pkt pkt.length = none := by
  have noIp := (Bool.or_eq_false_iff.mp (not_plainOk_of_marker marker)).1
  rw [dpParseFlow, Option.not_isSome_iff_eq_none.mp (Bool.eq_false_iff.mp noIp)]

/-- A call hands on what it opens, what the reordering releases, what a BYPASS policy lets through,
or the frame as it is. -/
inductive Passes (e : Edge n) (y : WanDraws) (st : WanState) (job : Job) (frame : Bytes) : Prop
  | arp (isArp : (cryptoEthL2HasArpMarker job.frame || dpPktIsArp job.frame) = true)
  | opened {packet : Bytes} (makes : e.Makes y st job packet)
      (same : frame = e.wanClampTcpMss packet)
  | released {item : WanItem} (held : st.reorder.HasItem item) (same : frame = item.frame)
  | plain (passes : e.PassesPlain job frame)
  | raw (passes : e.PassesRaw job)

theorem passes_of_mem (ordered : WanOrdered st)
    (pushed : .release a (.ring ring frame) ∈ (e.dataplaneProcessWan y st job).2.1) :
    e.Passes y st job frame := by
  cases pushedFromWan_of_mem pushed with
  | arp isArp => exact .arp isArp
  | plain _ clear ip profile same =>
    rw [wireIsEncrypted, Bool.or_eq_false_iff, Bool.or_eq_false_iff] at clear
    rw [wireBuf, if_neg (by rw [clear.2]; decide), wanProfilePi, clear.1.1, clear.1.2,
      if_neg (by decide)] at profile
    obtain ⟨-, found⟩ := Bool.and_eq_true_iff.mp profile
    obtain ⟨t, flow, found⟩ := (Option.any_eq_true _ _).mp found
    obtain ⟨cp, selected, bypasses⟩ := (Option.any_eq_true _ _).mp found
    exact .plain ⟨same, same ▸ ip, t, cp, same ▸ flow, selected, beq_iff_eq.mp bypasses⟩
  | @decrypted rx ft packet ids data encrypted worker made profile policy delivered =>
    obtain ⟨sameWire, sameRt⟩ := wireIsEncrypted_rx worker
    have wire : rx.wanWireIsEncrypted job.frame = true := by rwa [sameWire]
    have decrypts : Decrypts rx e.aead st.ft y.optNowNs job.frame (ft, .plain packet ids) :=
      made ▸ decrypts_decryptWan wire
    rcases makes_of_decrypts worker decrypts with makes | ⟨rfl, rfl, unlisted, untagged, closed⟩
    · cases delivered with
      | itself _ same => exact .opened makes same
      | released numbered flow udp emitted same =>
        have ordered' : WanOrdered { st with ft := ft } := ⟨ordered.counted, ordered.placed⟩
        rcases udpReorderSubmit_items ordered' (.inl (mem_disposed_of_emit emitted)) with
          rfl | held
        · exact .opened makes same
        · exact .released held same
    · have marker := hasMarker_of_wireIsEncrypted wire
      have flow := flow_of_marker marker
      have unclamped : e.wanClampTcpMss job.frame = job.frame := by
        rw [wanClampTcpMss, flow]
        simp
      have forwarded := forwarded_of_unnumbered data worker made encrypted pushed
      rw [unclamped] at forwarded
      obtain ⟨-, unicast, port⟩ := forwardWanToLocal_pushes forwarded
      rw [wireBuf, untagged, if_neg Bool.false_ne_true] at profile
      rw [wanPolicyIn, flow, Option.any_none, Bool.or_false] at policy
      rw [sameRt] at unlisted
      exact .raw ⟨data, marker, unlisted, untagged, ⟨rx, worker, closed⟩, profile, policy, unicast,
        port⟩

/-! ### What a call keeps -/

/-- The ways of a call to the state that it leaves. -/
inductive Keeps (e : Edge n) (y : WanDraws) (st : WanState) (job : Job) : WanState → Prop
  | same : Keeps e y st job st
  | table {rx : WanRx n} {ft : OptTable} {result : WanResult} (worker : e.rx = some rx)
      (wire : rx.wanWireIsEncrypted job.frame = true)
      (made : rx.decryptWan e.aead st.ft y.optNowNs job.frame = (ft, result)) :
      Keeps e y st job { st with ft := ft }
  | delivered {rx : WanRx n} {ft : OptTable} {packet : Bytes}
      {ids : Option (BitVec 32 × BitVec 32)} (worker : e.rx = some rx)
      (wire : rx.wanWireIsEncrypted job.frame = true)
      (made : rx.decryptWan e.aead st.ft y.optNowNs job.frame = (ft, .plain packet ids)) :
      Keeps e y st job (e.deliver y { st with ft := ft }
        ⟨job.addr, e.wanClampTcpMss packet, e.ingressWan job⟩ ids).1

theorem deliver_unnumbered {item : WanItem} : (e.deliver y st item none).1 = st := by
  unfold deliver
  dsimp only
  split
  · rfl
  · rfl

theorem keeps_processWan (e : Edge n) (y : WanDraws) (st : WanState) (job : Job) :
    Keeps e y st job (e.dataplaneProcessWan y st job).1 := by
  unfold dataplaneProcessWan
  dsimp only
  split
  · exact .same
  split
  · split
    · exact .same
    · exact .same
    · exact .same
  split
  · rename_i encrypted
    split
    · exact .same
    unfold processEncrypted
    split
    · exact .same
    rename_i rx worker
    have wire : rx.wanWireIsEncrypted job.frame = true := by
      rwa [(wireIsEncrypted_rx worker).1]
    split
    · rename_i made
      exact .table worker wire made
    · rename_i made
      exact .table worker wire made
    · rename_i made
      dsimp only
      split
      · exact .table worker wire made
      · exact .delivered worker wire made
  split
  · exact .same
  · rw [deliver_unnumbered]
    exact .same

theorem Keeps.ft {st' : WanState} (keeps : Keeps e y st job st') :
    st'.ft = st.ft ∨
      ∃ p, e.OpensUdp job p ∧ st'.ft = (st.ft.l2Reassemble p y.optNowNs).1 := by
  have table {rx : WanRx n} {ft : OptTable} {result : WanResult} (worker : e.rx = some rx)
      (wire : rx.wanWireIsEncrypted job.frame = true)
      (made : rx.decryptWan e.aead st.ft y.optNowNs job.frame = (ft, result)) :
      ft = st.ft ∨ ∃ p, e.OpensUdp job p ∧ ft = (st.ft.l2Reassemble p y.optNowNs).1 := by
    have decrypts : Decrypts rx e.aead st.ft y.optNowNs job.frame (ft, result) :=
      made ▸ decrypts_decryptWan wire
    rcases decrypts.table with same | ⟨ctx, p, loads, opened, fed⟩
    · exact .inl same
    · exact .inr ⟨p, ⟨ctx, ⟨rx, worker, loads⟩, unlocks_of_l2DoDecryptUdp opened, opened⟩, fed⟩
  cases keeps with
  | same => exact .inl rfl
  | table worker wire made => exact table worker wire made
  | @delivered rx ft packet ids worker wire made =>
    rw [deliver_ft]
    exact table worker wire made

/-- What is held after a call was held before, or was opened by it. -/
theorem Keeps.items {st' : WanState} {item : WanItem} (ordered : WanOrdered st)
    (keeps : Keeps e y st job st') (held : st'.reorder.HasItem item) :
    st.reorder.HasItem item ∨
      ∃ packet, e.Makes y st job packet ∧ item.frame = e.wanClampTcpMss packet := by
  cases keeps with
  | same => exact .inl held
  | table => exact .inl held
  | @delivered rx ft packet ids worker wire made =>
    have ordered' : WanOrdered { st with ft := ft } := ⟨ordered.counted, ordered.placed⟩
    have decrypts : Decrypts rx e.aead st.ft y.optNowNs job.frame (ft, .plain packet ids) :=
      made ▸ decrypts_decryptWan wire
    rcases deliver_items ordered' held with ⟨rfl, numbered⟩ | old
    · rcases makes_of_decrypts worker decrypts with makes | ⟨-, absent, -⟩
      · exact .inr ⟨packet, makes, rfl⟩
      · exact absurd absent numbered
    · exact .inl old

end Edge

end NeEncryptor
