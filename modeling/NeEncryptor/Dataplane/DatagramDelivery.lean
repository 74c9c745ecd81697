import NeEncryptor.Dataplane.EndToEnd

/-!
# Datagrams between two appliances

A UDP packet leaves in one frame or in two.  However its frames come, the worker of the peer submits
the packet to the reordering once, with the numbers that its sender gave it.
-/

namespace NeEncryptor

open Buffer Custody

namespace Edge

variable {n m : ℕ} {s : Edge n} {x : LocalDraws} {lan : Job} {t : FiveTuple}
  {ctx : PacketCryptoCtx} {d : ℕ}

/-! ### On the wire -/

/-- A frame with the marker of UDP in the clear. -/
def IsWire (wireId : UInt8) (frame : Bytes) : Prop :=
  ∃ (pkt nonce cipher : Bytes) (worker : UInt8) (pktLen etOff : ℕ),
    cryptoEthInnerEtOff pkt pktLen = some etOff ∧ etOff ≤ pkt.length ∧
      nonce.length = l2NonceSize ∧ 29 ≤ cipher.length ∧
      frame = wireFrame (pkt.take etOff) wireId worker nonce cipher

/-- The two frames of a packet that was split, as the receiver opens them. -/
theorem opened_parts {aead : Aead} {ctx : PacketCryptoCtx} {worker : UInt8} {mtu pktLen : ℕ}
    {nonce1 nonce0 : Option Nonce} {ids : UdpMeta} {pkt tail frame0 frame1 : Bytes}
    (fits : pktLen ≤ pkt.length) (short : pktLen ≤ 1518)
    (split : l2Split aead ctx worker nonce1 nonce0 mtu (some ids) pkt pktLen tail =
      some (frame0, frame1)) :
    ∃ (p q : OpenedUdp) (eth plain plain' : Bytes), p.kind = .frag0 ∧ q.kind = .frag1 ∧
      p.ids = ids ∧ q.ids = ids ∧ p.Parts eth plain ∧ q.Parts eth plain' ∧
      plain.length + plain'.length + eth.length ≤ neFrame ∧
      cryptoEthSetIpv4Et (eth ++ plain ++ plain') (eth.length - 2) = pkt.take pktLen ∧
      IsWire ctx.wireId frame0 ∧ IsWire ctx.wireId frame1 ∧
      (∀ rctx, SameKey aead rctx ctx.keys.current frame0 →
        l2DoDecryptUdp aead rctx frame0 frame0.length = some p) ∧
      ∀ rctx, SameKey aead rctx ctx.keys.current frame1 →
        l2DoDecryptUdp aead rctx frame1 frame1.length = some q := by
  obtain ⟨etOff, k, n0, n1, cipher0, cipher1, found, ip, point, encrypted0, encrypted1, -, -, rfl,
    rfl⟩ := l2Split_some split
  obtain ⟨version, header, first, both⟩ := splitPoint_some point
  have small : etOff ≤ 16 := by
    have place := (innerEtOff_cases found).2.2
    omega
  have inside : etOff ≤ pkt.length := by omega
  have frameSize : neFrame = 2048 := rfl
  have length0 : (slice pkt (etOff + 2) k).length = k := length_slice (by omega)
  have length1 : (slice pkt (etOff + 2 + k) (pktLen - (etOff + 2) - k)).length =
      pktLen - (etOff + 2) - k := length_slice (by omega)
  have byte : (slice pkt (etOff + 2) k).getD 0 0 = pkt.getD (etOff + 2) 0 := by
    rw [slice, List.getD_eq_getElem?_getD, List.getElem?_take_of_lt (by omega),
      List.getElem?_drop, List.getD_eq_getElem?_getD]
  have taken : (pkt.take etOff).length = etOff := by
    rw [List.length_take, Nat.min_eq_left inside]
  have sealed0 := aead.length_encrypt encrypted0
  have sealed1 := aead.length_encrypt encrypted1
  rw [List.length_append, length_l2UdpWriteShim, l2UdpShimSize] at sealed0 sealed1
  have eth : (pkt.take etOff ++ [0x10, 0x4B]).length = etOff + 2 := by
    rw [List.length_append, taken]
    rfl
  refine ⟨⟨_, .frag0, ids⟩, ⟨_, .frag1, ids⟩, _, _, _, rfl, rfl, rfl, rfl,
    @parts_fragment .frag0 ids pkt (slice pkt (etOff + 2) k) pktLen etOff (by decide)
      found inside (by omega) (fun _ => ⟨by omega, by rw [byte]; exact version,
        by rw [byte]; exact header, by rw [byte]; omega⟩),
    @parts_fragment .frag1 ids pkt (slice pkt (etOff + 2 + k) (pktLen - (etOff + 2) - k)) pktLen
      etOff (by decide) found inside (by omega) (fun kind => by cases kind),
    by rw [length0, length1, eth]; omega, ?_,
    ⟨pkt, _, cipher0, worker, pktLen, etOff, found, inside, n0.length_toList, by omega, rfl⟩,
    ⟨pkt, _, cipher1, worker, pktLen, etOff, found, inside, n1.length_toList, by omega, rfl⟩,
    fun _ same => opened_sealed n0.length_toList found inside (by omega) encrypted0 same,
    fun _ same => opened_sealed n1.length_toList found inside (by omega) encrypted1 same⟩
  rw [eth, Nat.add_sub_cancel, List.append_assoc, cryptoEthSetIpv4Et]
  have swapped := @blit_append _ [0x08, 0x00] (pkt.take etOff) [0x10, 0x4B]
    (slice pkt (etOff + 2) k ++ slice pkt (etOff + 2 + k) (pktLen - (etOff + 2) - k)) rfl
  rw [taken] at swapped
  rw [swapped, take_eq_parts ip fits (by omega)]

/-- The ways of a datagram to a WAN: not at all, in one frame, or in two. -/
inductive Sends (s : Edge n) (x : LocalDraws) (lan : Job) (ctx : PacketCryptoCtx) : List Bytes → Prop
  | nothing : Sends s x lan ctx []
  | whole {ids : UdpMeta} {frame : Bytes} (numbered : x.ids = some ids)
      (made : l2DoEncryptUdp s.aead ctx s.coreIdx x.nonce (some ids) lan.buffer lan.len =
        some frame) : Sends s x lan ctx [frame]
  | parts {ids : UdpMeta} {frame0 frame1 : Bytes} {tail : FrameAddr × Bytes}
      (numbered : x.ids = some ids) (taken : x.tail = some tail)
      (made : l2Split s.aead ctx s.coreIdx x.nonce x.nonce0 (cryptoOptionGetMtu s.fragMtu).toNat
        (some ids) lan.buffer lan.len tail.2 = some (frame0, frame1)) :
      Sends s x lan ctx [frame0, frame1]

theorem sends_encryptFromLocal {pi : ℕ} (loaded : s.fwdCryptoPolicyCtx pi = some ctx)
    (ip : cryptoPktIsIpv4 lan.buffer lan.len = true) :
    Sends s x lan ctx ((wanPushes (s.encryptFromLocal x lan pi d 17)).map Prod.snd) := by
  have udp : cryptoProtoClassify 17 = .udp := rfl
  have buffer : egressBuffer lan 17 = lan.buffer := rfl
  unfold encryptFromLocal
  split
  · exact .nothing
  rw [loaded]
  dsimp only
  rw [udp, buffer]
  cases numbered : x.ids with
  | none =>
    rw [encryptToWan, if_pos ⟨rfl, numbered⟩]
    exact .nothing
  | some ids =>
    have given : ¬(ProtoClass.udp = ProtoClass.udp ∧ x.ids = none) := fun absent => by
      rw [numbered] at absent
      cases absent.2
    by_cases needs : cryptoOptionNeedSplit s.fragMtu .udp lan.len = true
    · rw [encryptToWan, if_neg given, if_pos needs]
      cases taken : x.tail with
      | none =>
        rw [ite_self]
        exact .nothing
      | some tail =>
        by_cases outside : s.worker.isNone = true
        · rw [if_pos outside]
          exact .nothing
        · rw [if_neg outside]
          dsimp only
          cases made : l2Split s.aead ctx s.coreIdx x.nonce x.nonce0
              (cryptoOptionGetMtu s.fragMtu).toNat x.ids lan.buffer lan.len tail.2 with
          | none => exact .nothing
          | some frames =>
            obtain ⟨frame0, frame1⟩ := frames
            dsimp only
            rcases s.pushSplitToWan_cases lan.addr tail.1 frame0 frame1 d with full | both
            · rw [full]
              exact .nothing
            · rw [both]
              exact .parts numbered taken (numbered ▸ made)
    · rw [encryptToWan, if_neg given, if_neg needs]
      cases made : cryptoOptionEncrypt s.aead ctx s.coreIdx x.nonce x.ids .udp lan.buffer
          lan.len with
      | none => exact .nothing
      | some frame =>
        have sealedUdp : l2DoEncryptUdp s.aead ctx s.coreIdx x.nonce (some ids) lan.buffer lan.len =
            some frame := by
          have made : l2UdpEncrypt s.aead ctx s.coreIdx x.nonce lan.buffer lan.len x.ids =
            some frame := made
          unfold l2UdpEncrypt at made
          split at made
          · cases made
          · rw [ip, numbered] at made
            exact made
        dsimp only
        rw [wanPushes_append, wanPushes_use, wanPushes_use, wanPushes_nil, List.nil_append]
        rcases s.dpRingPush_cases (.wan d) lan.addr frame with full | ⟨-, -, done⟩
        · rw [full]
          exact .nothing
        · rw [done]
          exact .whole numbered sealedUdp

/-- What the sender pushes for a datagram. -/
theorem Governs.sends (governs : s.Governs lan t ctx) (udp : t.protocol = 17) :
    Sends s x lan ctx ((wanPushes (s.dataplaneProcessLocal x lan)).map Prod.snd) := by
  obtain ⟨pi, cp, picked, encrypts, loaded⟩ := governs.policy
  have ip : cryptoPktIsIpv4 lan.buffer lan.len = true := by
    obtain ⟨etOff, ip, -⟩ := governs.ip
    have same : cryptoEthIpv4Offset lan.buffer lan.len = cryptoEthIpv4Offset lan.frame lan.len :=
      governs.ipv4Offset_egress 17
    rw [cryptoPktIsIpv4, same, ip]
    rfl
  unfold dataplaneProcessLocal
  dsimp only
  rw [dpPktIsArp_of_flow governs.flow, if_neg (by decide), governs.flow, picked, wanPushes_use]
  dsimp only
  split
  · exact .nothing
  · rw [if_neg encrypts, udp]
    exact sends_encryptFromLocal loaded ip

/-! ### At the receiver -/

section Receive

variable {r : Edge m} {w : Fin m} {rctx : PacketCryptoCtx} {st : WanState} {job : Job}
  {y : WanDraws} {frame frame0 frame1 : Bytes} {ids : UdpMeta}

/-- The flow of a datagram in the reordering. -/
def reorderKey (t : FiveTuple) : Reorder.Key := ⟨t.srcIp, t.dstIp, t.srcPort, t.dstPort⟩

/-- A datagram goes to the reordering, with the numbers that its sender gave it. -/
def submitted (r : Edge m) (y : WanDraws) (st : WanState) (t : FiveTuple) (ids : UdpMeta)
    (item : WanItem) : WanState × List FrameEvent × Bool :=
  let done := r.udpReorderSubmit y st (reorderKey t) ids.epoch ids.seq item
  (done.1, .use item.addr :: .use item.addr :: done.2.1.flatMap r.reorderTrace, done.2.2)

/-- What a worker needs to take the datagram of a sender. -/
structure Takes (r : Edge m) (w : Fin m) (rctx : PacketCryptoCtx) (s : Edge n)
    (ctx : PacketCryptoCtx) (lan : Job) : Prop where
  cipher : r.aead = s.aead
  peered : r.Peered w ctx.wireId rctx ctx.keys.current
  policy : r.wanPolicyIn lan.frame = true

/-- An opened datagram is submitted as it was. -/
theorem Takes.submits {hdr nonce body : Bytes} (takes : r.Takes w rctx s ctx lan) (ft : OptTable)
    (flow : dpParseFlow lan.frame lan.len = some t) (udp : t.protocol = 17)
    (headed : Headed job.frame hdr nonce body 0x4B ctx.wireId)
    (made : (r.rxOf w).decryptWan r.aead st.ft y.optNowNs job.frame =
      (ft, .plain lan.frame (some (ids.epoch, ids.seq)))) :
    r.dataplaneProcessWan y st job =
      r.submitted y { st with ft := ft } t ids ⟨job.addr, lan.frame, r.ingressWan job⟩ := by
  have flow' : dpParseFlow lan.frame lan.frame.length = some t := by
    rw [length_frame]
    exact flow
  have clamp : r.wanClampTcpMss lan.frame = lan.frame :=
    wanClampTcpMss_of_ne flow' (by rw [udp]; decide)
  have isUdp : (dpParseFlow lan.frame lan.frame.length).filter (fun t => t.protocol = 17) =
      some t := by
    rw [flow', Option.filter_some_pos (by exact decide_eq_true udp)]
  rw [takes.peered.opened headed made takes.policy, clamp, deliver]
  dsimp only
  rw [isUdp]
  rfl

theorem headed_wire {pkt nonce cipher : Bytes} {wireId worker : UInt8} {pktLen etOff : ℕ}
    (found : cryptoEthInnerEtOff pkt pktLen = some etOff) (inside : etOff ≤ pkt.length)
    (size : nonce.length = l2NonceSize) :
    Headed (wireFrame (pkt.take etOff) wireId worker nonce cipher) (pkt.take etOff) nonce
      (l2UdpMarker ++ cipher) 0x4B wireId := by
  rw [wireFrame_eq_headed]
  exact headed_headedFrame found inside (.inr rfl) size

/-- A datagram in one frame. -/
theorem Takes.whole (takes : r.Takes w rctx s ctx lan) (y : WanDraws) (st : WanState)
    (flow : dpParseFlow lan.frame lan.len = some t) (udp : t.protocol = 17)
    (made : l2DoEncryptUdp s.aead ctx s.coreIdx x.nonce (some ids) lan.buffer lan.len = some frame)
    (same : SameKey s.aead rctx ctx.keys.current frame) (arrives : job.frame = frame) :
    r.dataplaneProcessWan y st job =
      r.submitted y st t ids ⟨job.addr, lan.frame, r.ingressWan job⟩ := by
  have fits : lan.len ≤ lan.buffer.length := lan.size.symm ▸ lan.fits
  obtain ⟨etOff, k, cipher, found, -, -, -, -, wire⟩ := l2DoEncryptUdp_some made
  have inside := (innerEtOff_cases found).2.1
  have headed : Headed job.frame (lan.buffer.take etOff) k.toList (l2UdpMarker ++ cipher) 0x4B
      ctx.wireId := by
    rw [arrives, wire]
    exact headed_wire found (by omega) k.length_toList
  refine takes.submits st.ft flow udp headed ?_
  rw [takes.cipher, arrives]
  exact full_restored takes.peered.has fits lan.size.le made same

/-- A fragment goes to the table. -/
theorem Takes.fragment (takes : r.Takes w rctx s ctx lan) (y : WanDraws) (st : WanState)
    (wire : IsWire ctx.wireId job.frame) :
    (∃ hdr nonce body, Headed job.frame hdr nonce body 0x4B ctx.wireId) ∧
      (r.rxOf w).decryptWan r.aead st.ft y.optNowNs job.frame =
        l2UdpReasm s.aead rctx st.ft job.frame y.optNowNs := by
  obtain ⟨pkt, nonce, cipher, worker, pktLen, etOff, found, inside, size, long, same⟩ := wire
  refine ⟨⟨_, _, _, same ▸ headed_wire found inside size⟩, ?_⟩
  rw [takes.cipher, same]
  exact takes.peered.has.decryptWan_wire found inside size long

/-- The fragment that comes first waits. -/
theorem Takes.waits (takes : r.Takes w rctx s ctx lan) (y : WanDraws) (st : WanState)
    (wire : IsWire ctx.wireId job.frame) {p : OpenedUdp} (fragment : p.kind ≠ .full)
    (opened : l2DoDecryptUdp s.aead rctx job.frame job.frame.length = some p) {ft : OptTable}
    (held : st.ft.l2Reassemble p y.optNowNs = (ft, .held)) :
    r.dataplaneProcessWan y st job =
      ({ st with ft := ft }, [.use job.addr, .release job.addr .pool], true) := by
  obtain ⟨⟨hdr, nonce, body, headed⟩, made⟩ := takes.fragment y st wire
  refine takes.peered.held headed ?_
  rw [made, l2UdpReasm, opened]
  dsimp only
  rw [if_neg fragment, held]

/-- The fragment that comes second brings the datagram. -/
theorem Takes.joins (takes : r.Takes w rctx s ctx lan) (y : WanDraws) (st : WanState)
    (wire : IsWire ctx.wireId job.frame) (flow : dpParseFlow lan.frame lan.len = some t)
    (udp : t.protocol = 17) {p : OpenedUdp}
    (fragment : p.kind ≠ .full) (same : p.ids = ids)
    (opened : l2DoDecryptUdp s.aead rctx job.frame job.frame.length = some p)
    (joined : (st.ft.l2Reassemble p y.optNowNs).2 = .joined lan.frame) :
    r.dataplaneProcessWan y st job = r.submitted y
      { st with ft := (st.ft.l2Reassemble p y.optNowNs).1 } t ids
      ⟨job.addr, lan.frame, r.ingressWan job⟩ := by
  obtain ⟨⟨hdr, nonce, body, headed⟩, made⟩ := takes.fragment y st wire
  refine takes.submits _ flow udp headed ?_
  rw [made, l2UdpReasm, opened]
  dsimp only
  rw [if_neg fragment]
  generalize st.ft.l2Reassemble p y.optNowNs = result at joined ⊢
  obtain ⟨ft, answer⟩ := result
  obtain rfl : answer = .joined lan.frame := joined
  rw [same]

end Receive

/-! ### Both ends -/

/-- The calls of a worker, each once the one before it has returned. -/
def runWan (st : WanState) : List (WanCall m) → WanState × List FrameEvent × Bool
  | [] => (st, [], true)
  | c :: rest =>
    let (st, events, returned) := c.edge.dataplaneProcessWan c.draws st c.job
    if returned then
      let (st, more, returned) := runWan st rest
      (st, events ++ more, returned)
    else (st, events, false)

theorem runWan_singleton (st : WanState) (c : WanCall m) :
    (runWan st [c]).1 = (c.edge.dataplaneProcessWan c.draws st c.job).1 ∧
      (runWan st [c]).2.1 = (c.edge.dataplaneProcessWan c.draws st c.job).2.1 ∧
      (runWan st [c]).2.2 = (c.edge.dataplaneProcessWan c.draws st c.job).2.2 := by
  rw [runWan]
  dsimp only
  split
  · rename_i returned
    exact ⟨rfl, List.append_nil _, returned.symm⟩
  · rename_i stuck
    exact ⟨rfl, rfl, (Bool.eq_false_iff.mpr stuck).symm⟩

/-- A worker that takes the datagrams of a sender, and whose other keys do not open the frame. -/
def TakesFrom (s : Edge n) (ctx : PacketCryptoCtx) (lan : Job) (c : WanCall m) : Prop :=
  ∃ w rctx, c.edge.Takes w rctx s ctx lan ∧ SameKey s.aead rctx ctx.keys.current c.job.frame

/-- What a call makes of a datagram that it brings. -/
def submittedBy (c : WanCall m) (st : WanState) (t : FiveTuple) (ids : UdpMeta) (packet : Bytes) :
    WanState × List FrameEvent × Bool :=
  c.edge.submitted c.draws st t ids ⟨c.job.addr, packet, c.edge.ingressWan c.job⟩

variable {st : WanState} {ids : UdpMeta}

/-- Two fragments in either order bring the datagram. -/
theorem runWan_fragments {a b : WanCall m} {p q : OpenedUdp} {w w' : Fin m}
    {rctx rctx' : PacketCryptoCtx} (takes : a.edge.Takes w rctx s ctx lan)
    (takes' : b.edge.Takes w' rctx' s ctx lan)
    (flow : dpParseFlow lan.frame lan.len = some t) (udp : t.protocol = 17)
    (wire : IsWire ctx.wireId a.job.frame) (wire' : IsWire ctx.wireId b.job.frame)
    (fragment : p.kind ≠ .full) (fragment' : q.kind ≠ .full) (same : q.ids = ids)
    (opened : l2DoDecryptUdp s.aead rctx a.job.frame a.job.frame.length = some p)
    (opened' : l2DoDecryptUdp s.aead rctx' b.job.frame b.job.frame.length = some q)
    (joined : ∃ ft, st.ft.l2Reassemble p a.draws.optNowNs = (ft, .held) ∧
      (ft.l2Reassemble q b.draws.optNowNs).2 = .joined lan.frame) :
    ∃ ft, (runWan st [a, b]).1 = (submittedBy b { st with ft := ft } t ids lan.frame).1 ∧
      portPushes (runWan st [a, b]).2.1 =
        portPushes (submittedBy b { st with ft := ft } t ids lan.frame).2.1 ∧
      (runWan st [a, b]).2.2 = (submittedBy b { st with ft := ft } t ids lan.frame).2.2 := by
  obtain ⟨ft, held, joined⟩ := joined
  have first := takes.waits a.draws st wire fragment opened held
  have second := takes'.joins b.draws { st with ft := ft } wire' flow udp fragment' same opened'
    joined
  obtain ⟨state, events, returned⟩ := runWan_singleton { st with ft := ft } b
  refine ⟨(ft.l2Reassemble q b.draws.optNowNs).1, ?_⟩
  rw [runWan, first]
  dsimp only
  rw [if_pos rfl, portPushes_append, state, events, returned, second]
  exact ⟨rfl, rfl, rfl⟩

theorem eq_pair_of_perm {α : Type*} {l : List α} {a b : α} (perm : l.Perm [a, b]) :
    l = [a, b] ∨ l = [b, a] := by
  obtain ⟨c, d, rfl⟩ := List.length_eq_two.mp perm.length_eq
  rcases List.mem_pair.mp (perm.subset List.mem_cons_self) with rfl | rfl
  · rw [List.perm_singleton.mp ((List.perm_cons c).mp perm)]
    exact .inl rfl
  · rw [List.perm_singleton.mp ((List.perm_cons c).mp (perm.trans (.swap ..)))]
    exact .inr rfl

/-- However the frames of a datagram come, whole or in two parts in either order, the worker submits
the datagram once, as it was and with the numbers that its sender gave it. -/
theorem delivered_datagram (governs : s.Governs lan t ctx) (udp : t.protocol = 17)
    (short : lan.len ≤ 1518) (numbered : x.ids = some ids)
    (sent : wanPushes (s.dataplaneProcessLocal x lan) ≠ []) {calls : List (WanCall m)}
    (arrive : (calls.map fun c => c.job.frame).Perm
      ((wanPushes (s.dataplaneProcessLocal x lan)).map Prod.snd))
    (takes : ∀ c ∈ calls, TakesFrom s ctx lan c) (absent : st.ft.Absent ids.epoch ids.datagramId)
    (soon : calls.Pairwise fun a b =>
      (b.draws.optNowNs - a.draws.optNowNs).toNat ≤ optFragTimeoutNs) :
    ∃ last ∈ calls, ∃ ft, (runWan st calls).1 =
        (submittedBy last { st with ft := ft } t ids lan.frame).1 ∧
      portPushes (runWan st calls).2.1 =
        portPushes (submittedBy last { st with ft := ft } t ids lan.frame).2.1 ∧
      (runWan st calls).2.2 = (submittedBy last { st with ft := ft } t ids lan.frame).2.2 := by
  have frames := governs.sends (x := x) udp
  have nonempty : (wanPushes (s.dataplaneProcessLocal x lan)).map Prod.snd ≠ [] := by
    simpa using sent
  have fits : lan.len ≤ lan.buffer.length := lan.size.symm ▸ lan.fits
  generalize (wanPushes (s.dataplaneProcessLocal x lan)).map Prod.snd = pushed at frames arrive nonempty
  cases frames with
  | nothing => exact absurd rfl nonempty
  | whole numbered' made =>
    obtain rfl := Option.some.inj (numbered.symm.trans numbered')
    obtain ⟨c, rfl, same⟩ := List.map_eq_singleton_iff.mp (List.perm_singleton.mp arrive)
    obtain ⟨w, rctx, taken, key⟩ := takes c List.mem_cons_self
    have done := taken.whole c.draws st governs.flow udp made (same ▸ key) same
    obtain ⟨state, events, returned⟩ := runWan_singleton st c
    refine ⟨c, List.mem_cons_self, st.ft, ?_⟩
    rw [state, events, returned, done]
    exact ⟨rfl, rfl, rfl⟩
  | @parts ids' frame0 frame1 tail numbered' taken made =>
    obtain rfl := Option.some.inj (numbered.symm.trans numbered')
    obtain ⟨p, q, eth, plain, plain', first, second, idsP, idsQ, partsP, partsQ, room, whole, wire0,
      wire1, opens0, opens1⟩ := opened_parts fits short made
    have fragP : p.kind ≠ .full := by rw [first]; decide
    have fragQ : q.kind ≠ .full := by rw [second]; decide
    rcases eq_pair_of_perm arrive with order | order
    · obtain ⟨a, rest, rfl, rfl, others⟩ := List.map_eq_cons_iff.mp order
      obtain ⟨b, rfl, rfl⟩ := List.map_eq_singleton_iff.mp others
      obtain ⟨w, rctx, takesA, keyA⟩ := takes a (by simp)
      obtain ⟨w', rctx', takesB, keyB⟩ := takes b (by simp)
      have ordered : (b.draws.optNowNs - a.draws.optNowNs).toNat ≤ optFragTimeoutNs := by
        simpa using soon
      have joined := (OptTable.joined_of_parts (idsP ▸ absent) (idsQ.trans idsP.symm) first second
        partsP partsQ ordered room).1
      rw [whole] at joined
      exact ⟨b, by simp, runWan_fragments takesA takesB governs.flow udp wire0 wire1 fragP fragQ idsQ
        (opens0 _ keyA) (opens1 _ keyB) joined⟩
    · obtain ⟨b, rest, rfl, rfl, others⟩ := List.map_eq_cons_iff.mp order
      obtain ⟨a, rfl, rfl⟩ := List.map_eq_singleton_iff.mp others
      obtain ⟨w, rctx, takesA, keyA⟩ := takes a (by simp)
      obtain ⟨w', rctx', takesB, keyB⟩ := takes b (by simp)
      have ordered : (a.draws.optNowNs - b.draws.optNowNs).toNat ≤ optFragTimeoutNs := by
        simpa using soon
      have joined := (OptTable.joined_of_parts (idsP ▸ absent) (idsQ.trans idsP.symm) first second
        partsP partsQ ordered room).2
      rw [whole] at joined
      exact ⟨a, by simp, runWan_fragments takesB takesA governs.flow udp wire1 wire0 fragQ fragP idsP
        (opens1 _ keyB) (opens0 _ keyA) joined⟩

end Edge

/-! ## Two halves that change places -/

/-- A datagram of 470 bytes from a host of the LAN. -/
def udpBytes : Bytes :=
  [2, 0, 0, 0, 0, 1, 2, 0, 0, 0, 0, 2, 8, 0, 69, 0, 1, 200, 0, 0, 64, 0, 64, 17, 0, 0] ++ lanHost ++
    wanHost ++ [156, 64, 0, 80, 1, 180, 0, 0] ++ List.replicate 428 0x61

def lanUdpJob : Job := paddedJob udpBytes 470 (by decide)

def lanUdpFlow : FiveTuple := ⟨0x0A000001, 0xC0A80002, 40000, 80, 17⟩

def udpDraws : LocalDraws where
  wanPick := fun _ => some 0
  ids := some sampleIds
  tail := some (8192, List.replicate 2048 0)
  nonce := some (Vector.replicate 12 8)
  nonce0 := some (Vector.replicate 12 9)

/-- The frames of the datagram on the wire. -/
def udpFrames : List Bytes :=
  (wanPushes ((tunnelEdge 512).dataplaneProcessLocal udpDraws lanUdpJob)).map Prod.snd

/-- The second half comes first. -/
def udpCalls : List (WanCall 1) :=
  [⟨tunnelEdge 512, mssWanDraws, paddedJob (udpFrames.getD 1 []) 66 (by decide)⟩,
    ⟨tunnelEdge 512, ⟨fun _ => none, 200000000, 0⟩,
      paddedJob (udpFrames.getD 0 []) 512 (by decide)⟩]

theorem length_udpFrames : udpFrames.map List.length = [512, 66] := by
  decide +kernel

theorem frame_paddedJob {frame : Bytes} {len : ℕ} (fits : len ≤ neFrame)
    (size : frame.length = len) : (paddedJob frame len fits).frame = frame := by
  unfold paddedJob Job.frame
  rw [List.take_take, Nat.min_eq_left fits]
  exact List.take_left' size

/-- The calls bring the two frames in the other order. -/
theorem udpCalls_swapped :
    (udpCalls.map fun c => c.job.frame) = udpFrames.reverse ∧ udpFrames ≠ [] := by
  have sizes := length_udpFrames
  unfold udpCalls
  generalize udpFrames = frames at sizes ⊢
  obtain ⟨first, rest, rfl, large, sizes⟩ := List.map_eq_cons_iff.mp sizes
  obtain ⟨second, rfl, small⟩ := List.map_eq_singleton_iff.mp sizes
  refine ⟨?_, List.cons_ne_nil _ _⟩
  change [(paddedJob second 66 _).frame, (paddedJob first 512 _).frame] = [second, first]
  rw [frame_paddedJob _ small, frame_paddedJob _ large]

theorem tunnelEdge_governs_udp : (tunnelEdge 512).Governs lanUdpJob lanUdpFlow lanPolicyCtx where
  flow := by decide +kernel
  policy := ⟨0, anyPolicy 5, by decide +kernel, by decide, by decide +kernel⟩

theorem sameKey_lanPolicyCtx (frame : Bytes) : SameKey streamAead lanPolicyCtx 1 frame where
  loads := by decide
  held := by decide
  others := by
    intro k mem other
    rw [candidates_lanPolicyCtx, List.mem_singleton] at mem
    exact absurd mem other

theorem tunnelEdge_takesFrom (c : WanCall 1) (edge : c.edge = tunnelEdge 512) :
    Edge.TakesFrom (tunnelEdge 512) lanPolicyCtx lanUdpJob c := by
  refine ⟨0, lanPolicyCtx, ?_, sameKey_lanPolicyCtx _⟩
  rw [edge]
  exact ⟨rfl, tunnelEdge_peered 512, by decide +kernel⟩

theorem delivered_datagram_swapped :
    ∃ last ∈ udpCalls, ∃ ft, (Edge.runWan freshWanState udpCalls).1 =
        (Edge.submittedBy last { freshWanState with ft := ft } lanUdpFlow sampleIds
          lanUdpJob.frame).1 ∧
      portPushes (Edge.runWan freshWanState udpCalls).2.1 =
        portPushes (Edge.submittedBy last { freshWanState with ft := ft } lanUdpFlow sampleIds
          lanUdpJob.frame).2.1 ∧
      (Edge.runWan freshWanState udpCalls).2.2 =
        (Edge.submittedBy last { freshWanState with ft := ft } lanUdpFlow sampleIds
          lanUdpJob.frame).2.2 := by
  obtain ⟨swapped, pushed⟩ := udpCalls_swapped
  refine Edge.delivered_datagram (x := udpDraws) tunnelEdge_governs_udp rfl (by decide) rfl
    (mt (congrArg (List.map Prod.snd)) pushed) ?_ ?_ (absent_zero _ _) ?_
  · rw [swapped]
    exact List.reverse_perm _
  · intro c mem
    rcases List.mem_pair.mp mem with rfl | rfl
    · exact tunnelEdge_takesFrom _ rfl
    · exact tunnelEdge_takesFrom _ rfl
  · simp only [udpCalls, List.pairwise_pair]
    decide

end NeEncryptor
