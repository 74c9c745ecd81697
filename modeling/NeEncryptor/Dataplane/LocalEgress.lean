import NeEncryptor.Dataplane.Edge
import NeEncryptor.Forwarder.ReloadPairing

/-!
# From a LAN to a WAN

`local_egress.c`, and `arp_bridge_from_local` of `arp_bridge.c`.  A call is the list of what it does
to the frames it handles.
-/

namespace NeEncryptor

open Buffer Custody

/-- `crypto_proto_class`, without ARP. -/
inductive ProtoClass
  | tcp
  | udp
  | icmp
  | ospf
  | other
  deriving DecidableEq, Repr

/-- `crypto_proto_classify`. -/
def cryptoProtoClassify (ipProto : BitVec 8) : ProtoClass :=
  if ipProto = 6 then .tcp
  else if ipProto = 17 then .udp
  else if ipProto = 1 then .icmp
  else if ipProto = 89 then .ospf
  else .other

/-- `crypto_option_need_split`. -/
def cryptoOptionNeedSplit (fragMtu : UInt32) (pclass : ProtoClass) (pktLen : ℕ) : Bool :=
  match pclass with
  | .udp => l2UdpNeedSplit (cryptoOptionGetMtu fragMtu).toNat pktLen
  | _ => false

/-- `crypto_option_encrypt`; the operations of ICMP serve every other protocol too. -/
def cryptoOptionEncrypt (aead : Aead) (ctx : PacketCryptoCtx) (worker : UInt8)
    (nonce : Option Nonce) (ids : Option UdpMeta) (pclass : ProtoClass) (pkt : Bytes)
    (pktLen : ℕ) : Option Bytes :=
  match pclass with
  | .tcp => l2TcpEncrypt aead ctx worker nonce pkt pktLen
  | .udp => l2UdpEncrypt aead ctx worker nonce pkt pktLen ids
  | .icmp => l2IcmpEncrypt aead ctx worker nonce pkt pktLen
  | .ospf => l2OspfEncrypt aead ctx worker nonce pkt pktLen
  | .other => l2IcmpEncrypt aead ctx worker nonce pkt pktLen

/-- What a call gets from outside. -/
structure LocalDraws where
  /-- `fwd_wan_pick_for_local`. -/
  wanPick : FiveTuple → Option ℕ
  /-- What `crypto_option_udp_tx_meta` returns, where `dp_udp_next_tx_seq` gives a number. -/
  ids : Option UdpMeta
  /-- The address and the bytes that `split_tail_take` takes from the cache. -/
  tail : Option (FrameAddr × Bytes)
  nonce : Option Nonce
  /-- The nonce of the first fragment, which is sealed last. -/
  nonce0 : Option Nonce

namespace Edge

variable {n : ℕ} (e : Edge n) (x : LocalDraws)

/-! ## ARP -/

/-- `arp_bridge_from_local` returns 0 at once and keeps the frame. -/
def arpFromLocalIgnored (ingressLi : ℕ) (pkt : Bytes) : Bool :=
  match dpParseArpIps pkt with
  | none => false
  | some (spa, _) =>
    e.mac.relayRecent (smacOf pkt) spa || e.mac.isAppliance (smacOf pkt) ||
      (dpParseArpOp pkt == some 2 && (e.mac.lookup (smacOf pkt)).any fun li => li != ingressLi)

/-- The WAN that `arp_bridge_from_local` sends to. -/
def arpEgressWan (ingressLi : ℕ) : Option ℕ :=
  if !e.profilePiForFwdLocal ingressLi then none
  else
    match e.resolveWanDpForFwdLocal ingressLi with
    | none => none
    | some primary =>
      if primary < 0 ∨ (e.wanCount : ℤ) ≤ primary then none
      else e.arpSelectEgressWan primary.toNat

/-- `arp_try_encrypt_l2_pqc`: a frame that is not encrypted stays as it is. -/
def arpTryEncryptL2Pqc (buffer : Bytes) (len : ℕ) : Bytes :=
  let encrypted := e.arpCtx.bind fun ctx =>
    l2ArpEncrypt e.aead { ctx with profileId := 0, policyId := 0, wireId := 250 } e.coreIdx x.nonce
      buffer len
  encrypted.getD (buffer.take len)

/-- `arp_bridge_from_local`, with whether it returns 0. -/
def arpBridgeFromLocal (job : Job) (ingressLi : ℕ) : List FrameEvent × Bool :=
  if e.arpFromLocalIgnored ingressLi job.frame then ([.use job.addr], true)
  else
    match e.arpEgressWan ingressLi with
    | none => ([.use job.addr], false)
    | some d =>
      if (dpParseArpIps job.frame).isNone then ([.use job.addr], false)
      else
        let pushed := e.dpRingPush (.wan d) job.addr (e.arpTryEncryptL2Pqc x job.buffer job.len)
        (.use job.addr :: pushed.1, pushed.2)

/-! ## Data -/

/-- `pick_profile_policy`, with the place of the policy. -/
def pickProfilePolicy (localIdx : ℕ) (flow : Option FiveTuple) : Option (ℕ × CryptoPolicy) :=
  if e.cfg.profiles.isEmpty || !e.profile.enabled then none
  else if !e.profile.localIndices.contains (localIdx : ℤ) then none
  else
    (flow.bind (configSelectPolicyIndex e.cfg 0)).bind fun pi =>
      (e.cfg.policies[pi]?).map fun cp => (pi, cp)

/-- `fwd_crypto_policy_ctx`, for the thread of the call. -/
def fwdCryptoPolicyCtx (pi : ℕ) : Option PacketCryptoCtx :=
  if maxCryptoPolicies ≤ pi then none
  else
    match e.worker with
    | some w => e.rt.fwdCryptoPolicyCtx w pi
    | none => e.rt.active.entries[pi]?.bind CryptoEntry.ctx

/-- `push_split_to_wan`, with whether it returns 0: the tail goes back to the pool where there is no
room for both frames. -/
def pushSplitToWan (job tail : FrameAddr) (frame0 frame1 : Bytes) (d : ℕ) :
    List FrameEvent × Bool :=
  if e.wanCount ≤ d ∨ midRingCap < e.ringCount (.wan d) + 2 then ([.release tail .pool], false)
  else if frame0.length = 0 ∨ frame1.length = 0 ∨ frame0.length > neFrame ∨
      frame1.length > neFrame then ([.release tail .pool], false)
  else if midRingCap < e.pushCount (.wan d) job + 2 then ([.release tail .pool], false)
  else ([.release job (.ring (.wan d) frame0), .release tail (.ring (.wan d) frame1)], true)

/-- How `encrypt_to_wan` ends. -/
inductive EncryptResult
  | failed
  | frame (frame : Bytes)
  | pushed
  deriving DecidableEq, Repr

/-- `encrypt_to_wan`. -/
def encryptToWan (job : Job) (buffer : Bytes) (d : ℕ) (ctx : PacketCryptoCtx)
    (pclass : ProtoClass) : List FrameEvent × EncryptResult :=
  if pclass = .udp ∧ x.ids = none then ([.use job.addr], .failed)
  else if cryptoOptionNeedSplit e.fragMtu pclass job.len then
    match (if e.worker.isNone then none else x.tail) with
    | none => ([.use job.addr], .failed)
    | some (tail, tailBuf) =>
      match l2Split e.aead ctx e.coreIdx x.nonce x.nonce0 (cryptoOptionGetMtu e.fragMtu).toNat x.ids
          buffer job.len tailBuf with
      | none =>
        ([.use job.addr, .take tail, .use tail, .use job.addr, .release tail .pool], .failed)
      | some (frame0, frame1) =>
        let pushed := e.pushSplitToWan job.addr tail frame0 frame1 d
        ([.use job.addr, .take tail, .use tail, .use job.addr] ++ pushed.1,
          if pushed.2 then .pushed else .failed)
  else
    match cryptoOptionEncrypt e.aead ctx e.coreIdx x.nonce x.ids pclass buffer job.len with
    | none => ([.use job.addr], .failed)
    | some frame => ([.use job.addr], .frame frame)

/-- The bytes that go to the encoder: the MSS of a TCP packet is clamped. -/
def egressBuffer (job : Job) (proto : BitVec 8) : Bytes :=
  if proto = 6 then (cryptoTcpClampMss job.buffer job.len cryptoOptFragMtuDefault 30).1
  else job.buffer

/-- The rest of `dataplane_process_local` for a policy that encrypts. -/
def encryptFromLocal (job : Job) (pi d : ℕ) (proto : BitVec 8) : List FrameEvent :=
  if !e.cfg.cryptoEnabled then [.release job.addr .pool]
  else
    match e.fwdCryptoPolicyCtx pi with
    | none => [.use job.addr, .release job.addr .pool]
    | some ctx =>
      match e.encryptToWan x job (egressBuffer job proto) d ctx (cryptoProtoClassify proto) with
      | (events, .failed) => .use job.addr :: events ++ [.release job.addr .pool]
      | (events, .frame frame) =>
        .use job.addr :: events ++ (e.dpRingPush (.wan d) job.addr frame).1
      | (events, .pushed) => .use job.addr :: events

/-- The port that a packet came in at. -/
def ingressLocal (job : Job) : ℕ := if job.localIdx < e.locals.length then job.localIdx else 0

/-- `dataplane_process_local`. -/
def dataplaneProcessLocal (job : Job) : List FrameEvent :=
  let li := e.ingressLocal job
  if dpPktIsArp job.frame then
    match e.arpBridgeFromLocal x job li with
    | (events, true) => .use job.addr :: events
    | (events, false) => .use job.addr :: events ++ [.release job.addr .pool]
  else
    let flow := dpParseFlow job.frame job.len
    .use job.addr ::
      match e.pickProfilePolicy li flow, flow with
      | some (pi, cp), some t =>
        match (x.wanPick t).filter e.fwdWanHasTxRoom with
        | none => [.release job.addr .pool]
        | some d =>
          if cp.action = .bypass then (e.dpRingPush (.wan d) job.addr job.frame).1
          else e.encryptFromLocal x job pi d t.protocol
      | _, _ => [.release job.addr .pool]

end Edge

/-! ## What a call pushes -/

/-- The frames that a trace pushes on the rings towards the WANs. -/
def wanPushes (es : List FrameEvent) : List (ℕ × Bytes) :=
  es.filterMap fun
    | .release _ (.ring (.wan d) frame) => some (d, frame)
    | _ => none

@[simp] theorem wanPushes_nil : wanPushes [] = [] := rfl

@[simp] theorem wanPushes_use (addr : FrameAddr) (es : List FrameEvent) :
    wanPushes (.use addr :: es) = wanPushes es := rfl

@[simp] theorem wanPushes_take (addr : FrameAddr) (es : List FrameEvent) :
    wanPushes (.take addr :: es) = wanPushes es := rfl

@[simp] theorem wanPushes_pool (addr : FrameAddr) (es : List FrameEvent) :
    wanPushes (.release addr .pool :: es) = wanPushes es := rfl

@[simp] theorem wanPushes_ring (addr : FrameAddr) (d : ℕ) (frame : Bytes) (es : List FrameEvent) :
    wanPushes (.release addr (.ring (.wan d) frame) :: es) = (d, frame) :: wanPushes es := rfl

@[simp] theorem wanPushes_append (es es' : List FrameEvent) :
    wanPushes (es ++ es') = wanPushes es ++ wanPushes es' :=
  List.filterMap_append

/-! ## What an encoder leaves -/

/-- A frame that an encoder sealed under a key, behind the bytes before its EtherType. -/
def SealedUnder (aead : Aead) (key : TrafficKey) (hdr frame : Bytes) : Prop :=
  keyNonzero key = true ∧ ∃ (wireId worker : UInt8) (nonce : Nonce) (plain cipher : Bytes),
    aead.encrypt key nonce.toList plain = some cipher ∧
      (frame = headedFrame 0x4A hdr wireId worker nonce.toList cipher ∨
        frame = wireFrame hdr wireId worker nonce.toList cipher)

theorem nonzero_of_sealFragment {aead : Aead} {ctx : PacketCryptoCtx} {worker : UInt8}
    {nonce : Option Nonce} {kind : L2UdpKind} {ids : UdpMeta} {buf plain frame : Bytes} {etOff : ℕ}
    (made : sealFragment aead ctx worker nonce kind ids buf plain etOff = some frame) :
    keyNonzero ctx.keys.current = true := by
  unfold sealFragment at made
  dsimp only at made
  split at made
  · cases made
  · obtain ⟨key, loaded, -⟩ := Option.bind_eq_some_iff.mp made
    obtain ⟨rfl, nonzero⟩ := sessLoad_some loaded
    exact nonzero

theorem nonzero_of_l2DoEncrypt {aead : Aead} {ctx : PacketCryptoCtx} {worker : UInt8}
    {nonce : Option Nonce} {packet frame : Bytes} {pktLen : ℕ}
    (made : l2DoEncrypt aead ctx worker nonce packet pktLen = some frame) :
    keyNonzero ctx.keys.current = true := by
  simp only [l2DoEncrypt, Option.bind_eq_bind, Option.bind_eq_some_iff] at made
  obtain ⟨l3Off, -, etOff, -, made⟩ := made
  split at made
  · cases made
  · obtain ⟨key, loaded, -⟩ := Option.bind_eq_some_iff.mp made
    obtain ⟨rfl, nonzero⟩ := sessLoad_some loaded
    exact nonzero

/-- The IPv4 header stands where the bytes before it are the same. -/
theorem ipv4Offset_congr {pkt frame : Bytes} {pktLen l3Off : ℕ}
    (found : cryptoEthIpv4Offset pkt pktLen = some l3Off) (same : frame.take 18 = pkt.take 18) :
    cryptoEthIpv4Offset frame pktLen = some l3Off := by
  obtain ⟨etOff, rfl, inner, et, long⟩ := ipv4Offset_some found
  obtain ⟨known, -, place⟩ := innerEtOff_cases inner
  have early : etOff + 2 ≤ 18 := by omega
  have et' : ethReadEt frame etOff = ethPIp := (ethReadEt_congr same early).trans et
  have prefixed : frame.take etOff = pkt.take etOff := by
    have cut := congrArg (List.take etOff) same
    rwa [List.take_take, List.take_take, Nat.min_eq_left (by omega)] at cut
  rw [cryptoEthIpv4Offset, innerEtOff_congr inner prefixed (by rw [et']; rfl) (by omega)]
  dsimp only
  rw [if_neg (not_not.mpr et'), if_neg (by omega)]

theorem sealed_of_encrypt {aead : Aead} {ctx : PacketCryptoCtx} {worker : UInt8}
    {nonce : Option Nonce} {ids : Option UdpMeta} {pclass : ProtoClass} {pkt frame : Bytes}
    {pktLen etOff : ℕ} (numbered : pclass = .udp → ids ≠ none) (fits : pktLen ≤ pkt.length)
    (ip : cryptoEthIpv4Offset pkt pktLen = some (etOff + 2))
    (made : cryptoOptionEncrypt aead ctx worker nonce ids pclass pkt pktLen = some frame) :
    SealedUnder aead ctx.keys.current (pkt.take etOff) frame := by
  obtain ⟨etOff', same, inner, -, -⟩ := ipv4Offset_some ip
  obtain rfl : etOff = etOff' := by omega
  have isIpv4 : cryptoPktIsIpv4 pkt pktLen = true := by
    rw [cryptoPktIsIpv4, ip]
    rfl
  have plain (made : l2PlainEncrypt aead ctx worker nonce pkt pktLen = some frame) :
      SealedUnder aead ctx.keys.current (pkt.take etOff) frame := by
    unfold l2PlainEncrypt at made
    split at made
    · cases made
    · rw [isIpv4, if_neg (by decide)] at made
      obtain ⟨etOff', n, cipher, inner', -, -, encrypted, rfl⟩ := l2DoEncrypt_some fits made
      obtain rfl := Option.some.inj (inner.symm.trans inner')
      exact ⟨nonzero_of_l2DoEncrypt made, _, _, n, _, cipher, encrypted, .inl rfl⟩
  cases pclass with
  | tcp | icmp | ospf | other => exact plain made
  | udp =>
    obtain ⟨ids, rfl⟩ := Option.ne_none_iff_exists'.mp (numbered rfl)
    have made : l2UdpEncrypt aead ctx worker nonce pkt pktLen (some ids) = some frame := made
    unfold l2UdpEncrypt at made
    split at made
    · cases made
    · rw [isIpv4, if_neg (by decide)] at made
      obtain ⟨etOff', n, cipher, inner', -, -, encrypted, -, rfl⟩ := l2DoEncryptUdp_some made
      obtain rfl := Option.some.inj (inner.symm.trans inner')
      have nonzero : keyNonzero ctx.keys.current = true := by
        simp only [l2DoEncryptUdp, Option.bind_eq_bind, Option.bind_eq_some_iff] at made
        obtain ⟨_, -, _, -, _, -, made⟩ := made
        exact nonzero_of_sealFragment made
      exact ⟨nonzero, _, _, n, _, cipher, encrypted, .inr rfl⟩

theorem sealed_of_split {aead : Aead} {ctx : PacketCryptoCtx} {worker : UInt8}
    {nonce1 nonce0 : Option Nonce} {mtu pktLen etOff : ℕ} {ids : Option UdpMeta}
    {pkt tail frame0 frame1 : Bytes} (ip : cryptoEthIpv4Offset pkt pktLen = some (etOff + 2))
    (made : l2Split aead ctx worker nonce1 nonce0 mtu ids pkt pktLen tail = some (frame0, frame1)) :
    SealedUnder aead ctx.keys.current (pkt.take etOff) frame0 ∧
      SealedUnder aead ctx.keys.current (pkt.take etOff) frame1 := by
  cases ids with
  | none =>
    simp only [l2Split, Option.bind_eq_bind, Option.bind_eq_some_iff] at made
    obtain ⟨_, -, _, -, _, absent, -⟩ := made
    cases absent
  | some ids =>
    obtain ⟨etOff', same, inner, -, -⟩ := ipv4Offset_some ip
    obtain rfl : etOff = etOff' := by omega
    have nonzero : keyNonzero ctx.keys.current = true := by
      simp only [l2Split, Option.bind_eq_bind, Option.bind_eq_some_iff] at made
      obtain ⟨_, -, _, -, _, -, _, -, _, first, -⟩ := made
      exact nonzero_of_sealFragment first
    obtain ⟨etOff', n, n0, n1, cipher0, cipher1, inner', -, -, encrypted0, encrypted1, -, -, rfl,
      rfl⟩ := l2Split_some made
    obtain rfl := Option.some.inj (inner.symm.trans inner')
    exact ⟨⟨nonzero, _, _, n0, _, cipher0, encrypted0, .inr rfl⟩,
      nonzero, _, _, n1, _, cipher1, encrypted1, .inr rfl⟩

namespace Edge

variable {n : ℕ} {e : Edge n} {x : LocalDraws} {job : Job} {d : ℕ} {frame : Bytes}

theorem length_frame (job : Job) : job.frame.length = job.len := by
  rw [Job.frame, List.length_take, job.size]
  exact Nat.min_eq_left job.fits

theorem dpRingPush_cases (e : Edge n) (ring : MidRing) (addr : FrameAddr) (frame : Bytes) :
    e.dpRingPush ring addr frame = ([.release addr .pool], false) ∨
      frame.length ≤ neFrame ∧ e.pushCount ring addr < midRingCap ∧
        e.dpRingPush ring addr frame = ([.release addr (.ring ring frame)], true) := by
  unfold dpRingPush
  split
  · exact .inl rfl
  · rename_i room
    exact .inr ⟨by omega, by omega, rfl⟩

theorem mem_wanPushes_dpRingPush {ring : MidRing} {addr : FrameAddr} {bytes : Bytes}
    (pushed : (d, frame) ∈ wanPushes (e.dpRingPush ring addr bytes).1) :
    ring = .wan d ∧ e.pushCount ring addr < midRingCap ∧ frame = bytes := by
  rcases e.dpRingPush_cases ring addr bytes with full | ⟨-, space, done⟩
  · rw [full] at pushed
    cases pushed
  · rw [done] at pushed
    cases ring with
    | wan d' =>
      obtain ⟨rfl, rfl⟩ := Prod.mk.inj (List.mem_singleton.mp pushed)
      exact ⟨rfl, space, rfl⟩
    | lan li => cases pushed

/-- What `encrypt_to_wan` pushes are the two frames of a split. -/
theorem mem_wanPushes_encryptToWan {buffer : Bytes} {wan : ℕ} {ctx : PacketCryptoCtx}
    {pclass : ProtoClass}
    (pushed : (d, frame) ∈ wanPushes (e.encryptToWan x job buffer wan ctx pclass).1) :
    ∃ tailBuf frame0 frame1, pclass = .udp ∧ d = wan ∧ (frame = frame0 ∨ frame = frame1) ∧
      l2Split e.aead ctx e.coreIdx x.nonce x.nonce0 (cryptoOptionGetMtu e.fragMtu).toNat x.ids
        buffer job.len tailBuf = some (frame0, frame1) := by
  unfold encryptToWan at pushed
  split at pushed
  · cases pushed
  split at pushed
  · rename_i needs
    have udp : pclass = .udp := by
      cases pclass with
      | udp => rfl
      | tcp | icmp | ospf | other => cases needs
    split at pushed
    · cases pushed
    · rename_i tail tailBuf _
      split at pushed
      · cases pushed
      · rename_i frame0 frame1 split
        refine ⟨tailBuf, frame0, frame1, udp, ?_⟩
        simp only [List.cons_append, List.nil_append, wanPushes_use, wanPushes_take] at pushed
        unfold pushSplitToWan at pushed
        split at pushed
        · cases pushed
        split at pushed
        · cases pushed
        split at pushed
        · cases pushed
        · simp only [wanPushes_ring, wanPushes_nil, List.mem_cons, Prod.mk.injEq, List.not_mem_nil,
            or_false, ← and_or_left] at pushed
          exact ⟨pushed.1, pushed.2, split⟩
  · split at pushed
    · cases pushed
    · cases pushed

/-- The frame that `encrypt_to_wan` leaves in the buffer is that of the encoder. -/
theorem encrypt_of_encryptToWan {buffer : Bytes} {wan : ℕ} {ctx : PacketCryptoCtx}
    {pclass : ProtoClass} (left : (e.encryptToWan x job buffer wan ctx pclass).2 = .frame frame) :
    (pclass = .udp → x.ids ≠ none) ∧
      cryptoOptionEncrypt e.aead ctx e.coreIdx x.nonce x.ids pclass buffer job.len =
        some frame := by
  unfold encryptToWan at left
  split at left
  · cases left
  rename_i numbered
  refine ⟨fun udp absent => numbered ⟨udp, absent⟩, ?_⟩
  split at left
  · split at left
    · cases left
    split at left
    · cases left
    · dsimp only at left
      split at left
      · cases left
      · cases left
  · split at left
    · cases left
    · rename_i made
      cases left
      exact made

/-- What the encoders make of a packet under a context: one frame, or one of two. -/
inductive EncodedBy (e : Edge n) (x : LocalDraws) (job : Job) (proto : BitVec 8)
    (ctx : PacketCryptoCtx) (frame : Bytes) : Prop
  | whole (numbered : cryptoProtoClassify proto = .udp → x.ids ≠ none)
      (made : cryptoOptionEncrypt e.aead ctx e.coreIdx x.nonce x.ids (cryptoProtoClassify proto)
        (egressBuffer job proto) job.len = some frame)
  | part {tailBuf frame0 frame1 : Bytes} (udp : cryptoProtoClassify proto = .udp)
      (made : l2Split e.aead ctx e.coreIdx x.nonce x.nonce0
        (cryptoOptionGetMtu e.fragMtu).toNat x.ids (egressBuffer job proto) job.len tailBuf =
          some (frame0, frame1))
      (which : frame = frame0 ∨ frame = frame1)

theorem encodedBy_of_mem {pi wan : ℕ} {proto : BitVec 8}
    (pushed : (d, frame) ∈ wanPushes (e.encryptFromLocal x job pi wan proto)) :
    ∃ ctx, e.fwdCryptoPolicyCtx pi = some ctx ∧ EncodedBy e x job proto ctx frame := by
  unfold encryptFromLocal at pushed
  split at pushed
  · cases pushed
  split at pushed
  · cases pushed
  · rename_i ctx loaded
    refine ⟨ctx, loaded, ?_⟩
    have fragment (mem : (d, frame) ∈ wanPushes (e.encryptToWan x job (egressBuffer job proto) wan
        ctx (cryptoProtoClassify proto)).1) : EncodedBy e x job proto ctx frame := by
      obtain ⟨tailBuf, frame0, frame1, udp, -, part, made⟩ := mem_wanPushes_encryptToWan mem
      exact .part udp made part
    split at pushed
    · rename_i events tried
      rw [tried] at fragment
      rw [List.cons_append, wanPushes_use, wanPushes_append, wanPushes_pool, wanPushes_nil,
        List.append_nil] at pushed
      exact fragment pushed
    · rename_i events made tried
      rw [tried] at fragment
      rw [List.cons_append, wanPushes_use, wanPushes_append] at pushed
      rcases List.mem_append.mp pushed with mem | mem
      · exact fragment mem
      · obtain ⟨-, -, rfl⟩ := mem_wanPushes_dpRingPush mem
        obtain ⟨numbered, made⟩ := encrypt_of_encryptToWan (congrArg Prod.snd tried)
        exact .whole numbered made
    · rename_i events tried
      rw [tried] at fragment
      exact fragment pushed

/-- The ways of a frame to a ring of a WAN. -/
inductive PushedFromLocal (e : Edge n) (x : LocalDraws) (job : Job) (d : ℕ) (frame : Bytes) : Prop
  | arp (isArp : dpPktIsArp job.frame = true)
      (made : frame = e.arpTryEncryptL2Pqc x job.buffer job.len)
  | bypass {pi : ℕ} {cp : CryptoPolicy} {t : FiveTuple}
      (flow : dpParseFlow job.frame job.len = some t)
      (picked : e.pickProfilePolicy (e.ingressLocal job) (some t) = some (pi, cp))
      (bypasses : cp.action = .bypass) (wan : x.wanPick t = some d)
      (room : e.fwdWanHasTxRoom d = true) (space : e.pushCount (.wan d) job.addr < midRingCap)
      (whole : frame = job.frame)
  | encrypted {pi : ℕ} {cp : CryptoPolicy} {t : FiveTuple} {ctx : PacketCryptoCtx}
      (flow : dpParseFlow job.frame job.len = some t)
      (picked : e.pickProfilePolicy (e.ingressLocal job) (some t) = some (pi, cp))
      (encrypts : cp.action ≠ .bypass) (loaded : e.fwdCryptoPolicyCtx pi = some ctx)
      (encoded : EncodedBy e x job t.protocol ctx frame)

/-- A call pushes nothing else. -/
theorem pushedFromLocal_of_mem (pushed : (d, frame) ∈ wanPushes (e.dataplaneProcessLocal x job)) :
    PushedFromLocal e x job d frame := by
  unfold dataplaneProcessLocal at pushed
  dsimp only at pushed
  split at pushed
  · rename_i isArp
    refine .arp isArp ?_
    have bridged : (d, frame) ∈ wanPushes (e.arpBridgeFromLocal x job (e.ingressLocal job)).1 := by
      split at pushed
      · rename_i done
        rwa [done]
      · rename_i done
        rw [done]
        rwa [wanPushes_append, wanPushes_pool, wanPushes_nil, List.append_nil] at pushed
    unfold arpBridgeFromLocal at bridged
    split at bridged
    · cases bridged
    split at bridged
    · cases bridged
    split at bridged
    · cases bridged
    · exact (mem_wanPushes_dpRingPush bridged).2.2
  · rw [wanPushes_use] at pushed
    split at pushed
    · rename_i pi cp t picked flow
      rw [flow] at picked
      split at pushed
      · cases pushed
      · rename_i wan chosen
        obtain ⟨chosen, room⟩ := Option.filter_eq_some_iff.mp chosen
        split at pushed
        · rename_i bypasses
          obtain ⟨same, space, whole⟩ := mem_wanPushes_dpRingPush pushed
          cases same
          exact .bypass flow picked bypasses chosen room space whole
        · rename_i encrypts
          obtain ⟨ctx, loaded, encoded⟩ := encodedBy_of_mem pushed
          exact .encrypted flow picked encrypts loaded encoded
    · cases pushed

/-- Where a policy leaves a frame as it is, the frame is pushed. -/
theorem pushes_of_bypass {pi : ℕ} {cp : CryptoPolicy} {t : FiveTuple}
    (noArp : dpPktIsArp job.frame = false) (flow : dpParseFlow job.frame job.len = some t)
    (picked : e.pickProfilePolicy (e.ingressLocal job) (some t) = some (pi, cp))
    (bypasses : cp.action = .bypass) (wan : x.wanPick t = some d)
    (room : e.fwdWanHasTxRoom d = true) (space : e.pushCount (.wan d) job.addr < midRingCap) :
    (d, job.frame) ∈ wanPushes (e.dataplaneProcessLocal x job) := by
  have chosen : (x.wanPick t).filter e.fwdWanHasTxRoom = some d :=
    Option.filter_eq_some_iff.mpr ⟨wan, room⟩
  have small : job.frame.length ≤ neFrame := (length_frame job).le.trans job.fits
  unfold dataplaneProcessLocal
  dsimp only
  rw [if_neg (by rw [noArp]; decide), wanPushes_use, flow, picked]
  dsimp only
  rw [chosen]
  dsimp only
  rw [if_pos bypasses, dpRingPush, if_neg (by omega)]
  exact List.mem_singleton.mpr rfl

/-! ### What a policy that encrypts lets out -/

theorem length_egressBuffer (job : Job) (proto : BitVec 8) :
    (egressBuffer job proto).length = neFrame := by
  unfold egressBuffer
  split
  · rw [length_clamp _ _ (job.fits.trans job.size.ge), job.size]
  · exact job.size

/-- The encoders find the Ethernet header of the packet. -/
theorem take_egressBuffer (job : Job) (proto : BitVec 8) {k : ℕ} (early : k ≤ 34)
    (fits : k ≤ job.len) : (egressBuffer job proto).take k = job.frame.take k := by
  have whole : job.frame.take k = job.buffer.take k := by
    rw [Job.frame, List.take_take, Nat.min_eq_left fits]
  unfold egressBuffer
  split
  · have same := congrArg (List.take k) (take_clamp cryptoOptFragMtuDefault 30
      (job.fits.trans job.size.ge))
    rw [List.take_take, List.take_take, Nat.min_eq_left early] at same
    rw [same, whole]
  · exact whole.symm

/-- What the encoders make of an IPv4 packet is sealed. -/
theorem EncodedBy.sealed {proto : BitVec 8} {ctx : PacketCryptoCtx} {etOff : ℕ}
    (encoded : EncodedBy e x job proto ctx frame)
    (ip : cryptoEthIpv4Offset job.frame job.len = some (etOff + 2)) :
    SealedUnder e.aead ctx.keys.current (job.frame.take etOff) frame := by
  obtain ⟨etOff', same, inner, -, long⟩ := ipv4Offset_some ip
  obtain rfl : etOff = etOff' := by omega
  have place := (innerEtOff_cases inner).2.2
  have ip' : cryptoEthIpv4Offset (egressBuffer job proto) job.len = some (etOff + 2) :=
    ipv4Offset_congr ip (take_egressBuffer job proto (by decide) (by omega))
  have fits : job.len ≤ (egressBuffer job proto).length :=
    (length_egressBuffer job proto).symm ▸ job.fits
  have hdr : (egressBuffer job proto).take etOff = job.frame.take etOff :=
    take_egressBuffer job proto (by omega) (by omega)
  rw [← hdr]
  cases encoded with
  | whole numbered made => exact sealed_of_encrypt numbered fits ip' made
  | part udp made which =>
    obtain ⟨first, second⟩ := sealed_of_split ip' made
    rcases which with rfl | rfl
    · exact first
    · exact second

theorem ipv4Offset_of_flow {pkt : Bytes} {len : ℕ} {t : FiveTuple}
    (flow : dpParseFlow pkt len = some t) :
    ∃ etOff, cryptoEthIpv4Offset pkt len = some (etOff + 2) := by
  unfold dpParseFlow at flow
  split at flow
  · cases flow
  · rename_i l3Off ip
    obtain ⟨etOff, rfl, -⟩ := ipv4Offset_some ip
    exact ⟨etOff, ip⟩

end Edge

end NeEncryptor
