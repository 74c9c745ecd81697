import NeEncryptor.Crypto.Reassembly
import NeEncryptor.Crypto.UdpFrames

/-!
# Splitting and reassembly

A UDP packet that is split, sealed, opened and joined is the packet again, in whichever order its two
fragments arrive, as long as the second one comes before the first has timed out.
-/

namespace NeEncryptor

open Buffer

namespace OptEntry

variable {e : OptEntry} {ids : UdpMeta} {now : BitVec 64}

@[simp] theorem prepare_ids : (e.prepare ids now).ids = ids := rfl

@[simp] theorem prepare_timestampNs : (e.prepare ids now).timestampNs = now := rfl

/-- An entry that is not of the datagram is emptied for it. -/
theorem prepare_other (other : e.occupied = true → e.holds ids.epoch ids.datagramId = false) :
    (e.prepare ids now).gotFirst = false ∧ (e.prepare ids now).gotSecond = false := by
  unfold prepare
  dsimp only
  split
  · exact ⟨rfl, rfl⟩
  · rename_i kept
    have same : e.ids = ids := by
      by_contra different
      exact kept (.inl different)
    cases occupied : e.occupied with
    | true =>
      have other := other occupied
      simp [holds, same] at other
    | false => simpa [OptEntry.occupied] using occupied

/-- An entry of the datagram that has not timed out stays. -/
theorem prepare_same (same : e.ids = ids) (fresh : e.expired now = false) :
    e.prepare ids now = { e with timestampNs := now } := by
  subst same
  simp [prepare, fresh]

end OptEntry

namespace OptTable

variable {ft : OptTable} {epoch datagramId : BitVec 32} {now : BitVec 64} {base : ℕ}

/-- No fragment of the datagram waits. -/
def Absent (ft : OptTable) (epoch datagramId : BitVec 32) : Prop :=
  ∀ idx < optFragTableSize, (ft idx).occupied = true → (ft idx).holds epoch datagramId = false

theorem Absent.clear (absent : ft.Absent epoch datagramId) (idx : ℕ) :
    OptTable.Absent (Function.update ft idx (ft idx).clear) epoch datagramId := by
  intro j inside occupied
  by_cases here : j = idx
  · rw [here, Function.update_self] at occupied
    cases occupied
  · rw [Function.update_of_ne here] at occupied ⊢
    exact absent j inside occupied

/-- Without a waiting fragment the slot is one of those that were probed. -/
theorem pickFrom_absent {P : ℕ → Prop} (hbase : P base) (is : List ℕ) (ft : OptTable)
    (emptyIdx oldestIdx : Option ℕ) (oldestAge : ℕ) (absent : ft.Absent epoch datagramId)
    (probed : ∀ i ∈ is, i < optFragTableSize ∧ P i) (hempty : ∀ i ∈ emptyIdx, P i)
    (holdest : ∀ i ∈ oldestIdx, P i) :
    (pickFrom epoch datagramId now base ft emptyIdx oldestIdx oldestAge is).1.Absent
        epoch datagramId ∧
      P (pickFrom epoch datagramId now base ft emptyIdx oldestIdx oldestAge is).2 := by
  induction is generalizing ft emptyIdx oldestIdx oldestAge with
  | nil =>
    refine ⟨absent, ?_⟩
    rw [pickFrom]
    cases emptyIdx with
    | some i => exact hempty i rfl
    | none =>
      cases oldestIdx with
      | some i => exact holdest i rfl
      | none => exact hbase
  | cons idx is ih =>
    have here := probed idx List.mem_cons_self
    have later : ∀ i ∈ is, i < optFragTableSize ∧ P i :=
      fun i mem => probed i (List.mem_cons_of_mem idx mem)
    unfold pickFrom
    dsimp only
    split
    · rename_i live
      rw [Bool.and_eq_true] at live
      rw [absent idx here.1 live.1, if_neg (by decide)]
      split
      · exact ih _ _ _ _ absent later hempty fun i mem => by
          obtain rfl := Option.some.inj mem
          exact here.2
      · exact ih _ _ _ _ absent later hempty holdest
    · refine ih _ _ _ _ ?_ later ?_ holdest
      · split
        · exact absent.clear idx
        · exact absent
      · intro i mem
        cases emptyIdx with
        | some j => exact hempty i mem
        | none =>
          obtain rfl := Option.some.inj mem
          exact here.2

/-- The entry of the datagram is found, where it is the only one and has not timed out. -/
theorem pickFrom_waiting {idx : ℕ} (is : List ℕ) (ft : OptTable)
    (emptyIdx oldestIdx : Option ℕ) (oldestAge : ℕ) (probed : idx ∈ is)
    (live : (ft idx).occupied = true) (fresh : (ft idx).expired now = false)
    (here : (ft idx).holds epoch datagramId = true)
    (only : ∀ j ∈ is, j ≠ idx → (ft j).occupied = true → (ft j).holds epoch datagramId = false) :
    (pickFrom epoch datagramId now base ft emptyIdx oldestIdx oldestAge is).2 = idx ∧
      (pickFrom epoch datagramId now base ft emptyIdx oldestIdx oldestAge is).1 idx = ft idx := by
  induction is generalizing ft emptyIdx oldestIdx oldestAge with
  | nil => cases probed
  | cons j is ih =>
    by_cases same : j = idx
    · subst same
      simp [pickFrom, live, fresh, here]
    · have probed : idx ∈ is := (List.mem_cons.mp probed).resolve_left fun h => same h.symm
      have later : ∀ k ∈ is, k ≠ idx → (ft k).occupied = true →
          (ft k).holds epoch datagramId = false :=
        fun k mem => only k (List.mem_cons_of_mem j mem)
      unfold pickFrom
      dsimp only
      split
      · rename_i occupied
        rw [Bool.and_eq_true] at occupied
        rw [only j List.mem_cons_self same occupied.1, if_neg (by decide)]
        split
        · exact ih ft _ _ _ probed live fresh here later
        · exact ih ft _ _ _ probed live fresh here later
      · split
        · have kept : Function.update ft j (ft j).clear idx = ft idx :=
            Function.update_of_ne (fun h => same h.symm) _ _
          rw [← kept] at live fresh here ⊢
          refine ih _ _ _ _ probed live fresh here fun k mem other occupied => ?_
          by_cases cleared : k = j
          · rw [cleared, Function.update_self] at occupied
            cases occupied
          · rw [Function.update_of_ne cleared] at occupied ⊢
            exact later k mem other occupied
        · exact ih ft _ _ _ probed live fresh here later

theorem probes_lt {idx : ℕ} (probed : idx ∈ probes epoch datagramId) : idx < optFragTableSize := by
  obtain ⟨i, -, rfl⟩ := List.mem_map.mp probed
  exact Nat.mod_lt _ (by decide)

theorem baseOf_mem : baseOf epoch datagramId ∈ probes epoch datagramId := by
  refine List.mem_map.mpr ⟨0, by decide, ?_⟩
  exact Nat.mod_eq_of_lt (Nat.mod_lt _ (by decide))

/-- The entry waits for the other fragment of its datagram, and no other one does. -/
def Waits (ft : OptTable) (e : OptEntry) : Prop :=
  ∃ idx ∈ probes e.ids.epoch e.ids.datagramId, ft idx = e ∧
    ∀ j < optFragTableSize, j ≠ idx → (ft j).occupied = true →
      (ft j).holds e.ids.epoch e.ids.datagramId = false

/-- A slot that is picked without a waiting fragment. -/
theorem Absent.pick (absent : ft.Absent epoch datagramId) :
    ∃ ft' idx, optPickSlot ft epoch datagramId now = (ft', idx) ∧
      OptTable.Absent ft' epoch datagramId ∧ idx ∈ probes epoch datagramId := by
  have picked : (optPickSlot ft epoch datagramId now).1.Absent epoch datagramId ∧
      (optPickSlot ft epoch datagramId now).2 ∈ probes epoch datagramId :=
    pickFrom_absent baseOf_mem (probes epoch datagramId) ft none none 0 absent
      (fun i mem => ⟨probes_lt mem, mem⟩) (fun _ mem => by cases mem) fun _ mem => by cases mem
  exact ⟨_, _, rfl, picked⟩

theorem Absent.waits {e : OptEntry} {idx : ℕ} (absent : ft.Absent e.ids.epoch e.ids.datagramId)
    (probed : idx ∈ probes e.ids.epoch e.ids.datagramId) :
    OptTable.Waits (Function.update ft idx e) e := by
  refine ⟨idx, probed, Function.update_self .., fun j inside other occupied => ?_⟩
  rw [Function.update_of_ne other] at occupied ⊢
  exact absent j inside occupied

/-- The slot of a fragment that waits. -/
theorem Waits.pick {e : OptEntry} (waits : ft.Waits e) (live : e.occupied = true)
    (fresh : e.expired now = false) :
    ∃ ft' idx, optPickSlot ft e.ids.epoch e.ids.datagramId now = (ft', idx) ∧ ft' idx = e := by
  obtain ⟨idx, probed, rfl, only⟩ := waits
  have picked : (optPickSlot ft (ft idx).ids.epoch (ft idx).ids.datagramId now).2 = idx ∧
      (optPickSlot ft (ft idx).ids.epoch (ft idx).ids.datagramId now).1 idx = ft idx :=
    pickFrom_waiting _ ft none none 0 probed live fresh (by simp [OptEntry.holds])
      fun j mem => only j (probes_lt mem)
  exact ⟨_, idx, Prod.ext rfl picked.1, picked.2⟩

end OptTable

/-- An entry with both parts is joined. -/
theorem optEmitJoin_both {e : OptEntry} (first : e.gotFirst = true) (second : e.gotSecond = true)
    (size : 2 ≤ e.ethLen) (fits : e.firstLen + e.secondLen + e.ethLen ≤ neFrame) :
    (optEmitJoin e).2 = .joined (cryptoEthSetIpv4Et (e.ethHdr.take e.ethLen ++
      e.first.take e.firstLen ++ e.second.take e.secondLen) (e.ethLen - 2)) := by
  have known : e.ethLen ≠ 0 := by omega
  have both : ¬ ((!e.gotFirst || !e.gotSecond) = true) := by simp [first, second]
  unfold optEmitJoin
  dsimp only
  rw [if_pos known, if_neg both, if_neg (by omega), if_pos size]

/-- An opened fragment that the table takes: Ethernet header and payload. -/
structure OpenedUdp.Parts (p : OpenedUdp) (eth plain : Bytes) : Prop where
  fragment : p.kind ≠ .full
  packet : p.packet = eth ++ plain
  found : ∃ etOff, cryptoEthInnerEtOff p.packet p.packet.length = some etOff ∧
    eth.length = etOff + 2 ∧ etOff ≤ 16
  fits : plain.length ≤ 1600
  ip : p.kind = .frag0 → 20 ≤ plain.length ∧ (plain.getD 0 0).toNat / 16 = 4 ∧
    20 ≤ (plain.getD 0 0).toNat % 16 * 4 ∧ (plain.getD 0 0).toNat % 16 * 4 ≤ plain.length

/-- What a fragment puts into its entry. -/
def OpenedUdp.put (p : OpenedUdp) (eth plain : Bytes) (e : OptEntry) : OptEntry :=
  if p.kind = .frag0 then
    { e with
      firstLen := plain.length
      first := blit e.first 0 plain
      ethHdr := blit e.ethHdr 0 eth
      ethLen := eth.length
      gotFirst := true }
  else { e with secondLen := plain.length, second := blit e.second 0 plain, gotSecond := true }

namespace OptTable

variable {ft ft' : OptTable} {now now' : BitVec 64} {p q : OpenedUdp} {eth plain eth' plain' : Bytes}
  {e : OptEntry}

/-- A fragment goes to the slot that is picked for it. -/
theorem l2Reassemble_put {idx : ℕ} (parts : p.Parts eth plain)
    (picked : optPickSlot ft p.ids.epoch p.ids.datagramId now = (ft', idx))
    (kept : ((ft' idx).occupied && (ft' idx).holds p.ids.epoch p.ids.datagramId &&
      (ft' idx).expired now) = false) :
    l2Reassemble ft p now =
      (Function.update ft' idx (optEmitJoin (p.put eth plain ((ft' idx).prepare p.ids now))).1,
        (optEmitJoin (p.put eth plain ((ft' idx).prepare p.ids now))).2) := by
  obtain ⟨etOff, found, length, small⟩ := parts.found
  have inner : p.packet.drop (etOff + 2) = plain := by
    rw [parts.packet, ← length, List.drop_left]
  have header : p.packet.take (etOff + 2) = eth := by
    rw [parts.packet, ← length, List.take_left]
  have long : etOff + 2 ≤ p.packet.length := (innerEtOff_cases found).2.1
  have fits := parts.fits
  unfold l2Reassemble OpenedUdp.put
  rw [found]
  dsimp only
  rw [if_neg (by omega), picked, inner, header]
  dsimp only
  cases kind : p.kind with
  | frag0 =>
    obtain ⟨size, version, short, whole⟩ := parts.ip kind
    dsimp only
    rw [if_neg (by omega), if_neg (by omega), OptEntry.storeFirst, if_neg (by omega),
      if_neg (by omega)]
    rfl
  | frag1 =>
    dsimp only
    rw [kept, if_neg (by decide), OptEntry.storeSecond, if_neg (by omega)]
    rfl
  | full => exact absurd kind parts.fragment

/-- The first fragment waits. -/
theorem Absent.held (absent : ft.Absent p.ids.epoch p.ids.datagramId) (parts : p.Parts eth plain) :
    ∃ ft' e, l2Reassemble ft p now = (ft', .held) ∧ OptTable.Waits ft' (p.put eth plain e) ∧
      e.ids = p.ids ∧ e.timestampNs = now ∧ e.gotFirst = false ∧ e.gotSecond = false := by
  obtain ⟨ft', idx, picked, absent', probed⟩ := @Absent.pick _ _ _ now absent
  have other := absent' idx (probes_lt probed)
  have empty := @OptEntry.prepare_other _ _ now other
  have kept : ((ft' idx).occupied && (ft' idx).holds p.ids.epoch p.ids.datagramId &&
      (ft' idx).expired now) = false := by
    cases occupied : (ft' idx).occupied with
    | true => simp [other occupied]
    | false => rfl
  have stored := l2Reassemble_put parts picked kept
  have waits : optEmitJoin (p.put eth plain ((ft' idx).prepare p.ids now)) =
      (p.put eth plain ((ft' idx).prepare p.ids now), .held) := by
    unfold OpenedUdp.put
    split
    · simp [optEmitJoin, empty.2]
    · simp [optEmitJoin, empty.1]
  rw [waits] at stored
  refine ⟨_, _, stored, ?_, rfl, rfl, empty⟩
  have ids : (p.put eth plain ((ft' idx).prepare p.ids now)).ids = p.ids := by
    unfold OpenedUdp.put
    split
    · rfl
    · rfl
  refine OptTable.Absent.waits ?_ ?_
  · rw [ids]
    exact absent'
  · rw [ids]
    exact probed

/-- The second fragment finds the first one. -/
theorem Waits.joins (waits : ft.Waits (p.put eth plain e)) (ids : e.ids = q.ids)
    (parts : q.Parts eth' plain') (soon : (now' - e.timestampNs).toNat ≤ optFragTimeoutNs) :
    (l2Reassemble ft q now').2 =
      (optEmitJoin (q.put eth' plain' { p.put eth plain e with timestampNs := now' })).2 := by
  have same : (p.put eth plain e).ids = q.ids ∧ (p.put eth plain e).occupied = true ∧
      (p.put eth plain e).expired now' = false := by
    unfold OpenedUdp.put
    split
    · exact ⟨ids, by simp [OptEntry.occupied], decide_eq_false (Nat.not_lt.mpr soon)⟩
    · exact ⟨ids, by simp [OptEntry.occupied], decide_eq_false (Nat.not_lt.mpr soon)⟩
  obtain ⟨ft', idx, picked, here⟩ := waits.pick same.2.1 same.2.2
  rw [same.1] at picked
  have kept : ((ft' idx).occupied && (ft' idx).holds q.ids.epoch q.ids.datagramId &&
      (ft' idx).expired now') = false := by
    rw [here, same.2.2, Bool.and_false]
  rw [l2Reassemble_put parts picked kept, here, OptEntry.prepare_same same.1 same.2.2]

/-- Two fragments of a datagram are joined in either order. -/
theorem joined_of_parts (absent : ft.Absent p.ids.epoch p.ids.datagramId) (ids : q.ids = p.ids)
    (first : p.kind = .frag0) (second : q.kind = .frag1) (parts : p.Parts eth plain)
    (parts' : q.Parts eth plain') (soon : (now' - now).toNat ≤ optFragTimeoutNs)
    (fits : plain.length + plain'.length + eth.length ≤ neFrame) :
    (∃ ft', l2Reassemble ft p now = (ft', .held) ∧ (l2Reassemble ft' q now').2 =
      .joined (cryptoEthSetIpv4Et (eth ++ plain ++ plain') (eth.length - 2))) ∧
    ∃ ft', l2Reassemble ft q now = (ft', .held) ∧ (l2Reassemble ft' p now').2 =
      .joined (cryptoEthSetIpv4Et (eth ++ plain ++ plain') (eth.length - 2)) := by
  have frag1 : L2UdpKind.frag1 ≠ .frag0 := by decide
  have size : 2 ≤ eth.length := by
    obtain ⟨_, -, length, -⟩ := parts.found
    omega
  constructor
  · obtain ⟨ft', e, held, waits, same, time, -, -⟩ := @Absent.held _ now _ _ _ absent parts
    refine ⟨ft', held, ?_⟩
    rw [waits.joins (same.trans ids.symm) parts' (by rw [time]; exact soon)]
    simp only [OpenedUdp.put, first, second, if_true, if_neg frag1]
    rw [optEmitJoin_both rfl rfl size fits, take_blit_zero, take_blit_zero, take_blit_zero]
  · have absent' : ft.Absent q.ids.epoch q.ids.datagramId := by
      rw [ids]
      exact absent
    obtain ⟨ft', e, held, waits, same, time, -, -⟩ := @Absent.held _ now _ _ _ absent' parts'
    refine ⟨ft', held, ?_⟩
    rw [waits.joins (same.trans ids) parts (by rw [time]; exact soon)]
    simp only [OpenedUdp.put, first, second, if_true, if_neg frag1]
    rw [optEmitJoin_both rfl rfl size fits, take_blit_zero, take_blit_zero, take_blit_zero]

end OptTable

/-- The context holds the key of the frame, and the other keys that it tries do not open it. -/
structure SameKey (aead : Aead) (ctx : PacketCryptoCtx) (key : TrafficKey) (frame : Bytes) :
    Prop where
  loads : (cryptoPqcSessLoad ctx).isSome = true
  held : key ∈ candidates ctx
  others : ∀ k ∈ candidates ctx, k ≠ key → ∀ off ∈ l2NonceOff frame frame.length,
    aead.decrypt k (slice frame off l2NonceSize)
      (frame.drop (off + l2NonceSize + l2UdpMarkerSize)) = none

/-- A search whose only hit is `a` finds it. -/
theorem findSome?_of_only {α β : Type*} {f : α → Option β} {a : α} {b : β} {l : List α}
    (mem : a ∈ l) (hit : f a = some b) (others : ∀ x ∈ l, x ≠ a → f x = none) :
    l.findSome? f = some b := by
  induction l with
  | nil => cases mem
  | cons x l ih =>
    rw [List.findSome?_cons]
    by_cases here : x = a
    · rw [here, hit]
    · rw [others x List.mem_cons_self here]
      exact ih ((List.mem_cons.mp mem).resolve_left fun h => here h.symm)
        fun y later => others y (List.mem_cons_of_mem x later)

theorem SameKey.opens {aead : Aead} {ctx : PacketCryptoCtx} {key : TrafficKey}
    {hdr nonce cipher text : Bytes} {wireId worker : UInt8}
    (same : SameKey aead ctx key (wireFrame hdr wireId worker nonce cipher))
    (size : nonce.length = l2NonceSize)
    (found : cryptoEthInnerEtOff (wireFrame hdr wireId worker nonce cipher)
      (wireFrame hdr wireId worker nonce cipher).length = some hdr.length)
    (nonempty : cipher.length ≠ 0) (fits : cipher.length ≤ 2048)
    (opens : aead.decrypt key nonce cipher = some text) :
    cryptoPqcDecryptPayloadResilient aead ctx nonce cipher = some text := by
  rw [cryptoPqcDecryptPayloadResilient, if_neg (by omega)]
  refine findSome?_of_only same.held opens fun k mem other => ?_
  have off : l2NonceOff (wireFrame hdr wireId worker nonce cipher)
      (wireFrame hdr wireId worker nonce cipher).length = some (hdr.length + 4) := by
    have length : (wireFrame hdr wireId worker nonce cipher).length =
        hdr.length + 20 + cipher.length := length_wireFrame size
    rw [l2NonceOff, cryptoEthL2PolicyOff, found]
    dsimp only
    rw [if_neg (by omega)]
    rfl
  have rejected := same.others k mem other _ off
  obtain ⟨atNonce, -, atCipher⟩ := @wireFrame_fields hdr nonce cipher wireId worker size
  rw [atNonce] at rejected
  rw [← atCipher]
  exact rejected

/-- Where a packet is split, both parts are there, and the first one has the IPv4 header. -/
theorem splitPoint_some {mtu pktLen l3Off n : ℕ} {pkt : Bytes}
    (split : splitPoint mtu pkt pktLen l3Off = some n) :
    (pkt.getD l3Off 0).toNat / 16 = 4 ∧ 20 ≤ (pkt.getD l3Off 0).toNat % 16 * 4 ∧
      (pkt.getD l3Off 0).toNat % 16 * 4 + 8 ≤ n ∧ l3Off + n < pktLen := by
  unfold splitPoint at split
  dsimp only at split
  split at split
  · cases split
  split at split
  · cases split
  split at split
  · cases split
  split at split
  · cases split
  split at split
  · cases split
  split at split
  · cases split
  · cases split
    refine ⟨by omega, by omega, by omega, ?_⟩
    split <;> omega

/-- The two frames of a packet that was split. -/
theorem l2Split_some {aead : Aead} {ctx : PacketCryptoCtx} {worker : UInt8}
    {nonce1 nonce0 : Option Nonce} {mtu pktLen : ℕ} {ids : UdpMeta} {pkt tail frame0 frame1 : Bytes}
    (split : l2Split aead ctx worker nonce1 nonce0 mtu (some ids) pkt pktLen tail =
      some (frame0, frame1)) :
    ∃ (etOff n : ℕ) (n0 n1 : Nonce) (cipher0 cipher1 : Bytes),
      cryptoEthInnerEtOff pkt pktLen = some etOff ∧ ethReadEt pkt etOff = ethPIp ∧
      splitPoint mtu pkt pktLen (etOff + 2) = some n ∧
      aead.encrypt ctx.keys.current n0.toList
        (l2UdpWriteShim .frag0 ids ++ slice pkt (etOff + 2) n) = some cipher0 ∧
      aead.encrypt ctx.keys.current n1.toList (l2UdpWriteShim .frag1 ids ++
        slice pkt (etOff + 2 + n) (pktLen - (etOff + 2) - n)) = some cipher1 ∧
      etOff + 20 + cipher0.length ≤ pkt.length ∧ etOff + 20 + cipher1.length ≤ tail.length ∧
      frame0 = wireFrame (pkt.take etOff) ctx.wireId worker n0.toList cipher0 ∧
      frame1 = wireFrame (pkt.take etOff) ctx.wireId worker n1.toList cipher1 := by
  simp only [l2Split, Option.bind_eq_bind, Option.bind_eq_some_iff, Option.pure_def,
    Option.some.injEq, Prod.mk.injEq] at split
  obtain ⟨l3Off, ip, n, point, _, rfl, etOff', found', made1, sealed1, etOff, found, made0,
    sealed0, rfl, rfl⟩ := split
  obtain ⟨_, rfl, found'', et, long⟩ := ipv4Offset_some ip
  obtain rfl := Option.some.inj (found.symm.trans found'')
  have same : cryptoEthInnerEtOff pkt 18 = some etOff := by
    refine innerEtOff_congr found rfl (innerEtOff_cases found).1 ?_
    rcases (innerEtOff_cases found).2.2 with rfl | ⟨rfl, -⟩
    · decide
    · decide
  obtain rfl := Option.some.inj (found'.symm.trans same)
  obtain ⟨key0, n0, cipher0, loaded0, -, encrypted0, room0, rfl⟩ := sealFragment_some sealed0
  obtain ⟨key1, n1, cipher1, loaded1, -, encrypted1, room1, rfl⟩ := sealFragment_some sealed1
  obtain rfl := (sessLoad_some loaded0).1
  obtain rfl := (sessLoad_some loaded1).1
  have inside : (pkt.take etOff').length = etOff' := by
    rw [List.length_take]
    omega
  have header : (blit tail 0 (pkt.take etOff')).take etOff' = pkt.take etOff' := by
    have start := @take_blit _ tail (pkt.take etOff') 0 (Nat.zero_le _)
    rwa [inside, Nat.zero_add, List.take_zero, List.nil_append] at start
  have tailRoom : etOff' + 20 + cipher1.length ≤ tail.length := by
    rw [blit, List.length_append, List.length_append, List.length_take, List.length_drop, inside]
      at room1
    omega
  rw [header]
  exact ⟨etOff', n, n0, n1, cipher0, cipher1, found, et, point, encrypted0, encrypted1, room0,
    tailRoom, rfl, rfl⟩

/-- A sealed payload is opened by the context that has its key. -/
theorem opened_sealed {aead : Aead} {ctx : PacketCryptoCtx} {key : TrafficKey}
    {kind : L2UdpKind} {ids : UdpMeta} {pkt nonce cipher plain : Bytes} {wireId worker : UInt8}
    {pktLen etOff : ℕ} (size : nonce.length = l2NonceSize)
    (found : cryptoEthInnerEtOff pkt pktLen = some etOff) (inside : etOff ≤ pkt.length)
    (small : cipher.length ≤ 2048)
    (encrypted : aead.encrypt key nonce (l2UdpWriteShim kind ids ++ plain) = some cipher)
    (same : SameKey aead ctx key (wireFrame (pkt.take etOff) wireId worker nonce cipher)) :
    l2DoDecryptUdp aead ctx (wireFrame (pkt.take etOff) wireId worker nonce cipher)
        (wireFrame (pkt.take etOff) wireId worker nonce cipher).length =
      some ⟨pkt.take etOff ++ (if kind = .full then [0x08, 0x00] else [0x10, 0x4B]) ++ plain,
        kind, ids⟩ := by
  have length : (pkt.take etOff).length = etOff := by
    rw [List.length_take]
    omega
  have text := aead.length_encrypt encrypted
  rw [List.length_append, length_l2UdpWriteShim] at text
  have place := @innerEtOff_wireFrame pkt nonce cipher pktLen etOff wireId worker found inside size
  rw [← length] at place
  have opens := same.opens size (by simpa only [length] using place) (by omega) small
    (aead.decrypt_encrypt encrypted)
  refine l2DoDecryptUdp_sealed size (by simpa only [length] using place) same.loads ?_ opens
  rw [text, aesGcmTagSize]

/-- An opened fragment is a part that the table takes. -/
theorem parts_fragment {kind : L2UdpKind} {ids : UdpMeta} {pkt plain : Bytes} {pktLen etOff : ℕ}
    (fragment : kind ≠ .full) (found : cryptoEthInnerEtOff pkt pktLen = some etOff)
    (inside : etOff ≤ pkt.length) (short : plain.length ≤ 1600)
    (ip : kind = .frag0 → 20 ≤ plain.length ∧ (plain.getD 0 0).toNat / 16 = 4 ∧
      20 ≤ (plain.getD 0 0).toNat % 16 * 4 ∧ (plain.getD 0 0).toNat % 16 * 4 ≤ plain.length) :
    OpenedUdp.Parts ⟨pkt.take etOff ++ [0x10, 0x4B] ++ plain, kind, ids⟩
      (pkt.take etOff ++ [0x10, 0x4B]) plain := by
  have length : (pkt.take etOff).length = etOff := by
    rw [List.length_take]
    omega
  have et : ethReadEt (pkt.take etOff ++ [0x10, 0x4B] ++ plain) etOff = l2FakeEthertypeUdp := by
    have read := ethReadEt_append (pkt.take etOff) plain 0x10 0x4B
    rw [length] at read
    rw [List.append_assoc]
    exact read
  refine ⟨fragment, rfl, ⟨etOff, ?_, ?_, ?_⟩, short, ip⟩
  · refine innerEtOff_congr found ?_ (by rw [et]; rfl) ?_
    · rw [List.append_assoc]
      exact List.take_left' length
    · simp only [List.length_append, List.length_cons, List.length_nil, length]
      omega
  · simp only [List.length_append, List.length_cons, List.length_nil, length]
  · rcases (innerEtOff_cases found).2.2 with rfl | ⟨rfl, -⟩
    · decide
    · decide

/-- A packet is what stands before its EtherType, the EtherType, and the two parts of the rest. -/
theorem take_eq_parts {pkt : Bytes} {pktLen etOff n : ℕ} (ip : ethReadEt pkt etOff = ethPIp)
    (fits : pktLen ≤ pkt.length) (inside : etOff + 2 + n ≤ pktLen) :
    pkt.take etOff ++ [0x08, 0x00] ++ (slice pkt (etOff + 2) n ++
      slice pkt (etOff + 2 + n) (pktLen - (etOff + 2) - n)) = pkt.take pktLen := by
  have whole : pktLen = etOff + (2 + (n + (pktLen - (etOff + 2) - n))) := by omega
  rw [whole, take_add_slice, slice_add, slice_add, slice_of_ethReadEt ip (by omega),
    List.append_assoc]
  have rest : etOff + (2 + (n + (pktLen - (etOff + 2) - n))) = pktLen := whole.symm
  rw [rest]

/-- Both frames are opened, and the table joins them to the packet, whichever comes first. -/
def Restored (aead : Aead) (ctx : PacketCryptoCtx) (ft : OptTable) (now₁ now₂ : BitVec 64)
    (frame0 frame1 packet : Bytes) : Prop :=
  ∃ p0 p1, l2DoDecryptUdp aead ctx frame0 frame0.length = some p0 ∧
    l2DoDecryptUdp aead ctx frame1 frame1.length = some p1 ∧
    (∃ ft', ft.l2Reassemble p0 now₁ = (ft', .held) ∧
      (ft'.l2Reassemble p1 now₂).2 = .joined packet) ∧
    ∃ ft', ft.l2Reassemble p1 now₁ = (ft', .held) ∧
      (ft'.l2Reassemble p0 now₂).2 = .joined packet

/-- A packet that was split is joined again. -/
theorem split_round_trip {aead : Aead} {ctx rctx : PacketCryptoCtx} {worker : UInt8}
    {nonce1 nonce0 : Option Nonce} {mtu pktLen : ℕ} {ids : UdpMeta} {pkt tail frame0 frame1 : Bytes}
    {ft : OptTable} {now₁ now₂ : BitVec 64} (fits : pktLen ≤ pkt.length) (short : pktLen ≤ 1518)
    (split : l2Split aead ctx worker nonce1 nonce0 mtu (some ids) pkt pktLen tail =
      some (frame0, frame1))
    (same0 : SameKey aead rctx ctx.keys.current frame0)
    (same1 : SameKey aead rctx ctx.keys.current frame1)
    (absent : ft.Absent ids.epoch ids.datagramId)
    (soon : (now₂ - now₁).toNat ≤ optFragTimeoutNs) :
    Restored aead rctx ft now₁ now₂ frame0 frame1 (pkt.take pktLen) := by
  obtain ⟨etOff, n, n0, n1, cipher0, cipher1, found, ip, point, encrypted0, encrypted1, -, -, rfl,
    rfl⟩ := l2Split_some split
  obtain ⟨version, header, first, both⟩ := splitPoint_some point
  have small : etOff ≤ 16 := by
    rcases (innerEtOff_cases found).2.2 with rfl | ⟨rfl, -⟩
    · decide
    · decide
  have inside : etOff ≤ pkt.length := by omega
  have length0 : (slice pkt (etOff + 2) n).length = n := length_slice (by omega)
  have length1 : (slice pkt (etOff + 2 + n) (pktLen - (etOff + 2) - n)).length =
      pktLen - (etOff + 2) - n := length_slice (by omega)
  have byte : (slice pkt (etOff + 2) n).getD 0 0 = pkt.getD (etOff + 2) 0 := by
    rw [slice, List.getD_eq_getElem?_getD, List.getElem?_take_of_lt (by omega),
      List.getElem?_drop, List.getD_eq_getElem?_getD]
  have sealed0 := aead.length_encrypt encrypted0
  have sealed1 := aead.length_encrypt encrypted1
  rw [List.length_append, length_l2UdpWriteShim, l2UdpShimSize] at sealed0 sealed1
  have opened0 := opened_sealed n0.length_toList found inside (by omega) encrypted0 same0
  have opened1 := opened_sealed n1.length_toList found inside (by omega) encrypted1 same1
  have parts0 := @parts_fragment .frag0 ids pkt (slice pkt (etOff + 2) n) pktLen etOff (by decide)
    found inside (by omega) (fun _ => ⟨by omega, by rw [byte]; exact version,
      by rw [byte]; exact header, by rw [byte]; omega⟩)
  have parts1 := @parts_fragment .frag1 ids pkt
    (slice pkt (etOff + 2 + n) (pktLen - (etOff + 2) - n)) pktLen etOff (by decide) found inside
    (by omega) (fun kind => by cases kind)
  refine ⟨_, _, opened0, opened1, ?_⟩
  have taken : (pkt.take etOff).length = etOff := by
    rw [List.length_take]
    omega
  have eth : (pkt.take etOff ++ [0x10, 0x4B]).length = etOff + 2 := by
    rw [List.length_append, taken]
    rfl
  have frameSize : neFrame = 2048 := rfl
  have joined := OptTable.joined_of_parts (p := ⟨_, .frag0, ids⟩) (q := ⟨_, .frag1, ids⟩) absent
    rfl rfl rfl parts0 parts1 soon (by omega)
  have restored : cryptoEthSetIpv4Et (pkt.take etOff ++ [0x10, 0x4B] ++ slice pkt (etOff + 2) n ++
      slice pkt (etOff + 2 + n) (pktLen - (etOff + 2) - n))
      ((pkt.take etOff ++ [0x10, 0x4B]).length - 2) = pkt.take pktLen := by
    rw [eth, Nat.add_sub_cancel, List.append_assoc, cryptoEthSetIpv4Et]
    have swapped := @blit_append _ [0x08, 0x00] (pkt.take etOff) [0x10, 0x4B]
      (slice pkt (etOff + 2) n ++ slice pkt (etOff + 2 + n) (pktLen - (etOff + 2) - n)) rfl
    rw [taken] at swapped
    rw [swapped, take_eq_parts ip fits (by omega)]
  rw [restored] at joined
  exact joined

/-- Sixteen bytes of a key. -/
def keyTag (key : TrafficKey) : Bytes :=
  (List.range 16).map fun i => .ofNat (key.toNat / 2 ^ (8 * i))

/-- A cipher that authenticates the key alone. -/
def sampleAead : Aead where
  encrypt key _ plain := some (plain ++ keyTag key)
  decrypt key _ cipher :=
    if cipher.drop (cipher.length - 16) = keyTag key then some (cipher.take (cipher.length - 16))
    else none
  length_encrypt := by
    intro key nonce plain cipher made
    obtain rfl := Option.some.inj made
    simp [keyTag]
  decrypt_encrypt := by
    intro key nonce plain cipher made
    obtain rfl := Option.some.inj made
    simp [keyTag]

/-- A UDP packet of 470 bytes in a buffer of `NE_FRAME` bytes. -/
def samplePacket : Bytes :=
  .replicate 12 0x22 ++ [0x08, 0x00, 0x45] ++ .replicate 8 0 ++ [17] ++ .replicate 446 0x61 ++
    .replicate 1578 0

def sampleIds : UdpMeta := ⟨1, 2, 3⟩

/-- The frames of the packet at an MTU of 512. -/
def sampleSplit : Option (Bytes × Bytes) :=
  l2Split sampleAead (ctxWithCurrent 1) 0 (some (Vector.replicate 12 8))
    (some (Vector.replicate 12 9)) 512 (some sampleIds) samplePacket 470 (.replicate 2048 0)

def sampleFrames : Bytes × Bytes := sampleSplit.getD ([], [])

theorem sampleSplit_eq : sampleSplit = some (sampleFrames.1, sampleFrames.2) := by
  have made : sampleSplit.isSome = true := by decide +kernel
  obtain ⟨frames, made⟩ := Option.isSome_iff_exists.mp made
  rw [sampleFrames, made]
  rfl

/-- A receiver that has the key of the sender alone. -/
theorem sameKey_sample (frame : Bytes) : SameKey sampleAead (ctxWithCurrent 1) 1 frame where
  loads := by decide
  held := by decide
  others := by
    have only : candidates (ctxWithCurrent 1) = [1] := by decide
    intro k mem other
    rw [only, List.mem_singleton] at mem
    exact absurd mem other

theorem absent_zero (epoch datagramId : BitVec 32) :
    OptTable.Absent (fun _ => .zero) epoch datagramId := by
  intro _ _ occupied
  cases occupied

theorem sample_round_trip :
    Restored sampleAead (ctxWithCurrent 1) (fun _ => .zero) 0 200000000 sampleFrames.1
      sampleFrames.2 (samplePacket.take 470) := by
  have split := sampleSplit_eq
  rw [sampleSplit] at split
  exact split_round_trip (by decide +kernel) (by decide) split (sameKey_sample _)
    (sameKey_sample _) (absent_zero _ _) (by decide)

/-- A fragment that waits for more than `OPT_FRAG_TIMEOUT_NS` is dropped. -/
theorem late_not_restored :
    l2UdpNeedSplit 512 470 = true ∧ sampleSplit = some (sampleFrames.1, sampleFrames.2) ∧
      SameKey sampleAead (ctxWithCurrent 1) 1 sampleFrames.1 ∧
      SameKey sampleAead (ctxWithCurrent 1) 1 sampleFrames.2 ∧
      OptTable.Absent (fun _ => .zero) sampleIds.epoch sampleIds.datagramId ∧
      ¬ Restored sampleAead (ctxWithCurrent 1) (fun _ => .zero) 0 200000001 sampleFrames.1
        sampleFrames.2 (samplePacket.take 470) := by
  refine ⟨by decide, sampleSplit_eq, sameKey_sample _, sameKey_sample _, absent_zero _ _, ?_⟩
  rintro ⟨p0, p1, opened0, opened1, ⟨ft', held, joined⟩, -⟩
  have late : ((l2DoDecryptUdp sampleAead (ctxWithCurrent 1) sampleFrames.1
      sampleFrames.1.length).bind fun p0 => (l2DoDecryptUdp sampleAead (ctxWithCurrent 1)
        sampleFrames.2 sampleFrames.2.length).map fun p1 =>
          ((OptTable.l2Reassemble (fun _ => .zero) p0 0).1.l2Reassemble p1 200000001).2) =
      some .held := by
    decide +kernel
  rw [opened0, opened1, Option.bind_some, Option.map_some, held, joined] at late
  cases late

end NeEncryptor
