import NeEncryptor.Dataplane.FrameCustody

/-!
# What leaves for the WANs

A frame from a LAN whose policy encrypts leaves sealed under the key of that policy, or not at all.
-/

namespace NeEncryptor

open Buffer Custody

namespace Edge

variable {n : ℕ} {e : Edge n} {x : LocalDraws} {job : Job} {d : ℕ} {frame : Bytes}

/-- No BYPASS policy is selected for the frame. -/
def Encrypts (e : Edge n) (job : Job) : Prop :=
  ∀ t cp, dpParseFlow job.frame job.len = some t →
    configSelectCryptoPolicy e.cfg 0 t = some cp → cp.action ≠ .bypass

/-- The context at the place of the selected policy, if there is one, is that of the policy. -/
def OwnContext (e : Edge n) (job : Job) : Prop :=
  ∀ t pi cp ctx, dpParseFlow job.frame job.len = some t →
    e.pickProfilePolicy (e.ingressLocal job) (some t) = some (pi, cp) →
    e.fwdCryptoPolicyCtx pi = some ctx → ctx.policyId = cp.dbId ∧ ctx.wireId = .ofInt cp.id

/-- An encoder made the frame under the CURRENT key of the selected policy. -/
structure EncodedUnder (e : Edge n) (x : LocalDraws) (job : Job) (t : FiveTuple)
    (cp : CryptoPolicy) (ctx : PacketCryptoCtx) (etOff : ℕ) (frame : Bytes) : Prop where
  flow : dpParseFlow job.frame job.len = some t
  selected : configSelectCryptoPolicy e.cfg 0 t = some cp
  policyId : ctx.policyId = cp.dbId
  wireId : ctx.wireId = .ofInt cp.id
  encoded : EncodedBy e x job t.protocol ctx frame
  sealed : SealedUnder e.aead ctx.keys.current (job.frame.take etOff) frame
  marker : ethReadEt frame etOff = l2FakeEthertype ∨ ethReadEt frame etOff = l2FakeEthertypeUdp

/-- A trace that sends nothing to a WAN frees the frame. -/
def FreesUnsent (addr : FrameAddr) (es : List FrameEvent) : Prop :=
  wanPushes es = [] → .release addr .pool ∈ es

/-- What is pushed is encoded, and where nothing is pushed the frame is dropped. -/
structure OutEnforced (e : Edge n) (x : LocalDraws) (job : Job) : Prop where
  encoded : ∀ d frame, (d, frame) ∈ wanPushes (e.dataplaneProcessLocal x job) →
    ∃ t cp ctx etOff, EncodedUnder e x job t cp ctx etOff frame
  drops : FreesUnsent job.addr (e.dataplaneProcessLocal x job)

theorem index_of_pick {localIdx pi : ℕ} {t : FiveTuple} {cp : CryptoPolicy}
    (picked : e.pickProfilePolicy localIdx (some t) = some (pi, cp)) :
    configSelectPolicyIndex e.cfg 0 t = some pi ∧ e.cfg.policies[pi]? = some cp := by
  unfold pickProfilePolicy at picked
  split at picked
  · cases picked
  split at picked
  · cases picked
  · obtain ⟨place, chosen, here⟩ := Option.bind_eq_some_iff.mp picked
    obtain ⟨policy, isPolicy, same⟩ := Option.map_eq_some_iff.mp here
    cases same
    exact ⟨chosen, isPolicy⟩

theorem select_of_pick {localIdx pi : ℕ} {t : FiveTuple} {cp : CryptoPolicy}
    (picked : e.pickProfilePolicy localIdx (some t) = some (pi, cp)) :
    configSelectCryptoPolicy e.cfg 0 t = some cp := by
  rw [← configSelectPolicyIndex_policy]
  exact Option.bind_eq_some_iff.mpr ⟨pi, index_of_pick picked⟩

theorem marker_of_sealed {key : TrafficKey} {aead : Aead} {hdr : Bytes}
    (sent : SealedUnder aead key hdr frame) :
    ethReadEt frame hdr.length = l2FakeEthertype ∨
      ethReadEt frame hdr.length = l2FakeEthertypeUdp := by
  obtain ⟨-, wireId, worker, nonce, plain, cipher, -, rfl | rfl⟩ := sent
  · exact .inl (ethReadEt_headedFrame hdr nonce.toList cipher 0x4A wireId worker)
  · rw [wireFrame_eq_headed]
    exact .inr (ethReadEt_headedFrame hdr nonce.toList _ 0x4B wireId worker)

theorem encodedUnder_of_mem (data : dpPktIsArp job.frame = false) (encrypts : e.Encrypts job)
    (own : e.OwnContext job) (pushed : (d, frame) ∈ wanPushes (e.dataplaneProcessLocal x job)) :
    ∃ t cp ctx etOff, EncodedUnder e x job t cp ctx etOff frame := by
  cases pushedFromLocal_of_mem pushed with
  | arp isArp =>
    rw [data] at isArp
    cases isArp
  | bypass flow picked bypasses => exact absurd bypasses (encrypts _ _ flow (select_of_pick picked))
  | @encrypted pi cp t ctx flow picked _ loaded encoded =>
    obtain ⟨etOff, ip⟩ := ipv4Offset_of_flow flow
    obtain ⟨policyId, wireId⟩ := own t pi cp ctx flow picked loaded
    have sealed := encoded.sealed ip
    have marker := marker_of_sealed sealed
    obtain ⟨etOff', same, -, -, long⟩ := ipv4Offset_some ip
    have header : (job.frame.take etOff).length = etOff := by
      rw [List.length_take, length_frame]
      omega
    rw [header] at marker
    exact ⟨t, cp, ctx, etOff, flow, select_of_pick picked, policyId, wireId, encoded, sealed, marker⟩

/-! ### What is not pushed -/

theorem freesUnsent_dropped (a b : FrameAddr) : FreesUnsent b [.use a, .release b .pool] :=
  fun _ => List.mem_cons_of_mem _ (List.mem_singleton_self _)

theorem FreesUnsent.cons {a b : FrameAddr} {es : List FrameEvent} (frees : FreesUnsent b es) :
    FreesUnsent b (.use a :: es) :=
  fun nothing => List.mem_cons_of_mem _ (frees nothing)

theorem FreesUnsent.after {b : FrameAddr} {es es' : List FrameEvent} (frees : FreesUnsent b es') :
    FreesUnsent b (es ++ es') := by
  intro nothing
  rw [wanPushes_append, List.append_eq_nil_iff] at nothing
  exact List.mem_append_right _ (frees nothing.2)

theorem freesUnsent_dpRingPush (e : Edge n) (d : ℕ) (addr : FrameAddr) (bytes : Bytes) :
    FreesUnsent addr (e.dpRingPush (.wan d) addr bytes).1 := by
  rcases e.dpRingPush_cases (.wan d) addr bytes with full | ⟨-, -, done⟩
  · rw [full]
    exact fun _ => List.mem_singleton_self _
  · rw [done]
    exact fun nothing => nomatch nothing

/-- `encrypt_to_wan` says that it pushed only where it did. -/
def PushesIfSo (r : List FrameEvent × EncryptResult) : Prop := r.2 = .pushed → wanPushes r.1 ≠ []

theorem pushesIfSo_encryptToWan (e : Edge n) (x : LocalDraws) (job : Job) (buffer : Bytes) (d : ℕ)
    (ctx : PacketCryptoCtx) (pclass : ProtoClass) :
    PushesIfSo (e.encryptToWan x job buffer d ctx pclass) := by
  unfold encryptToWan
  split
  · exact fun pushed => nomatch pushed
  split
  · split
    · exact fun pushed => nomatch pushed
    · rename_i tail tailBuf _
      split
      · exact fun pushed => nomatch pushed
      · rename_i frame0 frame1 _
        dsimp only
        rcases e.pushSplitToWan_cases job.addr tail frame0 frame1 d with full | both
        · rw [full]
          exact fun pushed => nomatch pushed
        · rw [both]
          exact fun _ nothing => nomatch nothing
  · split
    · exact fun pushed => nomatch pushed
    · exact fun pushed => nomatch pushed

theorem freesUnsent_encryptFromLocal (e : Edge n) (x : LocalDraws) (job : Job) (pi d : ℕ)
    (proto : BitVec 8) : FreesUnsent job.addr (e.encryptFromLocal x job pi d proto) := by
  unfold encryptFromLocal
  split
  · exact fun _ => List.mem_singleton_self _
  split
  · exact freesUnsent_dropped _ _
  · rename_i ctx _
    have told := e.pushesIfSo_encryptToWan x job (egressBuffer job proto) d ctx
      (cryptoProtoClassify proto)
    split
    · exact FreesUnsent.after fun _ => List.mem_singleton_self _
    · exact FreesUnsent.after (e.freesUnsent_dpRingPush d job.addr _)
    · rename_i events tried
      rw [tried] at told
      exact fun nothing => absurd nothing (told rfl)

/-- A data frame that is not pushed is freed. -/
theorem freesUnsent_processLocal (data : dpPktIsArp job.frame = false) :
    FreesUnsent job.addr (e.dataplaneProcessLocal x job) := by
  unfold dataplaneProcessLocal
  dsimp only
  rw [if_neg (by rw [data]; decide)]
  refine FreesUnsent.cons ?_
  split
  · split
    · exact fun _ => List.mem_singleton_self _
    · split
      · exact e.freesUnsent_dpRingPush _ _ _
      · exact e.freesUnsent_encryptFromLocal x job _ _ _
  · exact fun _ => List.mem_singleton_self _

theorem outEnforced (data : dpPktIsArp job.frame = false) (encrypts : e.Encrypts job)
    (own : e.OwnContext job) : e.OutEnforced x job where
  encoded := fun _ _ pushed => encodedUnder_of_mem data encrypts own pushed
  drops := freesUnsent_processLocal data

/-! ### Outside of a reload -/

theorem ownContext_of_paired {st : PairState n} {w : Fin n} (cfg : e.cfg = st.cfg)
    (rt : e.rt = st.rt) (worker : e.worker = some w) (encrypts : e.Encrypts job)
    (paired : ∀ t, st.Paired w t) : e.OwnContext job := by
  intro t pi cp ctx flow picked loaded
  have selected := select_of_pick picked
  obtain ⟨chosen, here⟩ := index_of_pick picked
  have isEncrypt : cp.isEncrypt = true := by
    cases action : cp.action with
    | bypass => exact absurd action (encrypts t cp flow selected)
    | encryptL2 =>
      rw [CryptoPolicy.isEncrypt, action]
      rfl
  unfold fwdCryptoPolicyCtx at loaded
  split at loaded
  · cases loaded
  · rw [worker] at loaded
    rw [cfg] at chosen here
    exact paired t pi cp chosen here isEncrypt ctx (rt ▸ loaded)

/-- While the contexts are those of the configuration, a crypto worker enforces every policy that
encrypts. -/
theorem outEnforced_of_settled {now : ℕ} {views : ℕ → KeyView} {cfg : AppConfig} {st : PairState n}
    {w : Fin n}
    (reached : Transition.ReachableWith PairState.step PairState.Recent
      (.initial now views cfg) st)
    (settled : st.built = st.cfg) (sameCfg : e.cfg = st.cfg) (sameRt : e.rt = st.rt)
    (worker : e.worker = some w) (data : dpPktIsArp job.frame = false)
    (encrypts : e.Encrypts job) : e.OutEnforced x job := by
  have inv := PairState.inv_of_reachable reached
  refine outEnforced data encrypts (ownContext_of_paired sameCfg sameRt worker encrypts fun t => ?_)
  refine inv.paired_of_aligned w ?_
  rw [settled]
  exact PairState.aligned_self st.cfg t

end Edge

end NeEncryptor
