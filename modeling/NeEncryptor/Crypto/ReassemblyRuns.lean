import NeEncryptor.Crypto.SplitRoundTrip
import NeEncryptor.Lib.Transition

/-!
# Runs of a reassembly table

Whatever is fed to a table and whenever it is swept, a frame that it returns is made of a first and a
second fragment of one datagram, and neither of them has timed out.
-/

namespace NeEncryptor

open Buffer

namespace OpenedUdp

variable (p : OpenedUdp)

/-- The bytes of the Ethernet header of an opened frame. -/
def wirePrefix : ℕ :=
  match cryptoEthInnerEtOff p.packet p.packet.length with
  | none => 0
  | some etOff => etOff + 2

def ethHdr : Bytes := p.packet.take p.wirePrefix

def payload : Bytes := p.packet.drop p.wirePrefix

end OpenedUdp

/-- The entries that one call of `opt_frag_gc_table` looks at. -/
def gcSlice : ℕ := 256

/-- The loop of `opt_frag_gc_table` from entry `start` on. -/
def gcFrom (now : BitVec 64) (start : ℕ) (ft : OptTable) : ℕ → OptTable
  | 0 => ft
  | n + 1 =>
    let ft := gcFrom now start ft n
    let i := (start + n) % optFragTableSize
    if (ft i).occupied && (ft i).expired now then Function.update ft i (ft i).clear else ft

/-- `struct opt_table`, with the fragments that were fed to it. -/
structure ReasmState where
  entries : OptTable
  gcCursor : ℕ
  fed : List (OpenedUdp × BitVec 64)

/-- The table that `calloc` returns. -/
def ReasmState.initial : ReasmState := ⟨fun _ => .zero, 0, []⟩

inductive ReasmEvent
  /-- `l2_reassemble` of a fragment. -/
  | feed (p : OpenedUdp) (now : BitVec 64)
  /-- `opt_frag_gc_table`. -/
  | gc (now : BitVec 64)

def ReasmState.step (st : ReasmState) : ReasmEvent → Option ReasmState
  | .feed p now =>
    some { st with entries := (st.entries.l2Reassemble p now).1, fed := (p, now) :: st.fed }
  | .gc now =>
    some { st with
      entries := gcFrom now st.gcCursor st.entries gcSlice
      gcCursor := (st.gcCursor + gcSlice) % optFragTableSize }

/-- The frame is the header and payload of a first fragment with the payload of a second one, which
are of one datagram and have not timed out. -/
def JoinedFrom (fed : List (OpenedUdp × BitVec 64)) (now : BitVec 64) (frame : Bytes) : Prop :=
  ∃ F tF G tG, (F, tF) ∈ fed ∧ (G, tG) ∈ fed ∧ F.kind = .frag0 ∧ G.kind = .frag1 ∧
    F.ids = G.ids ∧ (now - tF).toNat ≤ optFragTimeoutNs ∧ (now - tG).toNat ≤ optFragTimeoutNs ∧
    frame = cryptoEthSetIpv4Et (F.ethHdr ++ F.payload ++ G.payload) (F.ethHdr.length - 2)

/-- The entry has the header and the payload of the first fragment. -/
structure OptEntry.FirstFrom (e : OptEntry) (F : OpenedUdp) : Prop where
  kind : F.kind = .frag0
  ids : F.ids = e.ids
  size : 2 ≤ e.ethLen
  ethLen : e.ethLen = F.ethHdr.length
  ethHdr : e.ethHdr.take e.ethLen = F.ethHdr
  payload : e.first.take e.firstLen = F.payload

/-- The entry has the payload of the second fragment. -/
structure OptEntry.SecondFrom (e : OptEntry) (G : OpenedUdp) : Prop where
  kind : G.kind = .frag1
  ids : G.ids = e.ids
  payload : e.second.take e.secondLen = G.payload

/-- What waits in an entry was fed at the time that the entry has. -/
structure OptEntry.Sourced (fed : List (OpenedUdp × BitVec 64)) (e : OptEntry) : Prop where
  one : e.gotFirst = true → e.gotSecond = false
  first : e.gotFirst = true → ∃ F, (F, e.timestampNs) ∈ fed ∧ e.FirstFrom F
  second : e.gotSecond = true → ∃ G, (G, e.timestampNs) ∈ fed ∧ e.SecondFrom G

/-- Entries that are kept or cleared. -/
def OptTable.Thinned (ft ft' : OptTable) : Prop := ∀ j, ft' j = ft j ∨ ft' j = (ft j).clear

section Entry

variable {e : OptEntry} {p : OpenedUdp} {now : BitVec 64} {fed fed' : List (OpenedUdp × BitVec 64)}

@[simp] theorem OptEntry.clear_clear (e : OptEntry) : e.clear.clear = e.clear := rfl

theorem OptEntry.Sourced.empty (first : e.gotFirst = false) (second : e.gotSecond = false) :
    e.Sourced fed where
  one got := absurd got (by rw [first]; decide)
  first got := absurd got (by rw [first]; decide)
  second got := absurd got (by rw [second]; decide)

theorem OptEntry.Sourced.clear (e : OptEntry) : e.clear.Sourced fed := .empty rfl rfl

theorem OptEntry.Sourced.mono (sourced : e.Sourced fed) (more : fed ⊆ fed') : e.Sourced fed' where
  one := sourced.one
  first got := by
    obtain ⟨F, mem, holds⟩ := sourced.first got
    exact ⟨F, more mem, holds⟩
  second got := by
    obtain ⟨G, mem, holds⟩ := sourced.second got
    exact ⟨G, more mem, holds⟩

theorem OptTable.Thinned.sourced {ft ft' : OptTable} (thinned : ft.Thinned ft')
    (sourced : ∀ j, (ft j).Sourced fed) (j : ℕ) : (ft' j).Sourced fed := by
  rcases thinned j with kept | cleared
  · rw [kept]
    exact sourced j
  · rw [cleared]
    exact .clear _

/-- A prepared entry is empty, or it is the datagram's and has not timed out. -/
theorem OptEntry.prepare_cases (e : OptEntry) (ids : UdpMeta) (now : BitVec 64) :
    ((e.prepare ids now).gotFirst = false ∧ (e.prepare ids now).gotSecond = false) ∨
      (e.ids = ids ∧ e.expired now = false ∧ e.prepare ids now = { e with timestampNs := now }) := by
  by_cases other : e.ids = ids
  · cases expired : e.expired now with
    | true =>
      cases occupied : e.occupied with
      | true => exact .inl (by simp [prepare, occupied, expired, clear])
      | false =>
        have empty : e.gotFirst = false ∧ e.gotSecond = false := by
          simpa [OptEntry.occupied] using occupied
        exact .inl (by simp [prepare, other, occupied, empty])
    | false => exact .inr ⟨other, rfl, prepare_same other expired⟩
  · exact .inl (by simp [prepare, other, clear])

/-- A returned frame is what the entry has. -/
theorem optEmitJoin_joined {frame : Bytes} (joined : (optEmitJoin e).2 = .joined frame) :
    e.gotFirst = true ∧ e.gotSecond = true ∧ (2 ≤ e.ethLen →
      frame = cryptoEthSetIpv4Et (e.ethHdr.take e.ethLen ++ e.first.take e.firstLen ++
        e.second.take e.secondLen) (e.ethLen - 2)) := by
  unfold optEmitJoin at joined
  dsimp only at joined
  generalize len : (if e.ethLen ≠ 0 then e.ethLen else ethHeaderSize) = ethLen at joined
  split at joined
  · cases joined
  split at joined
  · cases joined
  · rename_i both _
    cases joined
    rw [Bool.not_eq_true, Bool.or_eq_false_iff, Bool.not_eq_false', Bool.not_eq_false'] at both
    refine ⟨both.1, both.2, fun size => ?_⟩
    rw [if_pos (show e.ethLen ≠ 0 by omega)] at len
    rw [← len, if_pos size]

/-- An entry is cleared as soon as it has both parts. -/
theorem optEmitJoin_fst (e : OptEntry) :
    (optEmitJoin e).1 = e ∧ (e.gotFirst = true → e.gotSecond = false) ∨
      (optEmitJoin e).1 = e.clear := by
  unfold optEmitJoin
  dsimp only
  generalize (if e.ethLen ≠ 0 then e.ethLen else ethHeaderSize) = ethLen
  split
  · rename_i missing
    exact .inl ⟨rfl, fun got => by simpa [got] using missing⟩
  split
  · exact .inr rfl
  · exact .inr rfl

end Entry

section Step

variable {ft : OptTable} {p : OpenedUdp} {now : BitVec 64} {e : OptEntry}
  {fed : List (OpenedUdp × BitVec 64)}

theorem OptTable.Thinned.refl (ft : OptTable) : ft.Thinned ft := fun _ => .inl rfl

theorem OptTable.Thinned.clear {ft' : OptTable} (thinned : ft.Thinned ft') (idx : ℕ) :
    ft.Thinned (Function.update ft' idx (ft' idx).clear) := by
  intro j
  by_cases here : j = idx
  · subst here
    rw [Function.update_self]
    rcases thinned j with kept | cleared
    · exact .inr (by rw [kept])
    · exact .inr (by rw [cleared, OptEntry.clear_clear])
  · rw [Function.update_of_ne here]
    exact thinned j

/-- The search for a slot drops what has timed out, and nothing else. -/
theorem OptTable.pickFrom_thinned {epoch datagramId : BitVec 32} {base : ℕ} (is : List ℕ)
    (ft' : OptTable) (emptyIdx oldestIdx : Option ℕ) (oldestAge : ℕ) (thinned : ft.Thinned ft') :
    ft.Thinned (pickFrom epoch datagramId now base ft' emptyIdx oldestIdx oldestAge is).1 := by
  induction is generalizing ft' emptyIdx oldestIdx oldestAge with
  | nil => exact thinned
  | cons idx is ih =>
    unfold pickFrom
    dsimp only
    split
    · split
      · exact thinned
      · split
        · exact ih _ _ _ _ thinned
        · exact ih _ _ _ _ thinned
    · split
      · exact ih _ _ _ _ (thinned.clear idx)
      · exact ih _ _ _ _ thinned

/-- The sweep drops what has timed out, and nothing else. -/
theorem OptTable.gcFrom_thinned (start n : ℕ) : ft.Thinned (gcFrom now start ft n) := by
  induction n with
  | zero => exact .refl ft
  | succ n ih =>
    unfold gcFrom
    dsimp only
    split
    · exact ih.clear _
    · exact ih

/-- A call fails, or it puts the fragment into an entry of the table. -/
theorem l2Reassemble_cases (ft : OptTable) (p : OpenedUdp) (now : BitVec 64) :
    ∃ ft', ft.Thinned ft' ∧ (ft.l2Reassemble p now = (ft', .failed) ∨
      ∃ idx, p.kind ≠ .full ∧ 2 ≤ p.ethHdr.length ∧ ft.l2Reassemble p now =
        (Function.update ft' idx
            (optEmitJoin (p.put p.ethHdr p.payload ((ft' idx).prepare p.ids now))).1,
          (optEmitJoin (p.put p.ethHdr p.payload ((ft' idx).prepare p.ids now))).2)) := by
  have picked : ft.Thinned (ft.optPickSlot p.ids.epoch p.ids.datagramId now).1 :=
    OptTable.pickFrom_thinned _ ft none none 0 (.refl ft)
  unfold OptTable.l2Reassemble
  cases found : cryptoEthInnerEtOff p.packet p.packet.length with
  | none => exact ⟨ft, .refl ft, .inl rfl⟩
  | some etOff =>
    have pre : p.wirePrefix = etOff + 2 := by rw [OpenedUdp.wirePrefix, found]
    have eth : p.ethHdr = p.packet.take (etOff + 2) := by rw [OpenedUdp.ethHdr, pre]
    have plain : p.payload = p.packet.drop (etOff + 2) := by rw [OpenedUdp.payload, pre]
    have size : 2 ≤ p.ethHdr.length := by
      have long := (innerEtOff_cases found).2.1
      rw [eth, List.length_take]
      omega
    dsimp only
    split
    · exact ⟨ft, .refl ft, .inl rfl⟩
    generalize ft.optPickSlot p.ids.epoch p.ids.datagramId now = slot at picked ⊢
    obtain ⟨ft', idx⟩ := slot
    dsimp only at picked ⊢
    rw [← plain, ← eth]
    cases kind : p.kind with
    | full => exact ⟨ft', picked, .inl rfl⟩
    | frag0 =>
      dsimp only
      split
      · exact ⟨ft', picked, .inl rfl⟩
      split
      · exact ⟨ft', picked, .inl rfl⟩
      unfold OptEntry.storeFirst
      split
      · exact ⟨ft', picked, .inl rfl⟩
      · refine ⟨ft', picked, .inr ⟨idx, by decide, size, ?_⟩⟩
        rename_i stored
        split at stored
        · cases stored
        split at stored
        · cases stored
        · cases stored
          simp only [OpenedUdp.put, kind, if_true]
    | frag1 =>
      dsimp only
      -- An expired half of the datagram is cleared before the entry is prepared.
      generalize chosen : (if (ft' idx).occupied &&
        (ft' idx).holds p.ids.epoch p.ids.datagramId && (ft' idx).expired now then
          (ft' idx).clear else ft' idx) = e
      obtain ⟨ft'', thinned, same, updated⟩ : ∃ ft'' : OptTable, ft.Thinned ft'' ∧ ft'' idx = e ∧
          ∀ x, Function.update ft'' idx x = Function.update ft' idx x := by
        rw [← chosen]
        split
        · exact ⟨_, picked.clear idx, Function.update_self .., fun x => Function.update_idem ..⟩
        · exact ⟨ft', picked, rfl, fun _ => rfl⟩
      refine ⟨ft'', thinned, ?_⟩
      rw [← updated e, ← same, Function.update_eq_self]
      unfold OptEntry.storeSecond
      split
      · exact .inl rfl
      · rename_i stored
        split at stored
        · cases stored
        · cases stored
          refine .inr ⟨idx, by decide, size, ?_⟩
          rw [updated]
          simp only [OpenedUdp.put, kind, if_neg (show L2UdpKind.frag1 ≠ .frag0 by decide)]

/-- What waits in an entry was fed and has not timed out. -/
structure OptEntry.Live (fed : List (OpenedUdp × BitVec 64)) (now : BitVec 64) (e : OptEntry) :
    Prop where
  first : e.gotFirst = true →
    ∃ F t, (F, t) ∈ fed ∧ (now - t).toNat ≤ optFragTimeoutNs ∧ e.FirstFrom F
  second : e.gotSecond = true →
    ∃ G t, (G, t) ∈ fed ∧ (now - t).toNat ≤ optFragTimeoutNs ∧ e.SecondFrom G

theorem OptEntry.Sourced.prepare_live (sourced : e.Sourced fed) (ids : UdpMeta) (now : BitVec 64) :
    (e.prepare ids now).Live fed now := by
  rcases e.prepare_cases ids now with empty | ⟨-, fresh, same⟩
  · refine ⟨fun got => ?_, fun got => ?_⟩
    · exact absurd got (by rw [empty.1]; decide)
    · exact absurd got (by rw [empty.2]; decide)
  · have soon : (now - e.timestampNs).toNat ≤ optFragTimeoutNs :=
      Nat.not_lt.mp (of_decide_eq_false fresh)
    rw [same]
    refine ⟨fun got => ?_, fun got => ?_⟩
    · obtain ⟨F, mem, kind, ids, size, ethLen, ethHdr, payload⟩ := sourced.first got
      exact ⟨F, _, mem, soon, kind, ids, size, ethLen, ethHdr, payload⟩
    · obtain ⟨G, mem, kind, ids, payload⟩ := sourced.second got
      exact ⟨G, _, mem, soon, kind, ids, payload⟩

theorem OpenedUdp.put_first (kind : p.kind = .frag0) (size : 2 ≤ p.ethHdr.length)
    (ids : e.ids = p.ids) :
    (p.put p.ethHdr p.payload e).FirstFrom p ∧
      (p.put p.ethHdr p.payload e).gotSecond = e.gotSecond := by
  rw [put, if_pos kind]
  exact ⟨⟨kind, ids.symm, size, rfl, take_blit_zero _ _, take_blit_zero _ _⟩, rfl⟩

theorem OpenedUdp.put_second (kind : p.kind = .frag1) (ids : e.ids = p.ids) :
    (p.put p.ethHdr p.payload e).SecondFrom p ∧
      (p.put p.ethHdr p.payload e).gotFirst = e.gotFirst := by
  rw [put, if_neg (by rw [kind]; decide)]
  exact ⟨⟨kind, ids.symm, take_blit_zero _ _⟩, rfl⟩

/-- A fragment that is put into an entry takes its place there. -/
theorem OptEntry.Live.put (live : e.Live fed now) (fragment : p.kind ≠ .full)
    (size : 2 ≤ p.ethHdr.length) (ids : e.ids = p.ids) :
    (p.put p.ethHdr p.payload e).Live ((p, now) :: fed) now := by
  have soon : (now - now).toNat ≤ optFragTimeoutNs := by
    rw [BitVec.sub_self]
    exact Nat.zero_le _
  cases kind : p.kind with
  | frag0 =>
    obtain ⟨from_p, second⟩ := OpenedUdp.put_first kind size ids
    refine ⟨fun _ => ⟨p, now, List.mem_cons_self, soon, from_p⟩, fun got => ?_⟩
    obtain ⟨G, t, mem, fresh, kindG, idsG, payload⟩ := live.second (second.symm.trans got)
    refine ⟨G, t, List.mem_cons_of_mem _ mem, fresh, ?_⟩
    rw [OpenedUdp.put, if_pos kind]
    exact ⟨kindG, idsG, payload⟩
  | frag1 =>
    obtain ⟨from_p, first⟩ := OpenedUdp.put_second kind ids
    refine ⟨fun got => ?_, fun _ => ⟨p, now, List.mem_cons_self, soon, from_p⟩⟩
    obtain ⟨F, t, mem, fresh, kindF, idsF, sizeF, ethLen, ethHdr, payload⟩ :=
      live.first (first.symm.trans got)
    refine ⟨F, t, List.mem_cons_of_mem _ mem, fresh, ?_⟩
    rw [OpenedUdp.put, if_neg (by rw [kind]; decide)]
    exact ⟨kindF, idsF, sizeF, ethLen, ethHdr, payload⟩
  | full => exact absurd kind fragment

theorem OptEntry.Live.joined {frame : Bytes} (live : e.Live fed now)
    (joined : (optEmitJoin e).2 = .joined frame) : JoinedFrom fed now frame := by
  obtain ⟨first, second, made⟩ := optEmitJoin_joined joined
  obtain ⟨F, tF, memF, freshF, kindF, idsF, size, ethLen, ethHdr, payloadF⟩ := live.first first
  obtain ⟨G, tG, memG, freshG, kindG, idsG, payloadG⟩ := live.second second
  refine ⟨F, tF, G, tG, memF, memG, kindF, kindG, idsF.trans idsG.symm, freshF, freshG, ?_⟩
  rw [made size, ethHdr, payloadF, payloadG, ethLen]

/-- An entry that waits has the fragment that was put last, and no other. -/
theorem OpenedUdp.put_sourced (fragment : p.kind ≠ .full) (size : 2 ≤ p.ethHdr.length)
    (ids : e.ids = p.ids) (time : e.timestampNs = now) :
    (optEmitJoin (p.put p.ethHdr p.payload e)).1.Sourced ((p, now) :: fed) := by
  have stamped : (p.put p.ethHdr p.payload e).timestampNs = now := by
    unfold put
    split
    · exact time
    · exact time
  rcases optEmitJoin_fst (p.put p.ethHdr p.payload e) with ⟨same, one⟩ | cleared
  · rw [same]
    cases kind : p.kind with
    | frag0 =>
      have got : (p.put p.ethHdr p.payload e).gotFirst = true := by rw [put, if_pos kind]
      refine ⟨one, fun _ => ⟨p, ?_, (put_first kind size ids).1⟩, fun second => ?_⟩
      · rw [stamped]
        exact List.mem_cons_self
      · rw [one got] at second
        cases second
    | frag1 =>
      have got : (p.put p.ethHdr p.payload e).gotSecond = true := by
        rw [put, if_neg (by rw [kind]; decide)]
      refine ⟨one, fun first => ?_, fun _ => ⟨p, ?_, (put_second kind ids).1⟩⟩
      · rw [one first] at got
        cases got
      · rw [stamped]
        exact List.mem_cons_self
    | full => exact absurd kind fragment
  · rw [cleared]
    exact .clear _

/-- One call keeps what is known of the entries, and a frame that it returns is joined from them. -/
theorem l2Reassemble_sound (sourced : ∀ j, (ft j).Sourced fed) :
    (∀ j, ((ft.l2Reassemble p now).1 j).Sourced ((p, now) :: fed)) ∧
      ∀ frame, (ft.l2Reassemble p now).2 = .joined frame →
        JoinedFrom ((p, now) :: fed) now frame := by
  obtain ⟨ft', thinned, failed | ⟨idx, fragment, size, put⟩⟩ := l2Reassemble_cases ft p now
  · rw [failed]
    exact ⟨fun j => (thinned.sourced sourced j).mono (List.subset_cons_self _ _),
      fun _ joined => nomatch joined⟩
  · rw [put]
    dsimp only
    refine ⟨fun j => ?_, fun frame joined => ?_⟩
    · by_cases here : j = idx
      · subst here
        rw [Function.update_self]
        exact OpenedUdp.put_sourced fragment size rfl rfl
      · rw [Function.update_of_ne here]
        exact (thinned.sourced sourced j).mono (List.subset_cons_self _ _)
    · have live := (thinned.sourced sourced idx).prepare_live p.ids now
      exact (live.put fragment size rfl).joined joined

end Step

/-- What waits in a table that is fed and swept in any order was fed to it. -/
theorem sourced_of_reachable {st : ReasmState}
    (reached : Transition.Reachable ReasmState.step .initial st) (j : ℕ) :
    (st.entries j).Sourced st.fed := by
  refine reached.invariant (I := fun st => ∀ j, (st.entries j).Sourced st.fed)
    (fun _ => .empty rfl rfl) ?_ j
  rintro st event st' sourced - step
  cases event with
  | feed p now =>
    cases step
    exact (l2Reassemble_sound sourced).1
  | gc now =>
    rw [ReasmState.step] at step
    generalize gcSlice = n at step
    cases step
    exact (OptTable.gcFrom_thinned _ _).sourced sourced

/-- Whenever a call returns a frame, it is joined from two fragments that were fed to the table. -/
theorem reassembly_sound {st : ReasmState}
    (reached : Transition.Reachable ReasmState.step .initial st) (p : OpenedUdp)
    (now : BitVec 64) (frame : Bytes)
    (joined : (st.entries.l2Reassemble p now).2 = .joined frame) :
    JoinedFrom ((p, now) :: st.fed) now frame :=
  (l2Reassemble_sound (sourced_of_reachable reached)).2 frame joined

/-- A first fragment with an IPv4 header alone. -/
def sampleFirst : OpenedUdp :=
  ⟨.replicate 12 0x22 ++ [0x10, 0x4B, 0x45] ++ .replicate 19 0, .frag0, sampleIds⟩

def sampleSecond : OpenedUdp :=
  ⟨.replicate 12 0x22 ++ [0x10, 0x4B, 7, 8], .frag1, sampleIds⟩

/-- The second fragment comes 150 ms after the first one, with a sweep between them. -/
theorem sample_joined :
    JoinedFrom [(sampleSecond, 150000000), (sampleFirst, 0)] 150000000
      (.replicate 12 0x22 ++ [0x08, 0x00, 0x45] ++ .replicate 19 0 ++ [7, 8]) :=
  reassembly_sound
    (.of_runWith [.feed sampleFirst 0, .gc 100000000] rfl) sampleSecond 150000000 _
    (by decide +kernel)

end NeEncryptor
