import NeEncryptor.Pqc.World

/-!
# Key cutover

What the handshake is for: two parties move from one traffic key to the next.  A `View` keeps of the
world only the keys each party holds, the phase of the initiator, the responder's RESP cache, the
messages that exist and the history.  `View.apply` is the protocol on views; the program refines it.
-/

namespace NeEncryptor.Pqc

/-- What the initiator is waiting for, and the HELLO it wrote. -/
inductive Phase
  | idle
  /-- A first handshake. -/
  | greet (h : Hello)
  /-- A rekey before its RESP. -/
  | rotate (h : Hello)
  /-- A rekey with NEXT staged, waiting for COMMIT. -/
  | await (h : Hello)
  deriving DecidableEq, Repr

/-- The HELLO the initiator may still send. -/
def Phase.sending : Phase → Option Hello
  | .greet h | .rotate h => some h
  | _ => none

/-- The HELLO whose session the initiator is in. -/
def Phase.hello : Phase → Option Hello
  | .idle => none
  | .greet h | .rotate h | .await h => some h

theorem Phase.hello_of_sending {p : Phase} {h : Hello} (sending : p.sending = some h) :
    p.hello = some h := by
  cases p <;> simp_all [Phase.sending, Phase.hello]

/-- The session of an unfinished rekey. -/
def Phase.openRotation : Phase → Option SessionId
  | .rotate h | .await h => some h.session
  | _ => none

structure View where
  iReady : Bool
  iKeys : KeySlots (Option TrafficKey)
  phase : Phase
  rReady : Bool
  rKeys : KeySlots (Option TrafficKey)
  cache : Fin 4 → Option HsCacheEntry
  cacheNext : Fin 4
  /-- The responder has scheduled the discarding of PREV. -/
  armed : Bool
  toRes : List Msg
  toIni : List Msg
  hist : History

/-- Nothing was agreed on yet. -/
def View.start : View where
  iReady := false
  iKeys := ⟨none, none, none⟩
  phase := .idle
  rReady := false
  rKeys := ⟨none, none, none⟩
  cache := fun _ => none
  cacheNext := 0
  armed := false
  toRes := []
  toIni := []
  hist := ⟨[], [], [], [], []⟩

/-- The slots after a key has become CURRENT. -/
def promoteKeys (key : TrafficKey) (s : KeySlots (Option TrafficKey)) :
    KeySlots (Option TrafficKey) :=
  ⟨s.current, some key, none⟩

inductive Event
  | sendIni (m : Msg)
  | draw (h : Hello) (rekey : Bool)
  | leave
  | accept (h : Hello) (ct : Ciphertext)
  | stage (h : Hello) (ct : Ciphertext)
  | commit (h : Hello) (key : TrafficKey)
  | commitFails (h : Hello)
  | abandon (h : Hello)
  | discardIni
  | retryIni
  | restartIni
  | sendRes (m : Msg)
  | take (h : Hello) (key : TrafficKey)
  | reply (slot : Fin 4) (e : HsCacheEntry)
  | ready (slot : Fin 4) (e : HsCacheEntry)
  | arm (st : KeepaliveStatus)
  | disarm
  | discardRes
  | clear
  | retryRes
  | restartRes

namespace View

variable (P : Primitives)

/-- The initiator only signs what its phase and its CURRENT key allow. -/
def SignsIni (v : View) : Msg → Prop
  | .hello h => v.phase.sending = some h
  | .ready session => v.phase.openRotation = some session ∧ v.phase.sending = none
  | .keepalive st =>
    st.state = .online → v.iReady = true ∧ v.iKeys.current.map P.sha256 = some st.keyFingerprint
  | .poke _ => True
  | .resp _ _ | .commit _ => False

/-- What the responder signs outside its handlers. -/
def signsRes : Msg → Bool
  | .keepalive _ | .poke _ => true
  | _ => false

instance (v : View) (m : Msg) : Decidable (v.SignsIni P m) := by
  unfold SignsIni
  cases m <;> infer_instance

/-- The entry after its key has been promoted. -/
def spent (e : HsCacheEntry) : HsCacheEntry := { e with keyPromoted := true, masterKey := 0 }

/-- Promoting the key of a cache entry at the responder. -/
def promoteRes (v : View) (slot : Fin 4) (e : HsCacheEntry) : View :=
  { v with
    rReady := true
    rKeys := promoteKeys e.masterKey v.rKeys
    armed := false
    cache := Function.update v.cache slot (some (spent e)) }

def apply (v : View) : Event → Option View
  | .sendIni m => if v.SignsIni P m then some { v with toRes := m :: v.toRes } else none
  | .draw h rekey =>
    if v.phase = .idle ∧ v.iReady = rekey then
      some { v with
        phase := if rekey then .rotate h else .greet h
        hist := { v.hist with drawn := h :: v.hist.drawn } }
    else none
  | .leave => if v.phase.sending.isSome then some { v with phase := .idle } else none
  | .accept h ct =>
    if v.phase = .greet h ∧ v.iReady = false ∧ .resp h.session ct ∈ v.toIni then
      some { v with
        iReady := true
        iKeys := promoteKeys (P.decapsulate h.pk ct) v.iKeys
        hist := { v.hist with currents := P.decapsulate h.pk ct :: v.hist.currents } }
    else none
  | .stage h ct =>
    if v.phase = .rotate h ∧ v.iReady = true ∧ .resp h.session ct ∈ v.toIni then
      some { v with
        phase := .await h
        iKeys := { v.iKeys with next := some (P.decapsulate h.pk ct) }
        hist := { v.hist with staged := P.decapsulate h.pk ct :: v.hist.staged } }
    else none
  | .commit h key =>
    if v.phase = .await h ∧ .commit h.session ∈ v.toIni ∧ v.iKeys.next = some key then
      some { v with
        iReady := true
        phase := .idle
        iKeys := promoteKeys key v.iKeys
        hist := { v.hist with currents := key :: v.hist.currents } }
    else none
  | .commitFails h =>
    if v.phase = .await h ∧ v.iKeys.next = none then some { v with phase := .rotate h } else none
  | .abandon h => if v.phase = .await h then some { v with phase := .rotate h } else none
  | .discardIni => some { v with iKeys := { v.iKeys with prev := none } }
  | .retryIni => some { v with iReady := false, iKeys := { v.iKeys with next := none } }
  | .restartIni => some { v with iReady := false, iKeys := ⟨none, none, none⟩, phase := .idle }
  | .sendRes m => if signsRes m then some { v with toIni := m :: v.toIni } else none
  | .take h key =>
    if .hello h ∈ v.toRes ∧ (∀ i e, v.cache i = some e → e.hello.session ≠ h.session) ∧
        ∀ t ∈ v.hist.taken, t.key ≠ key then
      some { v with
        rKeys := if v.rReady then { v.rKeys with next := some key } else v.rKeys
        armed := if v.rReady then false else v.armed
        cache := Function.update v.cache v.cacheNext
          (some ⟨h, ⟨h.pk, key⟩, key, false, v.rReady⟩)
        cacheNext := v.cacheNext + 1
        hist := { v.hist with taken := ⟨h, key, v.rReady⟩ :: v.hist.taken } }
    else none
  | .reply slot e =>
    if v.cache slot = some e then
      let v := { v with toIni := .resp e.hello.session e.response :: v.toIni }
      some (if e.requiresCommit || e.keyPromoted then v else v.promoteRes slot e)
    else none
  | .ready slot e =>
    if .ready e.hello.session ∈ v.toRes ∧ v.cache slot = some e ∧ e.requiresCommit = true ∧
        (e.keyPromoted = true ∨ v.rKeys.next = some e.masterKey) then
      let v := { v with toIni := .commit e.hello.session :: v.toIni }
      some (if e.keyPromoted then v else
        { v.promoteRes slot e with
          hist := { v.hist with readyPromoted := e.masterKey :: v.hist.readyPromoted } })
    else none
  | .arm st =>
    if .keepalive st ∈ v.toRes ∧ st.state = .online ∧
        v.rKeys.current.map P.sha256 = some st.keyFingerprint then
      some { v with armed := true }
    else none
  | .disarm => some { v with armed := false }
  | .discardRes =>
    if v.armed then some { v with rKeys := { v.rKeys with prev := none }, armed := false } else none
  | .clear => if v.rReady = false then some { v with cache := fun _ => none, cacheNext := 0 } else none
  | .retryRes =>
    some { v with rReady := false, rKeys := { v.rKeys with next := none }, armed := false }
  | .restartRes =>
    some { v with
      rReady := false
      rKeys := ⟨none, none, none⟩
      armed := false
      cache := fun _ => none
      cacheNext := 0 }

end View

end NeEncryptor.Pqc
