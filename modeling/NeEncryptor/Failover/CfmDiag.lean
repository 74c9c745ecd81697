import NeEncryptor.Crypto.EthParse
import NeEncryptor.Lib.Ways

/-!
# The health of a WAN link

`cfm_diag.c` watches a link with the continuity check messages of its peer. A frame of the monitor's
socket and an evaluation every 100 ms move `is_up`; both advance the same two counters.
-/

namespace NeEncryptor

open Buffer

/-! ## The link -/

/-- `CFM_TIMEOUT_MS`. -/
def cfmTimeoutMs : UInt64 := 350

/-- `CFM_STARTUP_TIMEOUT_MS`. -/
def cfmStartupTimeoutMs : UInt64 := 1000

/-- `CFM_DOWN_CONFIRM`. -/
def cfmDownConfirm : ℕ := 2

/-- `CFM_UP_CONFIRM`. -/
def cfmUpConfirm : ℕ := 3

/-- `ETH_P_CFM`. -/
def ethPCfm : ℕ := 0x8902

/-- The fields of `cfm_link_t` that decide its state. -/
structure CfmLink where
  lastRecvTime : UInt64
  localMac : Vector UInt8 6
  remoteMac : Vector UInt8 6
  remoteMepId : ℕ
  consecutiveFails : ℕ
  consecutiveSuccesses : ℕ
  isUp : Bool
  macLearned : Bool
  deriving DecidableEq, Repr

/-- The link that `cfm_init` sets up; the peer is known where the configuration has its MAC. -/
def cfmInit (localMac dstMac : Vector UInt8 6) (now : UInt64) : CfmLink :=
  let macLearned := dstMac != Vector.replicate 6 0
  let mepId := ((dstMac.get 4).toNat * 256 + (dstMac.get 5).toNat) % 0x2000
  { lastRecvTime := now
    localMac
    remoteMac := dstMac
    remoteMepId := if macLearned then (if mepId = 0 then 1 else mepId) else 0
    consecutiveFails := 0
    consecutiveSuccesses := if macLearned then cfmUpConfirm else 0
    isUp := true
    macLearned }

/-- What the receive path reads of a CCM. -/
structure Ccm where
  srcMac : Vector UInt8 6
  mepId : ℕ
  deriving DecidableEq, Repr

/-- The checks of the receive path on the bytes that `recv` returned. -/
def parseCcm (buf : Bytes) : Option Ccm :=
  if buf.length < 14 + 4 then none
  else if ethReadEt buf 12 ≠ ethPCfm then none
  else if buf.length < 14 + 10 then none
  else
    let lvl := (buf.getD 14 0 >>> 5) &&& 0x07
    let op := buf.getD 15 0
    if lvl ≠ 5 ∨ op ≠ 1 then none
    else some ⟨Vector.ofFn fun i => buf.getD (6 + i) 0, ethReadEt buf 22⟩

namespace CfmLink

variable (link : CfmLink) (now : UInt64)

/-- A CCM that is not the link's own. -/
def receiveCcm (ccm : Ccm) : CfmLink :=
  if !link.macLearned then
    { link with
      remoteMac := ccm.srcMac
      remoteMepId := ccm.mepId
      macLearned := true
      isUp := true
      lastRecvTime := now
      consecutiveFails := 0
      consecutiveSuccesses := cfmUpConfirm }
  else if ccm.srcMac ≠ link.remoteMac then
    { link with
      remoteMac := ccm.srcMac
      remoteMepId := ccm.mepId
      lastRecvTime := now
      consecutiveFails := 0
      consecutiveSuccesses := cfmUpConfirm
      isUp := true }
  else if ccm.mepId = link.remoteMepId then
    let successes := link.consecutiveSuccesses
    let successes := if successes < cfmUpConfirm then successes + 1 else successes
    { link with
      lastRecvTime := now
      consecutiveFails := 0
      consecutiveSuccesses := successes
      isUp := link.isUp || decide (cfmUpConfirm ≤ successes) }
  else link

/-- The receive path of `cfm_monitor_thread` on a frame; its buffer has 2048 bytes. -/
def receive (frame : Bytes) : CfmLink :=
  match parseCcm (frame.take 2048) with
  | none => link
  | some ccm => if ccm.srcMac = link.localMac then link else link.receiveCcm now ccm

/-- The evaluation of `cfm_monitor_thread`. -/
def evaluate : CfmLink :=
  if link.macLearned then
    if now - link.lastRecvTime > cfmTimeoutMs then
      let fails := link.consecutiveFails + 1
      { link with
        consecutiveFails := fails
        consecutiveSuccesses := 0
        isUp := link.isUp && !decide (cfmDownConfirm ≤ fails) }
    else
      let successes := link.consecutiveSuccesses
      let successes := if successes < cfmUpConfirm then successes + 1 else successes
      { link with
        consecutiveFails := 0
        consecutiveSuccesses := successes
        isUp := link.isUp || decide (cfmUpConfirm ≤ successes) }
  else { link with isUp := !decide (now - link.lastRecvTime > cfmStartupTimeoutMs) }

/-- The receive path takes the frame for a CCM of the peer. -/
def accepts (frame : Bytes) : Bool :=
  (parseCcm (frame.take 2048)).any fun ccm => ccm.srcMac != link.localMac &&
    (!link.macLearned || ccm.srcMac != link.remoteMac || ccm.mepId == link.remoteMepId)

end CfmLink

/-! ## The link under observation -/

/-- What happens to a link. -/
inductive CfmEvent
  | received (frame : Bytes) (now : UInt64)
  | tick (now : UInt64)
  deriving DecidableEq, Repr

/-- The clock at the event. -/
def CfmEvent.now : CfmEvent → UInt64
  | received _ now => now
  | tick now => now

def CfmEvent.isTick : CfmEvent → Bool
  | received .. => false
  | tick _ => true

/-- A link with what an observer has seen of it: the clock, when a CCM of the peer was last
accepted, and the last ticks in a row without one in `CFM_TIMEOUT_MS`, or with one. -/
structure CfmWatch where
  link : CfmLink
  clock : UInt64
  lastPeer : Option UInt64
  missed : ℕ
  heard : ℕ
  deriving DecidableEq, Repr

/-- A CCM of the peer was accepted in the last `CFM_TIMEOUT_MS`. -/
def CfmWatch.recent (w : CfmWatch) (now : UInt64) : Bool :=
  w.lastPeer.any fun seen => now - seen ≤ cfmTimeoutMs

/-- The start of a link. -/
def cfmWatch (localMac dstMac : Vector UInt8 6) (now : UInt64) : CfmWatch :=
  ⟨cfmInit localMac dstMac now, now, none, 0, 0⟩

/-- An event of a link, and what is seen of it. -/
def CfmWatch.step (w : CfmWatch) : CfmEvent → CfmWatch
  | .received frame now =>
    { w with
      link := w.link.receive now frame
      clock := now
      lastPeer := if w.link.accepts frame then some now else w.lastPeer }
  | .tick now =>
    { w with
      link := w.link.evaluate now
      clock := now
      missed := if w.recent now then 0 else w.missed + 1
      heard := if w.recent now then w.heard + 1 else 0 }

/-! ## Steadiness -/

/-- What an event may do to a link whose peer is learned: it goes down at a tick after enough ticks
without a CCM, and up after enough ticks with one. -/
structure Steady (w : CfmWatch) (event : CfmEvent) : Prop where
  down : w.link.macLearned = true → w.link.isUp = true → (w.step event).link.isUp = false →
    event.isTick = true ∧ cfmDownConfirm ≤ (w.step event).missed
  up : w.link.macLearned = true → w.link.isUp = false → (w.step event).link.isUp = true →
    cfmUpConfirm ≤ (w.step event).heard

/-- The link is down, and the event is a CCM with a new source, or a CCM of the peer or an
evaluation within `CFM_TIMEOUT_MS` of one that finds the counter of successes short of its bound by
one. -/
def Restores (w : CfmWatch) (event : CfmEvent) : Prop :=
  w.link.macLearned = true ∧ w.link.isUp = false ∧
    match event with
    | .received frame _ => ∃ ccm, parseCcm (frame.take 2048) = some ccm ∧
        ccm.srcMac ≠ w.link.localMac ∧ (ccm.srcMac ≠ w.link.remoteMac ∨
          ccm.mepId = w.link.remoteMepId ∧ cfmUpConfirm ≤ w.link.consecutiveSuccesses + 1)
    | .tick now => now - w.link.lastRecvTime ≤ cfmTimeoutMs ∧
        cfmUpConfirm ≤ w.link.consecutiveSuccesses + 1

/-- A condition on every event of a run. -/
def Along (P : CfmWatch → CfmEvent → Prop) : CfmWatch → List CfmEvent → Prop
  | _, [] => True
  | w, event :: events => P w event ∧ Along P (w.step event) events

/-- The clock does not go back. -/
def ClockOrder : UInt64 → List CfmEvent → Prop
  | _, [] => True
  | clock, event :: events => clock ≤ event.now ∧ ClockOrder event.now events

/-- What holds of a link under observation. While it is down, the counter of successes is ahead of
the ticks: the CCM that made the first of them good was counted as well. -/
structure CfmWatch.Kept (w : CfmWatch) : Prop where
  received : w.link.lastRecvTime ≤ w.clock
  seen : ∀ time ∈ w.lastPeer, time = w.link.lastRecvTime
  missed : w.link.consecutiveFails ≤ w.missed
  unlearned : w.link.macLearned = false → w.link.consecutiveFails = 0
  down : w.link.macLearned = true → w.link.isUp = false →
    w.link.consecutiveSuccesses < cfmUpConfirm
  ahead : w.link.macLearned = true → w.link.isUp = false →
    w.heard < w.link.consecutiveSuccesses ∨
      w.heard = 0 ∧ cfmTimeoutMs < w.clock - w.link.lastRecvTime

variable {w : CfmWatch} {event : CfmEvent} {now : UInt64}

/-- A silence only grows. -/
theorem late_mono {last clock : UInt64} (received : last ≤ clock) (ordered : clock ≤ now)
    (late : cfmTimeoutMs < clock - last) : cfmTimeoutMs < now - last := by
  have before : (clock - last).toNat = clock.toNat - last.toNat :=
    UInt64.toNat_sub_of_le _ _ received
  have after : (now - last).toNat = now.toNat - last.toNat :=
    UInt64.toNat_sub_of_le _ _ (UInt64.le_trans received ordered)
  rw [UInt64.lt_iff_toNat_lt] at late ⊢
  rw [UInt64.le_iff_toNat_le] at ordered
  omega

/-- The link after a CCM from a new source. -/
def CfmLink.renewed (link : CfmLink) (now : UInt64) (ccm : Ccm) : CfmLink :=
  { link with
    remoteMac := ccm.srcMac
    remoteMepId := ccm.mepId
    macLearned := true
    isUp := true
    lastRecvTime := now
    consecutiveFails := 0
    consecutiveSuccesses := cfmUpConfirm }

/-- The link after a success is counted. -/
def CfmLink.succeeded (link : CfmLink) : CfmLink :=
  let successes := link.consecutiveSuccesses
  let successes := if successes < cfmUpConfirm then successes + 1 else successes
  { link with
    consecutiveFails := 0
    consecutiveSuccesses := successes
    isUp := link.isUp || decide (cfmUpConfirm ≤ successes) }

/-- A frame is not for the link, or its CCM has a new source, or it is one of the known peer. -/
theorem receive_cases (link : CfmLink) (now : UInt64) (frame : Bytes) :
    link.accepts frame = false ∧ link.receive now frame = link ∨
      link.accepts frame = true ∧ ∃ ccm, parseCcm (frame.take 2048) = some ccm ∧
        ccm.srcMac ≠ link.localMac ∧
          ((link.macLearned = false ∨ ccm.srcMac ≠ link.remoteMac) ∧
              link.receive now frame = link.renewed now ccm ∨
            link.macLearned = true ∧ ccm.srcMac = link.remoteMac ∧ ccm.mepId = link.remoteMepId ∧
              link.receive now frame = { link.succeeded with lastRecvTime := now }) := by
  unfold CfmLink.accepts CfmLink.receive
  cases parsed : parseCcm (frame.take 2048) with
  | none => exact .inl ⟨rfl, rfl⟩
  | some ccm =>
    by_cases own : ccm.srcMac = link.localMac
    · exact .inl ⟨by simp [own], by simp [own]⟩
    by_cases learned : link.macLearned = true
    · by_cases source : ccm.srcMac = link.remoteMac
      · have other : link.remoteMac ≠ link.localMac := source ▸ own
        by_cases mep : ccm.mepId = link.remoteMepId
        · refine .inr ⟨by simp [own, mep], ccm, rfl, own, .inr ⟨learned, source, mep, ?_⟩⟩
          simp [other, learned, source, mep, CfmLink.receiveCcm, CfmLink.succeeded]
        · exact .inl ⟨by simp [learned, source, mep], by simp [learned, source, mep,
            CfmLink.receiveCcm]⟩
      · refine .inr ⟨by simp [own, source], ccm, rfl, own, .inl ⟨.inr source, ?_⟩⟩
        simp [own, learned, source, CfmLink.receiveCcm, CfmLink.renewed]
    · refine .inr ⟨by simp [own, learned], ccm, rfl, own, .inl ⟨.inl (by simpa using learned), ?_⟩⟩
      simp [own, learned, CfmLink.receiveCcm, CfmLink.renewed]

theorem kept_cfmWatch (localMac dstMac : Vector UInt8 6) (start : UInt64) :
    (cfmWatch localMac dstMac start).Kept where
  received := UInt64.le_refl _
  seen := nofun
  missed := Nat.le_refl _
  unlearned _ := rfl
  down := nofun
  ahead := nofun

/-- A link that a success leaves down was down, and has the success counted. -/
theorem succeeded_down {link : CfmLink} (down : link.succeeded.isUp = false) :
    link.isUp = false ∧ link.succeeded.consecutiveSuccesses = link.consecutiveSuccesses + 1 ∧
      link.consecutiveSuccesses + 1 < cfmUpConfirm := by
  unfold CfmLink.succeeded at down ⊢
  dsimp only at down ⊢
  rw [Bool.or_eq_false_iff, decide_eq_false_iff_not] at down
  obtain ⟨before, few⟩ := down
  split at few
  · rename_i small
    exact ⟨before, if_pos small, Nat.not_le.mp few⟩
  · rename_i large
    exact absurd (Nat.not_lt.mp large) few

theorem succeeded_isUp {link : CfmLink} (down : link.isUp = false)
    (few : link.consecutiveSuccesses < cfmUpConfirm) :
    link.succeeded.isUp = true ↔ cfmUpConfirm ≤ link.consecutiveSuccesses + 1 := by
  rw [CfmLink.succeeded, if_pos few, down, Bool.false_or, decide_eq_true_iff]

theorem kept_received {frame : Bytes} (kept : w.Kept) (ordered : w.clock ≤ now) :
    (w.step (.received frame now)).Kept := by
  rcases receive_cases w.link now frame with ⟨refused, same⟩ |
    ⟨accepted, ccm, -, -, ⟨-, renewed⟩ | ⟨learned, -, -, succeeded⟩⟩
  · rw [CfmWatch.step, same, refused]
    refine ⟨UInt64.le_trans kept.received ordered, kept.seen, kept.missed, kept.unlearned,
      kept.down, fun learned down =>
        (kept.ahead learned down).imp_right fun ⟨heard, late⟩ => ⟨heard, ?_⟩⟩
    exact late_mono kept.received ordered late
  · rw [CfmWatch.step, renewed, accepted]
    refine ⟨UInt64.le_refl _, fun time here => (Option.some.inj here).symm, Nat.zero_le _,
      fun _ => rfl, fun _ down => ?_, fun _ down => ?_⟩
    · cases down
    · cases down
  · rw [CfmWatch.step, succeeded, accepted]
    refine ⟨UInt64.le_refl _, fun time here => (Option.some.inj here).symm, Nat.zero_le _,
      fun _ => rfl, fun _ down => ?_, fun _ down => .inl ?_⟩
    · obtain ⟨-, counted, few⟩ := succeeded_down down
      exact counted ▸ few
    · obtain ⟨before, counted, -⟩ := succeeded_down down
      show w.heard < w.link.succeeded.consecutiveSuccesses
      have ahead := kept.ahead learned before
      omega

/-- A tick that the link counts for a miss has no recent CCM. -/
theorem recent_of_seen (kept : w.Kept) (recent : w.recent now = true) :
    ¬ cfmTimeoutMs < now - w.link.lastRecvTime := by
  obtain ⟨time, here, small⟩ := (Option.any_eq_true _ _).mp recent
  rw [← kept.seen time here]
  exact UInt64.not_lt.mpr (by simpa using small)

/-- What an evaluation does to a link whose peer is learned. -/
theorem evaluate_learned {link : CfmLink} (learned : link.macLearned = true) :
    link.evaluate now = if cfmTimeoutMs < now - link.lastRecvTime then
      { link with
        consecutiveFails := link.consecutiveFails + 1
        consecutiveSuccesses := 0
        isUp := link.isUp && !decide (cfmDownConfirm ≤ link.consecutiveFails + 1) }
      else link.succeeded := by
  rw [CfmLink.evaluate, if_pos learned]
  rfl

theorem kept_tick (kept : w.Kept) (ordered : w.clock ≤ now) : (w.step (.tick now)).Kept := by
  have received := UInt64.le_trans kept.received ordered
  by_cases learned : w.link.macLearned = true
  · rw [CfmWatch.step, evaluate_learned learned]
    by_cases late : cfmTimeoutMs < now - w.link.lastRecvTime
    · have silent : w.recent now = false := by
        cases recent : w.recent now with
        | false => rfl
        | true => exact absurd late (recent_of_seen kept recent)
      rw [if_pos late, silent]
      refine ⟨received, kept.seen, Nat.succ_le_succ kept.missed,
        fun unlearned => absurd (learned.symm.trans unlearned) (by decide), fun _ _ => ?_,
        fun _ _ => .inr ?_⟩
      · show 0 < cfmUpConfirm
        decide
      · exact ⟨rfl, late⟩
    · rw [if_neg late]
      refine ⟨received, kept.seen, Nat.zero_le _, fun _ => rfl, fun _ down => ?_,
        fun _ down => .inl ?_⟩
      · obtain ⟨-, counted, few⟩ := succeeded_down down
        exact counted ▸ few
      · obtain ⟨before, counted, -⟩ := succeeded_down down
        show (if w.recent now = true then w.heard + 1 else 0) <
          w.link.succeeded.consecutiveSuccesses
        rcases kept.ahead learned before with ahead | ⟨-, silent⟩
        · split <;> omega
        · exact absurd (late_mono kept.received ordered silent) late
  · have unlearned : w.link.macLearned = false := by simpa using learned
    rw [CfmWatch.step, CfmLink.evaluate, if_neg learned]
    have none := kept.unlearned unlearned
    exact ⟨received, kept.seen, Nat.le_trans (Nat.le_of_eq none) (Nat.zero_le _), fun _ => none,
      fun learned => absurd (unlearned.symm.trans learned) (by decide),
      fun learned => absurd (unlearned.symm.trans learned) (by decide)⟩

theorem CfmWatch.Kept.step (kept : w.Kept) (ordered : w.clock ≤ event.now) :
    (w.step event).Kept := by
  cases event with
  | received frame now => exact kept_received kept ordered
  | tick now => exact kept_tick kept ordered

/-- A link goes down in time. -/
theorem down_confirmed (kept : w.Kept) (learned : w.link.macLearned = true)
    (up : w.link.isUp = true) (down : (w.step event).link.isUp = false) :
    event.isTick = true ∧ cfmDownConfirm ≤ (w.step event).missed := by
  cases event with
  | received frame now =>
    rcases receive_cases w.link now frame with ⟨-, same⟩ |
      ⟨-, ccm, -, -, ⟨-, renewed⟩ | ⟨-, -, -, succeeded⟩⟩
    · rw [CfmWatch.step, same, up] at down
      cases down
    · rw [CfmWatch.step, renewed] at down
      cases down
    · rw [CfmWatch.step, succeeded] at down
      exact absurd (up.symm.trans (succeeded_down down).1) (by decide)
  | tick now =>
    rw [CfmWatch.step, evaluate_learned learned] at down
    split at down
    · rename_i late
      have silent : w.recent now = false := by
        cases recent : w.recent now with
        | false => rfl
        | true => exact absurd late (recent_of_seen kept recent)
      have confirmed : cfmDownConfirm ≤ w.link.consecutiveFails + 1 := by
        have down : (w.link.isUp && !decide (cfmDownConfirm ≤ w.link.consecutiveFails + 1)) =
            false := down
        simpa [up] using down
      have missed : (w.step (.tick now)).missed = w.missed + 1 := by
        rw [CfmWatch.step, silent]
        rfl
      rw [missed]
      exact ⟨rfl, Nat.le_trans confirmed (Nat.succ_le_succ kept.missed)⟩
    · exact absurd (up.symm.trans (succeeded_down down).1) (by decide)

/-- The events that bring a link up. -/
theorem restores_iff (kept : w.Kept) :
    Restores w event ↔ w.link.macLearned = true ∧ w.link.isUp = false ∧
      (w.step event).link.isUp = true := by
  refine and_congr_right fun learned => and_congr_right fun down => ?_
  have few := kept.down learned down
  have success := succeeded_isUp down few
  cases event with
  | received frame now =>
    dsimp only
    rcases receive_cases w.link now frame with ⟨refused, same⟩ |
      ⟨-, ccm, parsed, other, ⟨source, renewed⟩ | ⟨-, source, mep, succeeded⟩⟩
    · rw [CfmWatch.step, same, down]
      refine ⟨?_, nofun⟩
      rintro ⟨ccm, parsed, other, source | ⟨mep, -⟩⟩
      · simp [CfmLink.accepts, parsed, other, source] at refused
      · simp [CfmLink.accepts, parsed, other, mep] at refused
    · rw [CfmWatch.step, renewed]
      have changed : ccm.srcMac ≠ w.link.remoteMac :=
        source.resolve_left (by rw [learned]; decide)
      exact ⟨fun _ => rfl, fun _ => ⟨ccm, parsed, other, .inl changed⟩⟩
    · rw [CfmWatch.step, succeeded]
      refine Iff.trans ⟨?_, fun enough => ⟨ccm, parsed, other, .inr ⟨mep, enough⟩⟩⟩ success.symm
      rintro ⟨ccm', parsed', -, again⟩
      obtain rfl := Option.some.inj (parsed.symm.trans parsed')
      exact (again.resolve_left (not_not.mpr source)).2
  | tick now =>
    dsimp only
    rw [CfmWatch.step, evaluate_learned learned, ← UInt64.not_lt]
    dsimp only
    split
    · rename_i late
      refine ⟨fun ⟨soon, _⟩ => absurd late soon, fun up => ?_⟩
      have up : (w.link.isUp && !decide (cfmDownConfirm ≤ w.link.consecutiveFails + 1)) = true := up
      rw [down] at up
      cases up
    · rename_i soon
      exact (and_iff_right soon).trans success.symm

/-- A link that comes back up has heard of its peer at too few ticks. -/
theorem up_early (kept : w.Kept) (ordered : w.clock ≤ event.now)
    (learned : w.link.macLearned = true) (down : w.link.isUp = false)
    (up : (w.step event).link.isUp = true) : (w.step event).heard < cfmUpConfirm := by
  have few := kept.down learned down
  have ahead := kept.ahead learned down
  cases event with
  | received frame now =>
    show w.heard < cfmUpConfirm
    rcases ahead with ahead | ⟨none, -⟩
    · omega
    · rw [none]
      decide
  | tick now =>
    obtain ⟨-, -, soon, -⟩ := (restores_iff kept).mpr ⟨learned, down, up⟩
    show (if w.recent now = true then w.heard + 1 else 0) < cfmUpConfirm
    rcases ahead with ahead | ⟨-, silent⟩
    · split <;> omega
    · exact absurd (late_mono kept.received ordered silent) (UInt64.not_lt.mpr soon)

/-- An event keeps a link steady exactly where it does not bring it up. -/
theorem steady_iff (kept : w.Kept) (ordered : w.clock ≤ event.now) :
    Steady w event ↔ ¬ Restores w event := by
  rw [restores_iff kept]
  constructor
  · rintro steady ⟨learned, down, up⟩
    exact absurd (steady.up learned down up)
      (Nat.not_le.mpr (up_early kept ordered learned down up))
  · intro never
    exact ⟨fun learned up down => down_confirmed kept learned up down,
      fun learned down up => absurd ⟨learned, down, up⟩ never⟩

theorem along_steady_iff (kept : w.Kept) {events : List CfmEvent}
    (ordered : ClockOrder w.clock events) :
    Along Steady w events ↔ Along (fun w event => ¬ Restores w event) w events := by
  induction events generalizing w with
  | nil => exact Iff.rfl
  | cons event events ih =>
    have clock : (w.step event).clock = event.now := by cases event <;> rfl
    exact and_congr (steady_iff kept ordered.1)
      (ih (kept.step ordered.1) (clock ▸ ordered.2))

/-- A run of a link is steady exactly where no event of it brings the link back up. -/
theorem cfm_steady_iff (localMac dstMac : Vector UInt8 6) (start : UInt64) (events : List CfmEvent)
    (ordered : ClockOrder start events) :
    let w := cfmWatch localMac dstMac start
    Along Steady w events ↔ Along (fun w event => ¬ Restores w event) w events :=
  along_steady_iff (kept_cfmWatch localMac dstMac start) ordered

/-- The MACs of a link, of its peer, and of another station. -/
def sampleMac (last : UInt8) : Vector UInt8 6 := #v[2, 0, 0, 0, 0, last]

/-- A CCM of level 5. -/
def sampleCcm (src : Vector UInt8 6) (mepId : UInt8) : Bytes :=
  [0x01, 0x80, 0xC2, 0, 0, 0x35] ++ src.toList ++ [0x89, 0x02, 0xA0, 1, 4, 70, 0, 0, 0, 0, 0, mepId]

/-- The peer is silent from the start on. -/
theorem cfm_steady_iff_silent :
    Along Steady (cfmWatch (sampleMac 1) (sampleMac 2) 0) [.tick 300, .tick 400, .tick 500,
      .tick 600] := by
  have ordered : ClockOrder 0 [.tick 300, .tick 400, .tick 500, .tick 600] :=
    ⟨by decide, by decide, by decide, by decide, trivial⟩
  refine (cfm_steady_iff (sampleMac 1) (sampleMac 2) 0 _ ordered).mpr
    ⟨?_, ?_, ?_, ?_, trivial⟩
  · rintro ⟨-, down, -⟩
    exact absurd down (by decide)
  · rintro ⟨-, down, -⟩
    exact absurd down (by decide)
  · rintro ⟨-, down, -⟩
    exact absurd down (by decide)
  · rintro ⟨-, -, soon, -⟩
    exact absurd soon (by decide)

/-- A link that is down comes up with one CCM of another station, before any tick, and with one CCM
of its peer at the second tick. -/
theorem cfm_up_early :
    ¬ Along Steady (cfmWatch (sampleMac 1) (sampleMac 2) 0)
        [.tick 400, .tick 500, .received (sampleCcm (sampleMac 3) 3) 550] ∧
      ¬ Along Steady (cfmWatch (sampleMac 1) (sampleMac 2) 0)
        [.tick 400, .tick 500, .received (sampleCcm (sampleMac 2) 2) 550, .tick 600,
          .tick 700] := by
  constructor
  · rintro ⟨-, -, steady, -⟩
    exact absurd (steady.up (by decide +kernel) (by decide +kernel) (by decide +kernel))
      (by decide +kernel)
  · rintro ⟨-, -, -, -, steady, -⟩
    exact absurd (steady.up (by decide +kernel) (by decide +kernel) (by decide +kernel))
      (by decide +kernel)

end NeEncryptor
