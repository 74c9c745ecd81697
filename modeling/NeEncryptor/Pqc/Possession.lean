import NeEncryptor.Pqc.Refinement

/-!
# READY proves possession

A READY names a session and nothing else, and the responder remembers four sessions.  As long as no
session id recurs, the responder promotes only keys the initiator has staged.  A HELLO and a READY
that are replayed once their session has been forgotten make it promote a key nobody else holds.
-/

namespace NeEncryptor.Pqc

namespace World

variable {P : Primitives} {w : World} {a : Act}

/-- No session id recurs: the initiator draws a new one, and the responder takes no HELLO of a session
it has already taken. -/
def FreshSessions (w : World) : Act → Prop
  | .workIni d => ∀ draw ∈ d.session, ∀ h ∈ w.hist.drawn, h.session ≠ draw.1
  | .workRes _ => ∀ h ∈ w.res.takes, ∀ t ∈ w.hist.taken, t.hello.session ≠ h.session
  | _ => True

instance (w : World) : DecidablePred w.FreshSessions
  | .workIni d => inferInstanceAs (Decidable (∀ draw ∈ d.session, _))
  | .workRes _ => inferInstanceAs (Decidable (∀ h ∈ w.res.takes, _))
  | .tickIni _ | .tickRes _ | .deliverIni _ | .deliverRes _ | .requestIni | .requestRes
  | .retryIni _ | .retryRes _ | .stopIni | .stopRes | .startIni | .startRes | .restartIni _ _
  | .restartRes _ _ => .isTrue trivial

theorem freshSessions_caused {v : View} {ev : Event} (fresh : w.FreshSessions a)
    (caused : Caused w a v ev) : View.FreshSessions v ev := by
  cases ev with
  | draw h rekey =>
    obtain ⟨⟨d, rfl, drawn⟩, hist⟩ := caused
    intro x hx
    exact fresh _ drawn x (hist ▸ hx)
  | take h key =>
    obtain ⟨⟨d, rfl⟩, takes, rfl⟩ := caused
    exact fresh h takes
  | _ => trivial

/-- Every key the responder put in CURRENT on a READY was staged by the initiator before. -/
def ReadyProvesPossession (w : World) : Prop := ∀ k ∈ w.hist.readyPromoted, k ∈ w.hist.staged

instance (w : World) : Decidable w.ReadyProvesPossession :=
  decidable_of_iff ((w.hist.readyPromoted.all fun k => w.hist.staged.contains k) = true)
    (by simp [ReadyProvesPossession])

end World

namespace View

variable {P : Primitives} {v : View}

/-- The ledger and the meaning of sessions in every run without recurring session ids. -/
theorem sessions_reachable (run : Transition.ReachableWith (View.apply P) FreshSessions .start v) :
    Ledger P v ∧ Sessions v :=
  run.invariant (I := fun v => Ledger P v ∧ Sessions v) ⟨ledger_start, sessions_start⟩
    fun _ _ _ inv fresh h => ⟨ledger_apply inv.1 h, sessions_apply inv.1 inv.2 fresh h⟩

end View

namespace World

/-- **READY proves possession** in every run without recurring session ids. -/
theorem ready_proves_possession (P : Primitives) (p : Parties) (w : World)
    (run : Transition.ReachableWith (step P) FreshSessions (initial p) w) :
    w.ReadyProvesPossession :=
  (View.sessions_reachable (reachable_view (fun _ _ _ _ => freshSessions_caused) run)).2.promotedStaged

/-- A first handshake and a completed rekey. -/
def sampleRekey : List Act := Act.greeting ++ Act.rekeyToCommitWait 2 102 ++ Act.finishRekey 2

theorem ready_proves_possession_sample :
    ((Transition.runWith (step samplePrimitives) FreshSessions (initial sampleParties)
      sampleRekey).map fun w => decide w.ReadyProvesPossession) = some true := by
  obtain ⟨w, h⟩ := Option.isSome_iff_exists.mp (show (Transition.runWith (step samplePrimitives)
    FreshSessions (initial sampleParties) sampleRekey).isSome = true by decide +kernel)
  rw [h, Option.map_some, Option.some_inj, decide_eq_true_eq]
  exact ready_proves_possession samplePrimitives _ w (.of_runWith _ h)

/-- After session 2 was evicted by four later ones, its HELLO and its READY are replayed. -/
def replayedReady : List Act :=
  sampleRekey ++ Act.lostRekey 3 103 ++ Act.lostRekey 4 104 ++ Act.lostRekey 5 105 ++
    Act.lostRekey 6 106 ++ .deliverRes (Act.hello 2) :: Act.serves 107 ++
    .deliverRes (.ready 2) :: Act.serves 0

theorem replayed_ready_promotes :
    ¬ ∀ w, Transition.Reachable (step samplePrimitives) (initial sampleParties) w →
      w.ReadyProvesPossession :=
  Transition.not_always_of_run replayedReady (by decide +kernel)

end World

end NeEncryptor.Pqc
