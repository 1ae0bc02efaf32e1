import MessageBroker.Proofs.Consumer.Turns

/-!
# The tallies of a worker

A worker counts the messages that it has processed and the calls of its handler that failed. What
its loops are noted to have done is counted here: calls, returns without and with an error, and
attempts to settle, accepted or refused. The deeds of a worker are whole turns and what its loop has
begun of the next. A whole turn leaves nothing open (`Tally`): its call returns, and there is one
attempt to settle, which fits the return. So outside a settlement all is closed but for the call in
progress (`Orderly.tally`). A call that the guard of a handler skips is a call too, and returns
without an error.

What the worker itself counts are two of these deeds, acknowledgements that were accepted and nacks
of any outcome: no step changes a counter without being noted as such (`Effect.counts`), and so the
books of every worker are right (`Reachable.booked`).
-/

namespace MessageBroker

namespace Deed

/-- The handler was called. -/
def isCall : Deed → Bool
  | .called _ => true
  | _ => false

/-- The handler returned without an error. -/
def isSuccess : Deed → Bool
  | .returned none => true
  | _ => false

/-- The handler returned an error. -/
def isError : Deed → Bool
  | .returned (some _) => true
  | _ => false

/-- A message was acknowledged after a call, and that was accepted or refused. -/
def isAcknowledgement (accepted : Bool) : Deed → Bool
  | .settled _ .acknowledge answer => answer == accepted
  | _ => false

/-- A message was given back after a call, whatever came of it. -/
def isNack : Deed → Bool
  | .settled _ .nack _ => true
  | _ => false

end Deed

/-- The handler reported an error. -/
def Event.isError : Event → Bool
  | .ended _ (some _) => true
  | _ => false

namespace Phase

/-- The loop is in a call of the handler. -/
def inCall : Phase → Bool
  | .handling ⟨_, _, .acting _⟩ | .handling ⟨_, _, .paused ..⟩ | .handling ⟨_, _, .marking⟩ => true
  | _ => false

/-- The call of the handler is over, and its message is about to be settled. -/
def settles : Phase → Bool
  | .handling ⟨_, _, .settling ..⟩ => true
  | _ => false

end Phase

/-! ## Deeds that leave nothing open -/

/-- Each call has returned, but for `pending`, and each return was followed by the attempt to settle
that fits it. -/
structure Tally (deeds : List Deed) (pending : Nat) : Prop where
  calls : deeds.countP Deed.isCall =
    deeds.countP Deed.isSuccess + deeds.countP Deed.isError + pending
  successes : deeds.countP Deed.isSuccess =
    deeds.countP (Deed.isAcknowledgement true) + deeds.countP (Deed.isAcknowledgement false)
  errors : deeds.countP Deed.isError = deeds.countP Deed.isNack

namespace Tally

/-- Tallies add up. -/
theorem append {deeds deeds' : List Deed} {n n' : Nat} (h : Tally deeds n) (h' : Tally deeds' n') :
    Tally (deeds ++ deeds') (n + n') := by
  obtain ⟨hcalls, hsuccesses, herrors⟩ := h
  obtain ⟨hcalls', hsuccesses', herrors'⟩ := h'
  constructor <;> simp only [List.countP_append] <;> omega

/-- A whole turn leaves nothing open. -/
theorem turn (turn : Turn) : Tally turn.deeds 0 := by
  cases turn with
  | ends | waits => exact ⟨rfl, rfl, rfl⟩
  | handles m failure accepted => cases failure <;> cases accepted <;> exact ⟨rfl, rfl, rfl⟩

/-- Whole turns leave nothing open. -/
theorem turns (turns : List Turn) : Tally (turns.flatMap Turn.deeds) 0 := by
  induction turns with
  | nil => exact ⟨rfl, rfl, rfl⟩
  | cons first rest ih =>
    rw [List.flatMap_cons]
    exact (turn first).append ih

/-- Outside a settlement, a loop has left its call open if it is in one. -/
theorem begun {phase : Phase} (h : phase.settles = false) :
    Tally phase.begun phase.inCall.toNat := by
  cases phase with
  | handling call =>
    obtain ⟨m, began, stage⟩ := call
    cases stage with
    | settling failure elapsed => cases h
    | _ => exact ⟨rfl, rfl, rfl⟩
  | _ => exact ⟨rfl, rfl, rfl⟩

/-- Outside a settlement, loops have left those calls open that they are in. -/
theorem begun_all {phases : List Phase} (h : ∀ phase ∈ phases, phase.settles = false) :
    Tally (phases.flatMap Phase.begun) (phases.countP Phase.inCall) := by
  induction phases with
  | nil => exact ⟨rfl, rfl, rfl⟩
  | cons phase rest ih =>
    obtain ⟨hphase, hrest⟩ := List.forall_mem_cons.mp h
    have hcount : (phase :: rest).countP Phase.inCall =
        phase.inCall.toNat + rest.countP Phase.inCall := by
      rw [List.countP_cons, Nat.add_comm]
      cases phase.inCall <;> rfl
    rw [List.flatMap_cons, hcount]
    exact (begun hphase).append (ih hrest)

end Tally

/-- Outside a settlement, an orderly worker has left nothing open but the call that its loop is in,
if it is in one. -/
theorem Orderly.tally {w : Worker} {phases : List Phase} {deeds : List Deed}
    (h : Orderly w phases deeds) (hsettles : ∀ phase ∈ phases, phase.settles = false) :
    Tally deeds (phases.countP Phase.inCall) ∧ phases.countP Phase.inCall ≤ 1 := by
  obtain ⟨hone, turns, rfl⟩ := h
  constructor
  · rw [← Nat.zero_add (phases.countP Phase.inCall)]
    exact (Tally.turns turns).append (.begun_all hsettles)
  · calc phases.countP Phase.inCall ≤ phases.length := List.countP_le_length
      _ = w.running.toNat := hone
      _ ≤ 1 := w.running.toNat_le

/-! ## What the worker counts -/

/-- Between two states of a worker its counters, and the errors in its log, have grown by what is
noted of its loops. -/
structure Counts (w w' : Worker) (news : List Deed) : Prop where
  processed : w'.processed = w.processed + news.countP (Deed.isAcknowledgement true)
  failed : w'.failed = w.failed + news.countP Deed.isNack
  errors : w'.log.countP Event.isError = w.log.countP Event.isError + news.countP Deed.isError
  /-- Without a guard, a call is one of the handler that acts. -/
  calls : w.handler.guard = none → w'.calls = w.calls + news.countP Deed.isCall

/-- What is added to a log adds its errors. -/
theorem Worker.errors_logged (w : Worker) (events : List Event) :
    (w.logged events).log.countP Event.isError =
      w.log.countP Event.isError + events.countP Event.isError :=
  List.countP_append

/-- What comes of a settlement by the handler is no error of the handler. -/
theorem Fleet.isError_settle (f : Fleet) (queue : QueueRef) (m : Message) (how : Settlement) :
    (f.settle queue m how).2.isError = false := by
  unfold settle
  split <;> rfl

/-- A step of a loop changes the counters of its worker by what is noted of it. -/
theorem Fleet.Effect.counts {f g : Fleet} {w w' : Worker} {phase phase' : Phase}
    (h : f.Effect w phase w' phase' g) : Counts w w' (f.deeds w phase) := by
  cases h with
  | ends hsignal =>
    rw [deeds_of_signal hsignal]
    exact ⟨rfl, rfl, rfl, fun _ => rfl⟩
  | waits hsignal hrec | leases hsignal hrec =>
    rw [deeds_of_receive hsignal hrec]
    exact ⟨rfl, rfl, rfl, fun _ => rfl⟩
  | skips hguard =>
    -- A worker without a guard skips nothing.
    have hguarded : w.handler.guard ≠ none := fun hnone => by
      rw [hnone] at hguard
      cases hguard
    rw [deeds_of_guard hguard]
    exact ⟨rfl, rfl, rfl, fun hnone => absurd hnone hguarded⟩
  | calls hguard =>
    rw [deeds_of_guard hguard]
    exact ⟨rfl, rfl, Worker.errors_logged _ _, fun _ => rfl⟩
  | settlesEarly =>
    refine ⟨rfl, rfl, (w.errors_logged _).trans ?_, fun _ => rfl⟩
    rw [List.countP_singleton, isError_settle]
    rfl
  | publishes | fails => exact ⟨rfl, rfl, w.errors_logged _, fun _ => rfl⟩
  | succeeds hguard | succeedsGuarded hguard =>
    rw [deeds_of_last hguard]
    exact ⟨rfl, rfl, w.errors_logged _, fun _ => rfl⟩
  | @settles m began failure elapsed =>
    show Counts w _ [.settled m.handle (.after failure) _]
    cases failure with
    | some reason => exact ⟨rfl, rfl, rfl, fun _ => rfl⟩
    | none =>
      -- An acknowledgement counts if it is accepted.
      cases f.broker.accepts w.queue m.handle (.after none) <;> exact ⟨rfl, rfl, rfl, fun _ => rfl⟩
  | _ => exact ⟨rfl, rfl, rfl, fun _ => rfl⟩

/-- The counters of a worker, and the errors in its log, are what is noted of its loops. -/
def Booked (w : Worker) (deeds : List Deed) : Prop :=
  w.processed = deeds.countP (Deed.isAcknowledgement true) ∧
    w.failed = deeds.countP Deed.isNack ∧
    w.log.countP Event.isError = deeds.countP Deed.isError ∧
    (w.handler.guard = none → w.calls = deeds.countP Deed.isCall)

namespace Shift

/-- Whatever happens to a worker changes its counters by what is noted of it. -/
theorem Affects.counts {s : Shift} {w w' : Worker} {phases phases' : List Phase}
    {news : List Deed} (h : s.Affects w phases w' phases' news) : Counts w w' news := by
  cases h with
  | steps heffect => exact heffect.counts
  | _ => exact ⟨rfl, rfl, rfl, fun _ => rfl⟩

/-- In every state of every run, the books of every worker are right. -/
theorem Reachable.booked {s : Shift} (hs : s.Reachable) {ref : WorkerRef} {w : Worker}
    (hw : s.fleet.worker? ref = some w) : Booked w (s.deeds ref) := by
  refine hs.worker_induct (P := fun w _ deeds => Booked w deeds)
    (fun _ _ _ _ => ⟨rfl, rfl, rfl, fun _ => rfl⟩) ?_ hw
  rintro s w w' phases phases' deeds news - h ⟨hprocessed, hfailed, herrors, hcalls⟩
  obtain ⟨hprocessed', hfailed', herrors', hcalls'⟩ := h.counts
  refine ⟨?_, ?_, ?_, fun hguard => ?_⟩
  · rw [hprocessed', hprocessed, List.countP_append]
  · rw [hfailed', hfailed, List.countP_append]
  · rw [herrors', herrors, List.countP_append]
  · rw [h.keeps.2] at hguard
    rw [hcalls' hguard, hcalls hguard, List.countP_append]

end Shift

end MessageBroker
