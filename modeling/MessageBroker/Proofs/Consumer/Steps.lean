import Mathlib.Logic.Relation
import MessageBroker.Consumer.Fleet

/-!
# The steps of a run

A step of a run reads and changes the worker, the broker and the phase of the run, and the store
that guards its handler. `At` says what the first three are at one point of a run, and `Reaches` that
the run gets to a point with certain ones by steps of its own, while the clock stands still;
`Leaves` says moreover what is in the stores then. There is one lemma for each kind of step; they
are put together with `Reaches.after` and `Leaves.after`. `resume_of_goes` turns the steps into what
`resume` does with enough of them, and `At.resume_eq` says that a run which waits takes no more.
-/

namespace MessageBroker

namespace Worker

/-- The worker with further events in its log. -/
def logged (w : Worker) (events : List Event) : Worker := { w with log := w.log ++ events }

/-- Events that are logged in turn. -/
@[simp] theorem logged_logged (w : Worker) (events events' : List Event) :
    (w.logged events).logged events' = w.logged (events ++ events') := by
  unfold logged
  simp only [List.append_assoc]

end Worker

namespace Fleet

/-- The run can go on, and takes a step. -/
def Goes (run : RunRef) (f g : Fleet) : Prop := f.isActive run = true ∧ g = f.step run

/-- A run that is allowed more steps than it takes to a point goes through that point. -/
theorem resume_of_goes {run : RunRef} {f g : Fleet} (h : Relation.ReflTransGen (Goes run) f g) :
    ∃ steps, ∀ fuel, resume run (steps + fuel) f = resume run fuel g := by
  induction h using Relation.ReflTransGen.head_induction_on with
  | refl => exact ⟨0, fun fuel => by rw [Nat.zero_add]⟩
  | head hfirst _ ih =>
    obtain ⟨hactive, rfl⟩ := hfirst
    obtain ⟨steps, hsteps⟩ := ih
    refine ⟨steps + 1, fun fuel => ?_⟩
    rw [Nat.add_right_comm, resume, if_pos hactive, hsteps]

/-- The point at which a run stands: its phase, its worker and the broker, at a reading of the
clocks. -/
structure At (f : Fleet) (run : RunRef) (worker : WorkerRef) (clock : Clock) (w : Worker)
    (b : Broker) (phase : Phase) : Prop where
  run : f.run? run = some ⟨worker, phase⟩
  worker : f.worker? worker = some w
  broker : f.broker = b
  clock : f.clock = clock

/-- The run gets to a point by steps of its own. -/
def Reaches (f : Fleet) (run : RunRef) (worker : WorkerRef) (clock : Clock) (w : Worker)
    (b : Broker) (phase : Phase) : Prop :=
  ∃ g, Relation.ReflTransGen (Goes run) f g ∧ g.At run worker clock w b phase

/-- The run gets to a point by steps of its own, and leaves these stores. -/
def Leaves (f : Fleet) (run : RunRef) (worker : WorkerRef) (clock : Clock) (w : Worker)
    (b : Broker) (phase : Phase) (stores : List IdempotencyStore) : Prop :=
  ∃ g, Relation.ReflTransGen (Goes run) f g ∧ g.At run worker clock w b phase ∧ g.stores = stores

variable {f : Fleet} {run : RunRef} {worker : WorkerRef} {clock : Clock} {w w' : Worker}
  {b b' : Broker} {phase phase' : Phase} {stores : List IdempotencyStore}

/-- Where a run gets to, whatever it leaves. -/
theorem Leaves.reaches (h : f.Leaves run worker clock w b phase stores) :
    f.Reaches run worker clock w b phase := by
  obtain ⟨g, hsteps, hg, -⟩ := h
  exact ⟨g, hsteps, hg⟩

/-- What a run leaves that goes on from a point that it gets to. -/
theorem Leaves.after {g : Fleet} (h : g.Leaves run worker clock w b phase stores)
    (hsteps : Relation.ReflTransGen (Goes run) f g) :
    f.Leaves run worker clock w b phase stores := by
  obtain ⟨g', hsteps', hg', hstores⟩ := h
  exact ⟨g', hsteps.trans hsteps', hg', hstores⟩

/-- What a run gets to from a point that it gets to. -/
theorem Reaches.after {g : Fleet} (h : g.Reaches run worker clock w b phase)
    (hsteps : Relation.ReflTransGen (Goes run) f g) : f.Reaches run worker clock w b phase := by
  obtain ⟨g', hsteps', hg'⟩ := h
  exact ⟨g', hsteps.trans hsteps', hg'⟩

namespace At

section Changes

variable (h : f.At run worker clock w b phase)
include h

/-- A run is at the point where it stands. -/
theorem reaches : f.Reaches run worker clock w b phase := ⟨f, .refl, h⟩

/-- A run that moves to a phase. -/
theorem setPhase (next : Phase) : (f.setPhase run next).At run worker clock w b next := by
  refine ⟨?_, h.worker, h.broker, h.clock⟩
  have hrun := h.run
  unfold run? at hrun
  unfold run? Fleet.setPhase
  rw [List.getElem?_modify_eq, hrun]
  rfl

/-- A change to the worker. -/
theorem modifyWorker (change : Worker → Worker) :
    (f.modifyWorker worker change).At run worker clock (change w) b phase := by
  refine ⟨h.run, ?_, h.broker, h.clock⟩
  have hworker := h.worker
  unfold worker? at hworker
  unfold worker? Fleet.modifyWorker
  rw [List.getElem?_modify_eq, hworker]
  rfl

/-- A change to the broker. -/
theorem withBroker (next : Broker) : { f with broker := next }.At run worker clock w next phase :=
  ⟨h.run, h.worker, rfl, h.clock⟩

/-- A run that is active takes its step. -/
theorem goes (hactive : phase.isActive = true)
    (hstep : (f.step run).At run worker clock w' b' phase' ∧ (f.step run).stores = stores) :
    f.Leaves run worker clock w' b' phase' stores := by
  have hf : f.isActive run = true := by
    unfold isActive
    rw [h.run]
    exact hactive
  exact ⟨f.step run, .single ⟨hf, rfl⟩, hstep⟩

/-- A run that waits or has ended takes no step. -/
theorem resume_eq (hactive : phase.isActive = false) (fuel : Nat) : resume run fuel f = f := by
  have hf : f.isActive run = false := by
    unfold isActive
    rw [h.run]
    exact hactive
  cases fuel with
  | zero => rfl
  | succ fuel => rw [resume, hf, if_neg Bool.false_ne_true]

end Changes

/-! ## Leasing -/

section Checking

variable (h : f.At run worker clock w b .checking) (hcancel : w.cancelled = false)
  (hstop : w.stopped = false)
include h

/-- A step of a run that checks its worker. -/
theorem step_checking : f.step run = f.checkAndLease run worker w := by
  unfold step
  simp only [h.run, h.worker]

include hcancel hstop

/-- Without a signal, a run waits for the poll interval if no message is visible. -/
theorem waits (hrec : b.receive w.queue clock.wall = (none, b')) :
    f.Leaves run worker clock w b' (.polling (clock.uptime + w.pollInterval)) f.stores := by
  obtain rfl := h.broker
  obtain rfl := h.clock
  refine h.goes rfl ?_
  rw [h.step_checking]
  simp only [checkAndLease, hcancel, hstop, Bool.false_eq_true, if_false, hrec]
  exact ⟨(h.withBroker b').setPhase _, rfl⟩

/-- Such a run gets to waiting. -/
theorem polls (hrec : b.receive w.queue clock.wall = (none, b')) :
    f.Reaches run worker clock w b' (.polling (clock.uptime + w.pollInterval)) :=
  (h.waits hcancel hstop hrec).reaches

/-- Without a signal, a run that leases a message begins to handle it. -/
theorem leases {m : Message} (hrec : b.receive w.queue clock.wall = (some m, b')) :
    f.Leaves run worker clock w b' (.handling ⟨m, clock.uptime, .guarding⟩) f.stores := by
  obtain rfl := h.broker
  obtain rfl := h.clock
  refine h.goes rfl ?_
  rw [h.step_checking]
  simp only [checkAndLease, hcancel, hstop, Bool.false_eq_true, if_false, hrec]
  exact ⟨(h.withBroker b').setPhase _, rfl⟩

end Checking

/-! ## Handling -/

section Handling

variable {m : Message} {began : Span}

/-- A step of a run that handles a message. -/
theorem step_handling {call : Call} (h : f.At run worker clock w b (.handling call)) :
    f.step run = f.stepCall run worker w call := by
  unfold step
  simp only [h.run, h.worker]

/-- A message whose id counts as processed in the store of the guard is not handled. -/
theorem skips (h : f.At run worker clock w b (.handling ⟨m, began, .guarding⟩))
    (hguard : w.handler.guard.any (f.isProcessed · m.id) = true) :
    f.Leaves run worker clock w b
      (.handling ⟨m, began, .settling none (clock.uptime.since began)⟩) f.stores := by
  refine h.goes rfl ?_
  rw [h.step_handling]
  simp only [stepCall, hguard, if_true, h.clock]
  exact ⟨h.setPhase _, rfl⟩

/-- Unless the guard is against it, the handler is called. -/
theorem calls (h : f.At run worker clock w b (.handling ⟨m, began, .guarding⟩))
    (hguard : w.handler.guard.any (f.isProcessed · m.id) = false) :
    f.Leaves run worker clock
      ({ w with calls := w.calls + 1 }.logged [.began clock.uptime m]) b
      (.handling ⟨m, began, .acting (w.handler.plan w.calls m)⟩) f.stores := by
  refine h.goes rfl ?_
  rw [h.step_handling]
  simp only [stepCall, hguard, Bool.false_eq_true, if_false, h.clock]
  exact ⟨((h.modifyWorker _).modifyWorker _).setPhase _, rfl⟩

/-- A call ends with its first failure. -/
theorem fails {reason : String} {todo : List Action}
    (h : f.At run worker clock w b (.handling ⟨m, began, .acting (.fail reason :: todo)⟩)) :
    f.Leaves run worker clock (w.logged [.ended clock.uptime (some reason)]) b
      (.handling ⟨m, began, .settling (some reason) (clock.uptime.since began)⟩) f.stores := by
  refine h.goes rfl ?_
  rw [h.step_handling]
  simp only [stepCall, h.clock]
  exact ⟨(h.modifyWorker _).setPhase _, rfl⟩

/-- Without a failure, a call ends behind its last action. Behind a guard, its message is marked
before it is settled. -/
theorem succeeds (h : f.At run worker clock w b (.handling ⟨m, began, .acting []⟩)) :
    f.Leaves run worker clock (w.logged [.ended clock.uptime none]) b
      (.handling ⟨m, began, if w.handler.guard.isSome then .marking
        else .settling none (clock.uptime.since began)⟩) f.stores := by
  refine h.goes rfl ?_
  rw [h.step_handling]
  simp only [stepCall, h.clock]
  exact ⟨(h.modifyWorker _).setPhase _, rfl⟩

/-- Behind a guard, the message is marked in its store. -/
theorem marks {store : StoreRef} (hguard : w.handler.guard = some store)
    (h : f.At run worker clock w b (.handling ⟨m, began, .marking⟩)) :
    f.Leaves run worker clock w b
      (.handling ⟨m, began, .settling none (clock.uptime.since began)⟩)
      (f.markProcessed store m.id).stores := by
  have hmarked : (f.markProcessed store m.id).At run worker clock w b
      (.handling ⟨m, began, .marking⟩) := ⟨h.run, h.worker, h.broker, h.clock⟩
  refine h.goes rfl ?_
  rw [h.step_handling]
  simp only [stepCall, hguard, h.clock]
  exact ⟨hmarked.setPhase _, rfl⟩

/-- A publication changes the broker, and is logged. -/
theorem publishes {topic : String} {todo : List Action}
    (h : f.At run worker clock w b (.handling ⟨m, began, .acting (.publish topic :: todo)⟩)) :
    f.Leaves run worker clock
      (w.logged [.published (b.publish topic m none fun _ => clock.uptime).1])
      (b.publish topic m none fun _ => clock.uptime).2
      (.handling ⟨m, began, .acting todo⟩) f.stores := by
  obtain rfl := h.broker
  obtain rfl := h.clock
  refine h.goes rfl ?_
  rw [h.step_handling]
  exact ⟨((h.withBroker _).modifyWorker _).setPhase _, rfl⟩

/-- A success is acknowledged and counted. -/
theorem acknowledges {elapsed : Span}
    (h : f.At run worker clock w b (.handling ⟨m, began, .settling none elapsed⟩))
    (hack : b.acknowledge w.queue m.handle = .ok b') :
    f.Leaves run worker clock
      { w with processed := w.processed + 1, processTime := w.processTime + elapsed } b'
      .checking f.stores := by
  refine h.goes rfl ?_
  rw [h.step_handling]
  simp only [stepCall, settleCall, h.broker, hack]
  exact ⟨((h.withBroker _).modifyWorker _).setPhase _, rfl⟩

/-- A failure is counted, and the message is given back. -/
theorem givesBack {reason : String} {elapsed : Span}
    (h : f.At run worker clock w b (.handling ⟨m, began, .settling (some reason) elapsed⟩))
    (hnack : b.nack w.queue m.handle = .ok b') :
    f.Leaves run worker clock { w with failed := w.failed + 1 } b' .checking f.stores := by
  refine h.goes rfl ?_
  rw [h.step_handling]
  have hbroker : (f.modifyWorker worker fun w => { w with failed := w.failed + 1 }).broker = b :=
    h.broker
  simp only [stepCall, settleCall, hbroker, hnack]
  exact ⟨((h.modifyWorker _).withBroker _).setPhase _, rfl⟩

end Handling

end At

/-- The run of a worker that is started begins with a check. -/
theorem at_launch (hworker : f.worker? worker = some w) (hidle : w.running = false) :
    (f.launch worker).At ⟨f.runs.length⟩ worker f.clock { w with running := true } f.broker
      .checking := by
  have hrun : (f.runs ++ [⟨worker, .checking⟩])[f.runs.length]? = some ⟨worker, .checking⟩ := by
    rw [List.getElem?_append_right (Nat.le_refl _), Nat.sub_self]
    rfl
  have hstarted : ({ f with runs := f.runs ++ [⟨worker, .checking⟩] } : Fleet).At ⟨f.runs.length⟩
      worker f.clock w f.broker .checking := ⟨hrun, hworker, rfl, rfl⟩
  unfold launch
  rw [hworker]
  simp only [hidle, Bool.false_eq_true, if_false]
  exact hstarted.modifyWorker _

end Fleet

end MessageBroker
