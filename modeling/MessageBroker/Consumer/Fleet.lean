import MessageBroker.Consumer.Worker

/-!
# Workers at work

A `Fleet` is a broker with the workers that consume its queues, the idempotency stores they share,
the clocks, and every run started so far. `Fleet.step` lets one run take one atomic step. A run that
waits is woken by the clock and then goes on until it waits again or ends; several runs whose time
has come go on in the order in which they were started.
-/

namespace MessageBroker

/-- A run, by its place in the order of starting. -/
structure RunRef where
  index : Nat
deriving DecidableEq, Inhabited

/-- A broker, its consumers and the clocks. -/
structure Fleet where
  broker : Broker
  clock : Clock
  stores : List IdempotencyStore
  workers : List Worker
  runs : List Run

namespace Fleet

/-! ## Parts -/

/-- A broker without consumers. -/
def create (broker : Broker) (clock : Clock) : Fleet := ⟨broker, clock, [], [], []⟩

/-- The worker of a reference. -/
def worker? (f : Fleet) (ref : WorkerRef) : Option Worker := f.workers[ref.index]?

/-- Moves both clocks on; no run takes a step. -/
def elapse (f : Fleet) (span : Span) : Fleet := { f with clock := f.clock.advance span }

/-- The run of a reference. -/
def run? (f : Fleet) (ref : RunRef) : Option Run := f.runs[ref.index]?

/-- Changes a worker. -/
def modifyWorker (f : Fleet) (ref : WorkerRef) (change : Worker → Worker) : Fleet :=
  { f with workers := f.workers.modify ref.index change }

/-- Moves a run to a phase. -/
def setPhase (f : Fleet) (ref : RunRef) (phase : Phase) : Fleet :=
  { f with runs := f.runs.modify ref.index fun run => { run with phase } }

/-- Adds to what a worker's handler did. -/
def record (f : Fleet) (ref : WorkerRef) (event : Event) : Fleet :=
  f.modifyWorker ref fun w => { w with log := w.log ++ [event] }

/-- Adds an idempotency store. -/
def addStore (f : Fleet) (retention : Span) : StoreRef × Fleet :=
  (⟨f.stores.length⟩, { f with stores := f.stores ++ [.create retention] })

/-- Adds a worker. -/
def addWorker (f : Fleet) (w : Worker) : WorkerRef × Fleet :=
  (⟨f.workers.length⟩, { f with workers := f.workers ++ [w] })

/-! ## Stores -/

/-- The id counts as processed in a store. -/
def isProcessed (f : Fleet) (store : StoreRef) (id : Ident) : Bool :=
  f.stores[store.index]?.any (·.isProcessed id f.clock.uptime)

/-- Marks an id in a store. -/
def markProcessed (f : Fleet) (store : StoreRef) (id : Ident) : Fleet :=
  { f with stores := f.stores.modify store.index (·.markProcessed id f.clock.uptime) }

/-! ## Actions -/

/-- Publishes a message, and says what came of it. -/
def publish (f : Fleet) (topic : String) (m : Message) : Fleet × Event :=
  let (result, broker) := f.broker.publish topic m none (fun _ => f.clock.uptime)
  ({ f with broker }, .published result)

/-- Settles a message on a queue, and says what came of it. -/
def settle (f : Fleet) (queue : QueueRef) (m : Message) (how : Settlement) : Fleet × Event :=
  match f.broker.settle queue m.handle how with
  | .ok broker => ({ f with broker }, .settled how none)
  | .error refusal => (f, .settled how (some refusal))

/-- Takes an action of a worker's handler that neither waits nor ends the call. -/
def perform (f : Fleet) (ref : WorkerRef) (queue : QueueRef) (m : Message) : Action → Fleet
  | .pause _ | .fail _ => f
  | .elapse length => f.elapse length
  | .stop => f.modifyWorker ref fun w => { w with stopped := true }
  | .signal cancel => f.modifyWorker ref fun w => { w with cancelled := cancel }
  | .settle how =>
    let (f, event) := f.settle queue m how
    f.record ref event
  | .publish topic =>
    let (f, event) := f.publish topic m
    f.record ref event

/-! ## Steps of a run -/

/-- Ends a run. -/
def endRun (f : Fleet) (ref : RunRef) (worker : WorkerRef) (outcome : Outcome) : Fleet :=
  (f.modifyWorker worker fun w => { w with running := false }).setPhase ref (.ended outcome)

/-- Checks the signals, cancellation first, and leases a message. -/
def checkAndLease (f : Fleet) (ref : RunRef) (worker : WorkerRef) (w : Worker) : Fleet :=
  if w.cancelled then f.endRun ref worker .cancelled
  else if w.stopped then f.endRun ref worker .finished
  else
    match f.broker.receive w.queue f.clock.wall with
    | (none, broker) =>
      { f with broker }.setPhase ref (.polling (f.clock.uptime + w.pollInterval))
    | (some message, broker) =>
      { f with broker }.setPhase ref (.handling ⟨message, f.clock.uptime, .guarding⟩)

/-- Settles a message after its call: a success is acknowledged and counts if that is accepted; a
failure counts, and the message is given back. -/
def settleCall (f : Fleet) (worker : WorkerRef) (w : Worker) (m : Message)
    (failure : Option String) (elapsed : Span) : Fleet :=
  match failure with
  | some _ =>
    let f := f.modifyWorker worker fun w => { w with failed := w.failed + 1 }
    match f.broker.nack w.queue m.handle with
    | .ok broker => { f with broker }
    | .error _ => f
  | none =>
    match f.broker.acknowledge w.queue m.handle with
    | .ok broker =>
      { f with broker }.modifyWorker worker fun w =>
        { w with processed := w.processed + 1, processTime := w.processTime + elapsed }
    | .error _ => f

/-- One step of the handling of a message. -/
def stepCall (f : Fleet) (ref : RunRef) (worker : WorkerRef) (w : Worker) (call : Call) : Fleet :=
  let goTo (f : Fleet) (stage : Stage) : Fleet := f.setPhase ref (.handling { call with stage })
  let elapsed := f.clock.uptime.since call.startedAt
  match call.stage with
  | .guarding =>
    if w.handler.guard.any (f.isProcessed · call.message.id) then goTo f (.settling none elapsed)
    else
      goTo ((f.modifyWorker worker fun w => { w with calls := w.calls + 1 }).record worker
          (.began f.clock.uptime call.message))
        (.acting (w.handler.plan w.calls call.message))
  | .acting [] =>
    goTo (f.record worker (.ended f.clock.uptime none))
      (if w.handler.guard.isSome then .marking else .settling none elapsed)
  | .acting (.pause length :: todo) => goTo f (.paused (f.clock.uptime + length) todo)
  | .acting (.fail reason :: _) =>
    goTo (f.record worker (.ended f.clock.uptime (some reason))) (.settling (some reason) elapsed)
  | .acting (action :: todo) => goTo (f.perform worker w.queue call.message action) (.acting todo)
  | .paused _ _ => f
  | .marking =>
    match w.handler.guard with
    | some store => goTo (f.markProcessed store call.message.id) (.settling none elapsed)
    | none => goTo f (.settling none elapsed)
  | .settling failure elapsed =>
    (f.settleCall worker w call.message failure elapsed).setPhase ref .checking

/-- One step of a run. A run that waits or has ended takes none. -/
def step (f : Fleet) (ref : RunRef) : Fleet :=
  match f.run? ref with
  | none => f
  | some run =>
    match f.worker? run.worker with
    | none => f
    | some w =>
      match run.phase with
      | .checking => f.checkAndLease ref run.worker w
      | .handling call => f.stepCall ref run.worker w call
      | .polling _ | .ended _ => f

/-- The run of a reference can go on. -/
def isActive (f : Fleet) (ref : RunRef) : Bool := (f.run? ref).any (·.phase.isActive)

/-- Lets a run go on until it waits or ends, for at most `fuel` steps. -/
def resume (ref : RunRef) : (fuel : Nat) → Fleet → Fleet
  | 0, f => f
  | fuel + 1, f => if f.isActive ref then resume ref fuel (f.step ref) else f

/-- Steps that a run may take before it waits. A run that takes more is left where it stands. -/
def patience : Nat := 1000000

/-! ## Signals -/

/-- Starts a worker: a run that has taken no step yet. A worker that is running is not started twice:
the run is over at once. -/
def launch (f : Fleet) (worker : WorkerRef) : Fleet :=
  match f.worker? worker with
  | none => f
  | some w =>
    if w.running then { f with runs := f.runs ++ [⟨worker, .ended .finished⟩] }
    else
      let started : Fleet := { f with runs := f.runs ++ [⟨worker, .checking⟩] }
      started.modifyWorker worker fun w => { w with running := true }

/-- Starts a worker and lets the run go on until it first waits. -/
def start (f : Fleet) (worker : WorkerRef) : Fleet :=
  resume ⟨f.runs.length⟩ patience (f.launch worker)

/-- Stops a worker for good: its runs end at their next check. -/
def stop (f : Fleet) (worker : WorkerRef) : Fleet :=
  f.modifyWorker worker fun w => { w with stopped := true }

/-- Sets or clears the cancellation signal of a worker. -/
def signal (f : Fleet) (worker : WorkerRef) (cancel : Bool) : Fleet :=
  f.modifyWorker worker fun w => { w with cancelled := cancel }

/-! ## Time -/

/-- The run waits for a reading of the monotonic clock that has been reached. -/
def isDue (f : Fleet) (now : Span) (ref : RunRef) : Bool :=
  (f.run? ref).any (·.phase.wake?.any (· ≤ now))

/-- Ends the waiting of a run. -/
def rouse (f : Fleet) (ref : RunRef) : Fleet :=
  { f with runs := f.runs.modify ref.index fun run => { run with phase := run.phase.awake } }

/-- Wakes a run whose time has come, and lets it go on. -/
def wake (f : Fleet) (now : Span) (ref : RunRef) : Fleet :=
  if f.isDue now ref then resume ref patience (f.rouse ref) else f

/-- The references of all runs, in the order of starting. -/
def runRefs (f : Fleet) : List RunRef := (List.range f.runs.length).map RunRef.mk

/-- One millisecond passes, and the runs whose time has come go on in turn. -/
def tick (f : Fleet) : Fleet :=
  let f := f.elapse (.ofMillis 1)
  f.runRefs.foldl (fun g ref => g.wake f.clock.uptime ref) f

/-- Ticks until the monotonic clock has reached a reading, at most `fuel` times. -/
def tickUntil (target : Span) : (fuel : Nat) → Fleet → Fleet
  | 0, f => f
  | fuel + 1, f => if f.clock.uptime < target then tickUntil target fuel f.tick else f

/-- A run has not ended. -/
def isPending (f : Fleet) : Bool := f.runs.any (!·.phase.isEnded)

/-- Lets time pass: in one go if no run is pending, else by milliseconds. -/
def advance (f : Fleet) (span : Span) : Fleet :=
  if f.isPending then tickUntil (f.clock.uptime + span) (span.millis + 1) f
  else f.elapse span

end Fleet

end MessageBroker
