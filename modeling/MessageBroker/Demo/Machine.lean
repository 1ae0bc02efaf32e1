import MessageBroker.Demo.Pipeline

/-!
# The demo at work

The main task publishes the orders while the two workers consume them; it waits until the queues are
empty, stops the workers and waits for their runs. Main task and runs take atomic steps in any order,
and time passes in between: a `Turn` says who is next, and every list of turns is a possible run of
the demo. `State.nextTurn` chooses one such run, in which time passes only when everyone waits.
-/

namespace MessageBroker.Demo

/-- How far the main task has come. -/
inductive Progress where
  /-- The order with this number is about to be published, if there is one. -/
  | publishing (next : Nat)
  /-- Copies of an order's message are still to be put in these queues. -/
  | delivering (number : Nat) (message : Message) (targets : List QueueRef) (delivered : Nat)
  /-- These queues have not been found empty yet. -/
  | draining (unchecked : List QueueRef)
  /-- These workers are about to be stopped. -/
  | stopping (workers : List WorkerRef)
  /-- The runs of the workers have not all ended. -/
  | joining
  | done
deriving DecidableEq

/-- The demo at a moment. -/
structure State where
  pipeline : Pipeline
  /-- The number of orders to publish. -/
  orders : Nat
  fleet : Fleet
  progress : Progress
  /-- What was logged, the latest line first. -/
  log : List LogLine

/-- Who acts next. -/
inductive Turn where
  | main
  | run (ref : RunRef)
  | elapse (span : Span)
deriving DecidableEq

namespace State

/-- The metadata key of an order's id. -/
def orderIdKey : String := "order_id"

/-- The demo when its workers have just been started. -/
def create (settings : Config.Settings) (orders failEvery : Nat) (clock : Clock) : State :=
  let (pipeline, fleet) := Pipeline.build settings failEvery clock
  { pipeline, orders, fleet, progress := .publishing 1,
    log := (pipeline.openingLines fleet.broker).reverse }

/-- Adds lines to the log. -/
def say (s : State) (lines : List LogLine) : State := { s with log := lines.reverse ++ s.log }

/-- The names of workers, which say what becomes of them. -/
def workerLines (s : State) (line : Worker → LogLine) (workers : List WorkerRef) : List LogLine :=
  (workers.filterMap s.fleet.worker?).map line

/-! ## Steps of the main task -/

/-- The message of the order with a number. -/
def orderMessage (b : Broker) (number : Nat) (now : Instant) : Message × Broker :=
  let event := orderEvent number
  let (m, b) := b.newMessage orderCreated (Json.encode event.toJson) now
  (m.setMetadata orderIdKey (.text event.order.id), b)

/-- Begins to publish an order: makes its message, and takes the list of subscribers. -/
def beginOrder (s : State) (number : Nat) : State :=
  let (m, broker) := orderMessage s.fleet.broker number s.fleet.clock.wall
  { s with fleet := { s.fleet with broker },
           progress := .delivering number m (broker.subscribers orderCreated) 0 }

/-- Puts one copy of an order's message in a queue. -/
def deliverOne (s : State) (m : Message) (target : QueueRef) : State :=
  { s with fleet := { s.fleet with broker := s.fleet.broker.deliver orderCreated m target } }

/-- A queue holds messages. -/
def isBusy (s : State) (queue : QueueRef) : Bool :=
  (s.fleet.broker.queue? queue).any (0 < ·.size)

/-- Sets the cancellation signal of all workers. -/
def cancelAll (s : State) : State :=
  { s with fleet := s.pipeline.workers.foldl (·.signal · true) s.fleet }

/-- One step of the main task. -/
def stepMain (s : State) : State :=
  match s.progress with
  | .publishing next =>
    if next ≤ s.orders then s.beginOrder next
    else { s with progress := .draining s.pipeline.queues }
  | .delivering number m (target :: rest) delivered =>
    { s.deliverOne m target with progress := .delivering number m rest (delivered + 1) }
  | .delivering number _ [] delivered =>
    { s.say [.published number delivered] with progress := .publishing (number + 1) }
  | .draining (queue :: rest) =>
    { s with progress := .draining (if s.isBusy queue then s.pipeline.queues else rest) }
  | .draining [] => { s.say [.drained] with progress := .stopping s.pipeline.workers }
  | .stopping (worker :: rest) =>
    { s.say (s.workerLines (.workerStopped ·.name) [worker]) with
      fleet := s.fleet.stop worker, progress := .stopping rest }
  | .stopping [] => { s.cancelAll with progress := .joining }
  | .joining =>
    if s.fleet.isPending then s
    else { s.say (s.workerLines .workerFinished s.pipeline.workers) with progress := .done }
  | .done => s

/-! ## Turns -/

/-- One step of a run: if its waiting is over it wakes up, else it goes on. -/
def stepRun (s : State) (ref : RunRef) : State :=
  match s.fleet.run? ref with
  | none => s
  | some run =>
    let lines := (s.fleet.worker? run.worker).elim [] (s.pipeline.runLines · run)
    { s.say lines with
      fleet :=
        if s.fleet.isDue s.fleet.clock.uptime ref then s.fleet.rouse ref else s.fleet.step ref }

/-- What happens in a turn. -/
def take (s : State) : Turn → State
  | .main => s.stepMain
  | .run ref => s.stepRun ref
  | .elapse span => { s with fleet := s.fleet.elapse span }

/-! ## A schedule -/

/-- The main task waits for others. -/
def isMainWaiting (s : State) : Bool :=
  match s.progress with
  | .draining (queue :: _) => s.isBusy queue
  | .joining => s.fleet.isPending
  | _ => false

/-- The earlier one of two readings. -/
def earlier (a b : Span) : Span := if a ≤ b then a else b

/-- The time until the first run wakes up. -/
def untilWake (s : State) : Span :=
  match s.fleet.runs.filterMap (·.phase.wake?) with
  | [] => .zero
  | first :: rest => (rest.foldl earlier first).since s.fleet.clock.uptime

/-- The next turn: that of the first run that can go on, else of the main task, else time passes. -/
def nextTurn (s : State) : Turn :=
  let now := s.fleet.clock.uptime
  match s.fleet.runRefs.find? fun ref => s.fleet.isActive ref || s.fleet.isDue now ref with
  | some ref => .run ref
  | none => if s.isMainWaiting then .elapse s.untilWake else .main

/-- Takes turns until the demo is done; none if that takes more than `fuel` of them. -/
def finish : (fuel : Nat) → State → Option State
  | 0, _ => none
  | fuel + 1, s => if s.progress = .done then some s else finish fuel (s.take s.nextTurn)

/-- Turns that suffice: an order takes at most four of the main task, eight of the first worker and
five of the second. -/
def turnsNeeded (orders : Nat) : Nat := 20 * orders + 50

end State

end MessageBroker.Demo
