import MessageBroker.Consumer.Handler
import MessageBroker.Time.Clock

/-!
# Workers and their runs

A worker consumes one queue with one handler. Each start of a worker is a run: a loop that checks
the worker's signals, leases a message, has it handled and settles it, and that waits for the poll
interval when no message is visible. The phases below are the points between the atomic steps of
that loop.
-/

namespace MessageBroker

/-- A worker, by its place in the order of creation. -/
structure WorkerRef where
  index : Nat
deriving DecidableEq, Inhabited

/-- How a run ended. -/
inductive Outcome where
  | finished
  | cancelled
deriving DecidableEq, Inhabited

/-- How far the handling of a message has come. -/
inductive Stage where
  /-- The handler's guard is about to be asked. -/
  | guarding
  /-- The handler is about to take these actions. -/
  | acting (todo : List Action)
  /-- The handler waits until a reading of the monotonic clock. -/
  | paused (wake : Span) (todo : List Action)
  /-- The message is about to be marked in the store. -/
  | marking
  /-- The message is about to be settled, after a call that took some time. -/
  | settling (failure : Option String) (elapsed : Span)
deriving DecidableEq

/-- A leased message being handled, and when that began. -/
structure Call where
  message : Message
  startedAt : Span
  stage : Stage
deriving DecidableEq

/-- The point at which a run stands. -/
inductive Phase where
  /-- The signals are about to be checked. -/
  | checking
  /-- No message was visible; the run waits until a reading of the monotonic clock. -/
  | polling (wake : Span)
  | handling (call : Call)
  | ended (outcome : Outcome)
deriving DecidableEq

namespace Phase

/-- The reading of the monotonic clock for which the run waits. -/
def wake? : Phase → Option Span
  | .polling wake => some wake
  | .handling ⟨_, _, .paused wake _⟩ => some wake
  | _ => none

/-- The phase after waiting. -/
def awake : Phase → Phase
  | .polling _ => .checking
  | .handling ⟨message, startedAt, .paused _ todo⟩ => .handling ⟨message, startedAt, .acting todo⟩
  | phase => phase

/-- The run is over. -/
def isEnded : Phase → Bool
  | .ended _ => true
  | _ => false

/-- The run can go on without waiting. -/
def isActive (phase : Phase) : Bool := !phase.isEnded && phase.wake?.isNone

end Phase

/-- One start of a worker. -/
structure Run where
  worker : WorkerRef
  phase : Phase
deriving DecidableEq

/-- A consumer of one queue. -/
structure Worker where
  name : String
  queue : QueueRef
  handler : Handler
  pollInterval : Span
  /-- A run of the worker is in progress. -/
  running : Bool
  /-- The worker was stopped, for good. -/
  stopped : Bool
  /-- The cancellation signal. -/
  cancelled : Bool
  /-- The number of messages handled and acknowledged. -/
  processed : Nat
  /-- The number of handler calls that failed. -/
  failed : Nat
  /-- The time spent on the messages that were handled and acknowledged. -/
  processTime : Span
  /-- The number of handler calls. -/
  calls : Nat
  /-- What the handler did. -/
  log : List Event

namespace Worker

/-- The poll interval of a worker without one of its own. -/
def standardPollInterval : Span := .ofMillis 100

/-- A worker that has not been started. -/
def create (name : String) (queue : QueueRef) (handler : Handler) (pollInterval : Span) : Worker :=
  { name, queue, handler, pollInterval, running := false, stopped := false, cancelled := false,
    processed := 0, failed := 0, processTime := .zero, calls := 0, log := [] }

end Worker

end MessageBroker
