import MessageBroker.Config.Settings
import MessageBroker.Consumer.Fleet
import MessageBroker.Demo.LogLine

/-!
# The demo's pipeline

Created orders fan out from one topic to two queues: one for notifying customers and one for audit,
both with the same queue for dead letters. Each is consumed by one worker. The audit worker is
guarded by an idempotency store; the notification worker can be told to fail on the first lease of
every k-th order.
-/

namespace MessageBroker.Demo

/-! ## Handlers -/

/-- The order is one whose first lease fails: every k-th one, none if k is zero. -/
def isRejected (failEvery : Nat) (id : String) : Bool :=
  0 < failEvery ∧ sequenceOf id % failEvery = 0

/-- Why a notification fails. -/
def rejection (id : String) : String := "mail relay rejected order " ++ id

/-- Failing because the payload is no event. -/
def refuse (e : BrokerError) : List Action := [.fail (e.message fun _ => "")]

/-- Notifies the customer of an order. -/
def notify (failEvery : Nat) (m : Message) : List Action :=
  match OrderCreated.ofMessage m with
  | .error e => refuse e
  | .ok event =>
    if isRejected failEvery event.order.id ∧ m.retryCount = 1 then
      [.fail (rejection event.order.id)]
    else []

/-- Records an order. -/
def audit (m : Message) : List Action :=
  match OrderCreated.ofMessage m with
  | .error e => refuse e
  | .ok _ => []

/-! ## Parts -/

/-- The queues and workers that orders pass. -/
structure Pipeline where
  deadLetters : QueueRef
  notifications : QueueRef
  audits : QueueRef
  notifier : WorkerRef
  auditor : WorkerRef
deriving DecidableEq

namespace Pipeline

/-- The queues that must be empty in the end. -/
def queues (p : Pipeline) : List QueueRef := [p.notifications, p.audits]

/-- The workers. -/
def workers (p : Pipeline) : List WorkerRef := [p.notifier, p.auditor]

/-- The name of the queue for dead letters. -/
def deadLettersName : String := "dead-letters"

/-- The name of the queue for notifications. -/
def notificationsName : String := "notifications"

/-- The name of the queue for audit. -/
def auditsName : String := "audit"

/-- The name of the worker that notifies. -/
def notifierName : String := "notification-worker"

/-- The name of the worker that audits. -/
def auditorName : String := "audit-worker"

/-- The leases after which a notification is given up. -/
def notificationLeases : Nat := 3

/-- The leases after which an audit is given up. -/
def auditLeases : Nat := 5

/-- The topic with its queues, and their subscriptions. -/
def connect (defaults : QueueDefaults) : QueueRef × QueueRef × QueueRef × Broker :=
  let (topic, b) := (Broker.create defaults).createTopic orderCreated
  let (deadLetters, b) := b.createQueue deadLettersName {}
  let (notifications, b) := b.createQueue notificationsName
    { maxRetries := some notificationLeases, deadLetters := some deadLetters }
  let (audits, b) := b.createQueue auditsName
    { maxRetries := some auditLeases, deadLetters := some deadLetters }
  (deadLetters, notifications, audits,
    (b.subscribeTo topic notifications).subscribeTo topic audits)

/-- The pipeline, its workers started. -/
def build (settings : Config.Settings) (failEvery : Nat) (clock : Clock) : Pipeline × Fleet :=
  let (deadLetters, notifications, audits, broker) := connect settings.queueDefaults
  let (store, f) := (Fleet.create broker clock).addStore settings.retention
  let (notifier, f) := f.addWorker
    (.create notifierName notifications ⟨fun _ m => notify failEvery m, none⟩ settings.pollInterval)
  let (auditor, f) := f.addWorker
    (.create auditorName audits ⟨fun _ m => audit m, some store⟩ settings.pollInterval)
  (⟨deadLetters, notifications, audits, notifier, auditor⟩, (f.launch notifier).launch auditor)

/-! ## Log -/

/-- The line of a queue's creation. -/
def queueLines (b : Broker) (ref : QueueRef) : List LogLine :=
  match b.queue? ref with
  | none => []
  | some q =>
    let target := (q.deadLetters.bind b.queue?).elim "" Queue.name
    [.createdQueue q target]

/-- The lines of the pipeline's creation. -/
def openingLines (p : Pipeline) (b : Broker) : List LogLine :=
  .createdTopic orderCreated :: [p.deadLetters, p.notifications, p.audits].flatMap (queueLines b) ++
    [.subscribed orderCreated notificationsName, .subscribed orderCreated auditsName,
      .workerStarted notifierName notificationsName, .workerStarted auditorName auditsName]

/-- What a worker's handler logs when it succeeds. -/
def successLines (p : Pipeline) (worker : WorkerRef) (m : Message) : List LogLine :=
  match OrderCreated.ofMessage m with
  | .error _ => []
  | .ok event => if worker = p.notifier then [.notified event.order] else [.audited event]

/-- What is logged in the step that a run is about to take. -/
def runLines (p : Pipeline) (w : Worker) (run : Run) : List LogLine :=
  match run.phase with
  | .checking => if w.cancelled then [.workerCancelled w.name] else []
  | .handling ⟨m, _, .acting []⟩ => p.successLines run.worker m
  | .handling ⟨_, _, .settling (some reason) _⟩ => [.failed w.name reason]
  | _ => []

end Pipeline

end MessageBroker.Demo
