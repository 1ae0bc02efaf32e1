import MessageBroker.Consumer.Worker
import MessageBroker.Demo.Order
import MessageBroker.LogLevel
import MessageBroker.Numeric.RealText

/-!
# Log lines of the demo

A line has a level, a message and named fields. The lines here are those that tell what became of
the topic, the queues, the orders and the workers.
-/

namespace MessageBroker.Demo

/-- A line of the log. -/
structure LogLine where
  level : LogLevel
  message : String
  fields : List (String × String)
deriving DecidableEq

namespace LogLine

/-- The fields, each as `name=value`. -/
def fieldTexts (line : LogLine) : List String :=
  line.fields.map fun field => field.1 ++ "=" ++ field.2

/-- All fields, with blanks between them. -/
def fieldsText (line : LogLine) : String := " ".intercalate line.fieldTexts

/-- The whole line. -/
def text (line : LogLine) : String :=
  " ".intercalate (line.level.name :: line.message :: line.fieldTexts)

/-- A line of the usual level. -/
def info (message : String) (fields : List (String × String)) : LogLine := ⟨.info, message, fields⟩

/-- A count as a field shows it. -/
def countText (n : Nat) : String := String.ofList (Decimal.natural n)

/-- A hundredth of an integer as a field shows it. -/
def hundredthText (i : Int) : String :=
  let magnitude := Binary64.ofDecimal i.natAbs (-2)
  String.ofList (RealStyle.json.write (if i < 0 then magnitude.negate else magnitude))

/-! ## The topic and the queues -/

/-- A topic was created. -/
def createdTopic (topic : String) : LogLine := info "created topic" [("topic", topic)]

/-- A queue was created, whose dead letters go to a queue of that name. -/
def createdQueue (q : Queue) (deadLetters : String) : LogLine :=
  info "created queue" [
    ("queue", q.name),
    ("visibility_timeout_ms", countText q.visibilityTimeout.millis),
    ("max_retries", countText q.maxRetries),
    ("dlq", Text.quoted deadLetters)]

/-- A queue was subscribed. -/
def subscribed (topic queue : String) : LogLine :=
  info "subscribed queue to topic" [("topic", topic), ("queue", queue)]

/-- No queue holds a message any more. -/
def drained : LogLine := info "all queues drained" []

/-! ## Orders -/

/-- An order was published to a number of queues. -/
def published (number delivered : Nat) : LogLine :=
  info "published order" [("order_id", orderId number), ("delivered", countText delivered)]

/-- The customer of an order was notified. -/
def notified (order : Order) : LogLine :=
  info "notification sent" [
    ("order_id", order.id),
    ("email", order.customerEmail),
    ("total", hundredthText order.totalCents)]

/-- An order was recorded. -/
def audited (event : OrderCreated) : LogLine :=
  info "audit record written" [
    ("event_type", event.eventType),
    ("order_id", event.order.id),
    ("total_cents", String.ofList (Decimal.integer event.order.totalCents)),
    ("status", String.ofList (Decimal.integer event.order.status))]

/-! ## Workers -/

/-- A worker was started. -/
def workerStarted (worker queue : String) : LogLine :=
  info "worker started" [("worker", worker), ("queue", queue)]

/-- A worker was stopped. -/
def workerStopped (worker : String) : LogLine := info "worker stopped" [("worker", worker)]

/-- A worker's run ended because of the cancellation signal. -/
def workerCancelled (worker : String) : LogLine := info "worker cancelled" [("worker", worker)]

/-- A worker's handler failed. -/
def failed (worker reason : String) : LogLine :=
  ⟨.warn, "failed to process message: " ++ reason, [("worker", worker)]⟩

/-- What a worker has done in the end. -/
def workerFinished (w : Worker) : LogLine :=
  info "worker finished" [
    ("worker", w.name),
    ("processed", countText w.processed),
    ("failed", countText w.failed)]

end LogLine

end MessageBroker.Demo
