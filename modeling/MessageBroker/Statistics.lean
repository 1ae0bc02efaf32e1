import MessageBroker.Broker
import MessageBroker.Json.Writer

/-!
# Written statistics

The counters of a queue, of all registered queues and of a span of time as JSON, their members in
the order in which they are written.
-/

namespace MessageBroker

/-- The counters of a queue as JSON. -/
def QueueStats.toJson (s : QueueStats) : Json := .object [
  ("total_received", .natural s.received),
  ("total_processed", .natural s.processed),
  ("total_failed", .natural s.failed),
  ("current_size", .natural s.size)]

/-- The counters of all registered queues as JSON. -/
def BrokerStats.toJson (s : BrokerStats) : Json := .object [
  ("topic_count", .natural s.topicCount),
  ("queue_count", .natural s.queueCount),
  ("queues", .ofTable QueueStats.toJson s.queues)]

/-- A span of time as JSON: whole seconds, and nanoseconds beyond them. -/
def Span.toJson (s : Span) : Json := .object [
  ("secs", .natural s.seconds),
  ("nanos", .natural s.subsecond)]

end MessageBroker
