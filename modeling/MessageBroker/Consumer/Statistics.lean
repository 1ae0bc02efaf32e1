import MessageBroker.Consumer.Worker
import MessageBroker.Statistics

/-!
# Written statistics of workers
-/

namespace MessageBroker

/-- The counters of a worker as JSON. -/
def Worker.statsJson (w : Worker) : Json := .object [
  ("messages_processed", .natural w.processed),
  ("messages_failed", .natural w.failed),
  ("total_process_time", w.processTime.toJson)]

end MessageBroker
