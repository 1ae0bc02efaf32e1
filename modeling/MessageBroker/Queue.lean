import MessageBroker.Message

/-!
# Queues

A queue keeps its messages in the order in which they were put in. `receive` leases the first
visible one; its holder settles it by `acknowledge`, which removes it, or by `nack`, which makes it
visible again where it stands, or gives it up once it has been leased as often as the queue allows.
A lease that is not settled lapses. The functions here are the queue's critical sections: each
happens at once, on one queue.
-/

namespace MessageBroker

/-- A queue object, by its place in the order of creation. -/
structure QueueRef where
  index : Nat
deriving DecidableEq, Inhabited

/-- The counters of a queue at one moment. -/
structure QueueStats where
  received : Nat
  processed : Nat
  failed : Nat
  size : Nat
deriving DecidableEq, Inhabited

/-- A queue with leases, retries and an optional queue for dead letters. -/
structure Queue where
  name : String
  visibilityTimeout : Span
  maxRetries : Nat
  deadLetters : Option QueueRef
  messages : List Message
  /-- The number of messages ever put in. -/
  received : Nat
  /-- The number of messages acknowledged. -/
  processed : Nat
  /-- The number of messages given up. -/
  failed : Nat
deriving DecidableEq, Inhabited

namespace Queue

/-- An empty queue. -/
def create (name : String) (visibilityTimeout : Span) (maxRetries : Nat)
    (deadLetters : Option QueueRef) : Queue :=
  { name, visibilityTimeout, maxRetries, deadLetters,
    messages := [], received := 0, processed := 0, failed := 0 }

/-- The number of messages, leased ones included. -/
def size (q : Queue) : Nat := q.messages.length

/-- The counters now. -/
def stats (q : Queue) : QueueStats := ⟨q.received, q.processed, q.failed, q.size⟩

/-- Puts a message behind the others, as it is. -/
def enqueue (q : Queue) (m : Message) : Queue :=
  { q with messages := q.messages ++ [m], received := q.received + 1 }

/-! ## Leasing -/

/-- Leases the first visible message of a list; gives it as leased, and the list with it. -/
def leaseFirst (now : Instant) (handle : Ident) (deadline : Instant) :
    List Message → Option (Message × List Message)
  | [] => none
  | m :: rest =>
    if m.VisibleAt now then
      let leased := m.leased handle deadline
      some (leased, leased :: rest)
    else (leaseFirst now handle deadline rest).map fun found => (found.1, m :: found.2)

/-- Leases the first message that is visible at a reading of the clock, under a new handle. The
lease ends a visibility timeout after that reading. -/
def receive (q : Queue) (now : Instant) (handle : Ident) : Option (Message × Queue) :=
  (leaseFirst now handle (now.deadline q.visibilityTimeout) q.messages).map fun found =>
    (found.1, { q with messages := found.2 })

/-! ## Settling -/

/-- The message carries the handle. -/
def carries (handle : Ident) (m : Message) : Bool := m.receipt = some handle

/-- The first message that carries the handle. -/
def held? (q : Queue) (handle : Ident) : Option Message := q.messages.find? (carries handle)

/-- The list without the first message that carries the handle. -/
def removeFirst (handle : Ident) (messages : List Message) : List Message :=
  messages.eraseP (carries handle)

/-- Releases the first message that carries the handle. -/
def releaseFirst (handle : Ident) : List Message → List Message
  | [] => []
  | m :: rest => if carries handle m then m.released :: rest else m :: releaseFirst handle rest

/-- Removes the message that carries the handle for good; none if there is no such message. -/
def acknowledge (q : Queue) (handle : Ident) : Option Queue :=
  (q.held? handle).map fun _ =>
    { q with messages := removeFirst handle q.messages, processed := q.processed + 1 }

/-- Returns the message that carries the handle for redelivery, or removes and gives it up if it has
been leased `maxRetries` times or more. The second component is a message that was given up; none
altogether if no message carries the handle. -/
def nack (q : Queue) (handle : Ident) : Option (Queue × Option Message) :=
  (q.held? handle).map fun m =>
    if m.retryCount < q.maxRetries then
      ({ q with messages := releaseFirst handle q.messages }, none)
    else
      ({ q with messages := removeFirst handle q.messages, failed := q.failed + 1 }, some m)

end Queue

end MessageBroker
