import MessageBroker.BrokerError
import MessageBroker.Queue

/-!
# The broker

A `Broker` holds every queue and topic object, those in its registry and those made outside it, and
hands out identifiers. Objects are referred to by their place in the order of creation and are never
removed, so a dead-letter queue is always older than the queues that use it. Each function is one
atomic step on this state, or a sequence of such steps: a `nack` that gives a message up first
removes it from its queue and then deposits a copy in the dead-letter queue.
-/

namespace MessageBroker

/-- A topic object, by its place in the order of creation. -/
structure TopicRef where
  index : Nat
deriving DecidableEq, Inhabited

/-- A named point of fan-out: every published message is copied once for each subscription. -/
structure Topic where
  name : String
  /-- Subscribed queues in order of subscription; a queue may occur several times. -/
  subscribers : List QueueRef
deriving DecidableEq, Inhabited

/-- What a queue gets that is created without options of its own. -/
structure QueueDefaults where
  visibilityTimeout : Span
  maxRetries : Nat
deriving DecidableEq, Inhabited

/-- Thirty seconds and three leases. -/
def QueueDefaults.standard : QueueDefaults := ⟨.ofSeconds 30, 3⟩

/-- Options of a new queue; those not given take the broker's defaults. -/
structure QueueOptions where
  visibilityTimeout : Option Span := none
  maxRetries : Option Nat := none
  deadLetters : Option QueueRef := none
deriving DecidableEq, Inhabited

/-- The counters of all registered queues. -/
structure BrokerStats where
  topicCount : Nat
  queueCount : Nat
  queues : NameTable QueueStats
deriving DecidableEq

/-- All queues and topics, their registry, and the identifiers generated so far. -/
structure Broker where
  defaults : QueueDefaults
  queues : List Queue
  topics : List Topic
  queueNames : NameTable QueueRef
  topicNames : NameTable TopicRef
  mint : Mint
deriving DecidableEq, Inhabited

namespace Broker

/-- A broker without queues and topics. -/
def create (defaults : QueueDefaults) : Broker :=
  ⟨defaults, [], [], .empty, .empty, {}⟩

/-! ## Objects -/

/-- The queue object of a reference. -/
def queue? (b : Broker) (ref : QueueRef) : Option Queue := b.queues[ref.index]?

/-- The topic object of a reference. -/
def topic? (b : Broker) (ref : TopicRef) : Option Topic := b.topics[ref.index]?

/-- Replaces the state of a queue object. -/
def setQueue (b : Broker) (ref : QueueRef) (q : Queue) : Broker :=
  { b with queues := b.queues.set ref.index q }

/-- A new identifier. -/
def generate (b : Broker) : Ident × Broker := (b.mint.next, { b with mint := b.mint.advance })

/-- Adds a queue object outside the registry. -/
def addQueue (b : Broker) (q : Queue) : QueueRef × Broker :=
  (⟨b.queues.length⟩, { b with queues := b.queues ++ [q] })

/-- Adds a topic object outside the registry. -/
def addTopic (b : Broker) (name : String) : TopicRef × Broker :=
  (⟨b.topics.length⟩, { b with topics := b.topics ++ [⟨name, []⟩] })

/-! ## Registry -/

/-- The queue registered under a name. -/
def findQueue? (b : Broker) (name : String) : Option QueueRef := b.queueNames.find? name

/-- The topic registered under a name. -/
def findTopic? (b : Broker) (name : String) : Option TopicRef := b.topicNames.find? name

/-- The queue registered under a name, which is created if there is none. Options count only for a
new queue. -/
def createQueue (b : Broker) (name : String) (options : QueueOptions) : QueueRef × Broker :=
  match b.findQueue? name with
  | some ref => (ref, b)
  | none =>
    let (ref, b) := b.addQueue (.create name
      (options.visibilityTimeout.getD b.defaults.visibilityTimeout)
      (options.maxRetries.getD b.defaults.maxRetries) options.deadLetters)
    (ref, { b with queueNames := b.queueNames.insert name ref })

/-- The topic registered under a name, which is created if there is none. -/
def createTopic (b : Broker) (name : String) : TopicRef × Broker :=
  match b.findTopic? name with
  | some ref => (ref, b)
  | none =>
    let (ref, b) := b.addTopic name
    (ref, { b with topicNames := b.topicNames.insert name ref })

/-- The counters of the registered queues, in order of name. -/
def stats (b : Broker) : BrokerStats where
  topicCount := b.topicNames.size
  queueCount := b.queueNames.size
  queues := .ofList (b.queueNames.entries.filterMap fun entry =>
    (b.queue? entry.2).map fun q => (entry.1, q.stats))

/-! ## Messages -/

/-- A new message with a new id. -/
def newMessage (b : Broker) (kind : String) (payload : List UInt8) (now : Instant) :
    Message × Broker :=
  let (id, b) := b.generate
  (.create id kind payload now, b)

/-- A copy of a message with a new id. -/
def fork (b : Broker) (m : Message) : Message × Broker :=
  let (id, b) := b.generate
  (m.fork id, b)

/-- Gives a message without an id a new one. -/
def identify (b : Broker) (m : Message) : Message × Broker :=
  if m.id = .blank then
    let (id, b) := b.generate
    ({ m with id }, b)
  else (m, b)

/-- Puts a message behind the others of a queue object, as it is. -/
def put (b : Broker) (ref : QueueRef) (m : Message) : Broker :=
  match b.queue? ref with
  | some q => b.setQueue ref (q.enqueue m)
  | none => b

/-- Puts a message in a queue; a message without an id gets one. -/
def enqueue (b : Broker) (ref : QueueRef) (m : Message) : Broker :=
  let (m, b) := b.identify m
  b.put ref m

/-- Leases the first message of a queue that is visible at a reading of the clock. -/
def receive (b : Broker) (ref : QueueRef) (now : Instant) : Option Message × Broker :=
  match b.queue? ref with
  | none => (none, b)
  | some q =>
    match q.receive now b.mint.next with
    | none => (none, b)
    | some (m, q) => (some m, { b.setQueue ref q with mint := b.mint.advance })

/-- Removes the message of a queue that carries the handle. -/
def acknowledge (b : Broker) (ref : QueueRef) (handle : Ident) : Except BrokerError Broker :=
  match (b.queue? ref).bind (·.acknowledge handle) with
  | some q => .ok (b.setQueue ref q)
  | none => .error (.invalidReceipt handle)

/-! ## Dead letters -/

/-- The metadata key of the last queue that gave a message up. -/
def lastQueueKey : String := "original_queue"

/-- The metadata key of the reason for which it did. -/
def failureReasonKey : String := "failure_reason"

/-- The reason for which a queue gives messages up. -/
def retriesExceeded : String := "max_retries_exceeded"

/-- A message that was removed from its queue and is on its way to the dead letters. -/
structure DeadLetter where
  source : QueueRef
  message : Message
deriving DecidableEq

/-- The first half of a nack, under the lock of the queue: the message is released, or removed and
given up. -/
def giveBack (b : Broker) (ref : QueueRef) (handle : Ident) :
    Except BrokerError (Broker × Option DeadLetter) :=
  match (b.queue? ref).bind (·.nack handle) with
  | some (q, dead) => .ok (b.setQueue ref q, dead.map (DeadLetter.mk ref))
  | none => .error (.invalidReceipt handle)

/-- A copy of a message for the dead letters, marked with the name of the queue that gave it up. -/
def deadLetterCopy (b : Broker) (queue : String) (m : Message) : Message × Broker :=
  let (copy, b) := b.fork m
  ((copy.setMetadata lastQueueKey (.text queue)).setMetadata failureReasonKey
    (.text retriesExceeded), b)

/-- The second half: a copy of the message goes to the dead letters of its queue, if it has any. -/
def deposit (b : Broker) (letter : DeadLetter) : Broker :=
  match b.queue? letter.source with
  | none => b
  | some q =>
    match q.deadLetters with
    | none => b
    | some target =>
      let (copy, b) := b.deadLetterCopy q.name letter.message
      b.enqueue target copy

/-- Returns the message that carries the handle to its queue, or gives it up. -/
def nack (b : Broker) (ref : QueueRef) (handle : Ident) : Except BrokerError Broker :=
  (b.giveBack ref handle).map fun result =>
    match result.2 with
    | some letter => result.1.deposit letter
    | none => result.1

/-! ## Subscriptions -/

/-- Subscribes a queue object to a topic object. -/
def subscribeTo (b : Broker) (topic : TopicRef) (queue : QueueRef) : Broker :=
  match b.topic? topic with
  | some t => { b with topics := b.topics.set topic.index ⟨t.name, t.subscribers ++ [queue]⟩ }
  | none => b

/-- Subscribes a registered queue to a registered topic. A missing topic is reported first. -/
def subscribe (b : Broker) (topic queue : String) : Except BrokerError Broker :=
  match b.findTopic? topic, b.findQueue? queue with
  | none, _ => .error (.topicNotFound topic)
  | some _, none => .error (.queueNotFound queue)
  | some t, some q => .ok (b.subscribeTo t q)

end Broker

end MessageBroker
