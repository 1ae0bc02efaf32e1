import MessageBroker.Broker

/-!
# Publishing

A publication takes the list of a topic's subscribers once and then puts one copy of the message in
each of those queues, in order of subscription. Later subscriptions do not see the message. Given a
deadline, it reads the monotonic clock before each subscriber and stops at the first reading that
has reached the deadline; copies already delivered stay where they are.
-/

namespace MessageBroker.Broker

/-- The metadata key of the topic that a copy came through. -/
def sourceTopicKey : String := "source_topic"

/-- The metadata key of a copy's delivery id. -/
def deliveryIdKey : String := "delivery_id"

/-- The subscribers of a registered topic at this moment; none if there is no such topic. -/
def subscribers (b : Broker) (topic : String) : List QueueRef :=
  ((b.findTopic? topic).bind b.topic?).elim [] Topic.subscribers

/-- A copy of a message for a subscriber, marked with the topic and a new delivery id. -/
def publicationCopy (b : Broker) (topic : String) (m : Message) : Message × Broker :=
  let (copy, b) := b.fork m
  let (delivery, b) := b.generate
  ((copy.setMetadata sourceTopicKey (.text topic)).setMetadata deliveryIdKey delivery, b)

/-- Puts one marked copy of a message in a queue. -/
def deliver (b : Broker) (topic : String) (m : Message) (target : QueueRef) : Broker :=
  let (copy, b) := b.publicationCopy topic m
  b.enqueue target copy

/-- The deadline, if there is one, has been reached. -/
def reached (deadline : Option Span) (reading : Span) : Bool := deadline.any (· ≤ reading)

/-- Delivers to the remaining subscribers after the first `delivered` of them. `clock` gives the
reading taken before the subscriber of each place. -/
def fanOut (topic : String) (m : Message) (deadline : Option Span) (clock : Nat → Span) :
    List QueueRef → (delivered : Nat) → Broker → Except BrokerError Nat × Broker
  | [], delivered, b => (.ok delivered, b)
  | target :: rest, delivered, b =>
    if reached deadline (clock delivered) then
      (.error (.deadlineExceeded topic delivered (rest.length + 1)), b)
    else fanOut topic m deadline clock rest (delivered + 1) (b.deliver topic m target)

/-- Publishes to a topic object: the number of copies, or how far the publication came. -/
def publishTo (b : Broker) (topic : TopicRef) (m : Message) (deadline : Option Span)
    (clock : Nat → Span) : Except BrokerError Nat × Broker :=
  match b.topic? topic with
  | some t => fanOut t.name m deadline clock t.subscribers 0 b
  | none => (.ok 0, b)

/-- Publishes to a registered topic. -/
def publish (b : Broker) (topic : String) (m : Message) (deadline : Option Span)
    (clock : Nat → Span) : Except BrokerError Nat × Broker :=
  match b.findTopic? topic with
  | some ref => b.publishTo ref m deadline clock
  | none => (.error (.topicNotFound topic), b)

end MessageBroker.Broker
