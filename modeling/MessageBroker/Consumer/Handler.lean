import MessageBroker.Publication
import MessageBroker.Idempotency

/-!
# Handlers

A handler consumes one message at a time. What a call does is a list of actions, which may depend
on the message and on the number of earlier calls: it can wait, fail, settle the message by itself,
publish it again, or act on the worker that called it. The call fails at the first action that fails
and succeeds behind the last one. A guarded handler asks an idempotency store before it acts and
marks the message in it after a success.
-/

namespace MessageBroker

/-- The two ways to settle a leased message. -/
inductive Settlement where
  | acknowledge
  | nack
deriving DecidableEq

/-- Something that a handler does. -/
inductive Action where
  /-- Waits, while others go on. -/
  | pause (length : Span)
  /-- Takes time, while nobody else goes on. -/
  | elapse (length : Span)
  /-- Ends the call with an error. -/
  | fail (reason : String)
  /-- Stops the worker. -/
  | stop
  /-- Sets or clears the worker's cancellation signal. -/
  | signal (cancel : Bool)
  /-- Settles the message on the worker's queue; a refusal is ignored. -/
  | settle (how : Settlement)
  /-- Publishes the message; a refusal is ignored. -/
  | publish (topic : String)
deriving DecidableEq

/-- What is remembered of a handler's calls. -/
inductive Event where
  | began (time : Span) (message : Message)
  | settled (how : Settlement) (refusal : Option BrokerError)
  | published (result : Except BrokerError Nat)
  | ended (time : Span) (failure : Option String)

/-- The behaviour of a consumer. -/
structure Handler where
  /-- The actions of a call, by the number of earlier calls and the message. -/
  plan : Nat → Message → List Action
  /-- The store that guards the handler. -/
  guard : Option StoreRef

namespace Broker

/-- Settles a message of a queue by its handle. -/
def settle (b : Broker) (queue : QueueRef) (handle : Ident) :
    Settlement → Except BrokerError Broker
  | .acknowledge => b.acknowledge queue handle
  | .nack => b.nack queue handle

end Broker

namespace Message

/-- The handle under which the message is settled; without a lease it is blank. -/
def handle (m : Message) : Ident := m.receipt.getD .blank

end Message

end MessageBroker
