import MessageBroker.Consumer.Fleet

/-!
# Guarded calls

A guarded handler can be called without a worker. The call is skipped, and succeeds, if the store
still counts the message as processed; otherwise the handler acts, and a success is marked. There is
no worker to act on and no queue to settle on, so such actions do nothing.
-/

namespace MessageBroker.Fleet

/-- Takes the actions of a call in turn: the fleet afterwards, what was done, and the error. -/
def act (m : Message) : List Action → Fleet → Fleet × List Event × Option String
  | [], f => (f, [.ended f.clock.uptime none], none)
  | .fail reason :: _, f => (f, [.ended f.clock.uptime (some reason)], some reason)
  | .pause length :: rest, f | .elapse length :: rest, f =>
    act m rest (f.elapse length)
  | .publish topic :: rest, f =>
    let (f, event) := f.publish topic m
    let (f, events, failure) := act m rest f
    (f, event :: events, failure)
  | .stop :: rest, f | .signal _ :: rest, f | .settle _ :: rest, f => act m rest f

/-- Calls a guarded handler: the fleet afterwards, what was done, and the error. Nothing is done if
the call was skipped. -/
def handleGuarded (f : Fleet) (store : StoreRef) (actions : List Action) (m : Message) :
    Fleet × List Event × Option String :=
  if f.isProcessed store m.id then (f, [], none)
  else
    let start : Event := .began f.clock.uptime m
    let (f, events, failure) := act m actions f
    let f := if failure.isNone then f.markProcessed store m.id else f
    (f, start :: events, failure)

end MessageBroker.Fleet
