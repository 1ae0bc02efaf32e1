import MessageBroker.Consumer.Handler
import MessageBroker.Json.Shape

/-!
# Scripted handlers

A script lists what a handler does, call by call. Some of its lines depend on the message: failing
while it has been leased less often than a given number of times, and failing when its payload has
not a given shape.
-/

namespace MessageBroker

/-- The payload, read as a value of a shape. -/
def Message.decode (m : Message) (shape : Json.Shape) : Except BrokerError Json :=
  (Json.decode shape m.payload).mapError .decoding

/-- A line of a script. -/
inductive ScriptLine where
  | act (action : Action)
  | failBelow (leases : Nat)
  | decode (shape : Json.Shape)

namespace ScriptLine

/-- The actions of a line for a message. -/
def actions (m : Message) : ScriptLine → List Action
  | .act action => [action]
  | .failBelow leases =>
    if m.retryCount < leases then
      [.fail ("attempt " ++ String.ofList (Decimal.natural m.retryCount))]
    else []
  | .decode shape =>
    match m.decode shape with
    | .ok _ => []
    | .error e => [.fail (e.message fun _ => "")]

end ScriptLine

/-- A script: the lines of the first calls, and those of all later ones. -/
structure Script where
  calls : List (List ScriptLine)
  later : List ScriptLine

/-- The actions of the call after `n` others. -/
def Script.plan (s : Script) (n : Nat) (m : Message) : List Action :=
  (s.calls[n]?.getD s.later).flatMap (·.actions m)

end MessageBroker
