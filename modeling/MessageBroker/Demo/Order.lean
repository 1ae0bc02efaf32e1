import MessageBroker.Consumer.Script
import MessageBroker.Numeric.Numeral

/-!
# Orders

The demo publishes the creation of orders. An order has a number, and its id is that number behind
`ord-`, with four digits at least; a consumer reads the number back from the id.
-/

namespace MessageBroker.Demo

/-- An order of a customer. -/
structure Order where
  id : String
  customerEmail : String
  totalCents : Int
  status : Int
deriving DecidableEq

/-- The creation of an order. -/
structure OrderCreated where
  eventType : String
  order : Order
deriving DecidableEq

/-! ## JSON form -/

namespace Order

/-- The order as JSON. -/
def toJson (o : Order) : Json := .object [
  ("id", .string o.id),
  ("customer_email", .string o.customerEmail),
  ("total_cents", .integer o.totalCents),
  ("status", .integer o.status)]

/-- What a value must be to be an order. -/
def shape : Json.Shape := .record "Order" [
  ("id", .string),
  ("customer_email", .string),
  ("total_cents", .integer .long),
  ("status", .integer .short)]

/-- The order of a value that has its shape. -/
def ofJson? (j : Json) : Option Order := do
  return {
    id := ← (← j.member? "id").string?
    customerEmail := ← (← j.member? "customer_email").string?
    totalCents := ← (← j.member? "total_cents").integer?
    status := ← (← j.member? "status").integer? }

end Order

namespace OrderCreated

/-- The event as JSON. -/
def toJson (e : OrderCreated) : Json := .object [
  ("event_type", .string e.eventType),
  ("order", e.order.toJson)]

/-- What a value must be to be such an event. -/
def shape : Json.Shape := .record "OrderCreated" [
  ("event_type", .string),
  ("order", Order.shape)]

/-- The event of a value that has its shape. -/
def ofJson? (j : Json) : Option OrderCreated := do
  return {
    eventType := ← (← j.member? "event_type").string?
    order := ← Order.ofJson? (← j.member? "order") }

/-- The event that a message carries. A payload of the right shape always is one. -/
def ofMessage (m : Message) : Except BrokerError OrderCreated :=
  (m.decode shape).bind fun j =>
    match ofJson? j with
    | some e => .ok e
    | none => .error (.decoding ⟨.expectedValue, 1, 0⟩)

end OrderCreated

/-! ## Numbered orders -/

/-- The topic of created orders, which is also the kind of their messages. -/
def orderCreated : String := "order.created"

/-- What order ids begin with. -/
def idMark : List Char := "ord-".toList

/-- The id of the order with a number. -/
def orderId (n : Nat) : String := String.ofList (idMark ++ Decimal.padded 4 n)

/-- Drops the mark from the front of an id, as often as it stands there. -/
def dropMarks : (fuel : Nat) → List Char → List Char
  | 0, s => s
  | fuel + 1, s => if idMark.isPrefixOf s then dropMarks fuel (s.drop idMark.length) else s

/-- The number of an id; zero if it has none that 32 bits hold. -/
def sequenceOf (id : String) : Nat :=
  let s := id.toList
  match Numeral.natural? (dropMarks s.length s) with
  | some n => if n ≤ 4294967295 then n else 0
  | none => 0

/-- The event of the order with a number. -/
def orderEvent (n : Nat) : OrderCreated where
  eventType := orderCreated
  order := {
    id := orderId n
    customerEmail := "customer" ++ String.ofList (Decimal.natural n) ++ "@example.com"
    totalCents := n * 1250
    status := 1 }

end MessageBroker.Demo
