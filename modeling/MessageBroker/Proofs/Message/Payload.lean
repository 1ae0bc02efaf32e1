import MessageBroker.Demo.Order
import MessageBroker.Proofs.Custody.Provenance
import MessageBroker.Proofs.Json.Written

/-!
# Payloads are decoded as they were encoded

A new message carries the text of a value. Decoding gives that value back, unless it is nested
deeper than the reader goes; then decoding fails, and gives no other value (`decode_of_payload`).
Copies have the payload of their message, and so this holds for whatever becomes of a message in a
broker: the copies of a publication, and the dead letters for them, however often they are given up
(`Chronicle.payloads_round_trip`).
-/

namespace MessageBroker

namespace Message

/-- Decoding the message gives the value back; where that is nested deeper than the reader goes,
decoding fails. -/
structure GivesBack (m : Message) (v : Json) : Prop where
  decoded : v.depth ≤ Json.greatestDepth → m.decode .any = .ok v.sorted
  refused : Json.greatestDepth < v.depth → ∃ e, m.decode .any = .error (.decoding e)

/-- A payload that is the text of a value of some shape is decoded as that value. -/
theorem decode_of_payload {m : Message} {shape : Json.Shape} {v : Json} (hv : Json.Fits shape v)
    (hm : m.payload = Json.encode v) :
    (v.depth ≤ Json.greatestDepth → m.decode shape = .ok v.sorted) ∧
    (Json.greatestDepth < v.depth → ∃ e, m.decode shape = .error (.decoding e)) := by
  obtain ⟨hok, herror⟩ := Json.decodeWithin_encode hv Json.greatestDepth
  have hdecode : m.decode shape =
      (Json.decodeWithin Json.greatestDepth shape (Json.encode v)).mapError .decoding := by
    rw [← hm]
    rfl
  constructor
  · intro hle
    rw [hdecode, hok hle]
    rfl
  · intro hlt
    obtain ⟨e, he⟩ := herror hlt
    exact ⟨e, by rw [hdecode, he]; rfl⟩

/-- A payload that is the text of a value of any kind gives that value back. -/
theorem givesBack_of_payload {m : Message} {v : Json} (hv : Json.Fits .any v)
    (hm : m.payload = Json.encode v) : m.GivesBack v :=
  ⟨(decode_of_payload hv hm).1, (decode_of_payload hv hm).2⟩

end Message

/-! ## Orders -/

namespace Demo

/-- The amount and the status of an order are within the bounds of their types. -/
structure Order.Bounded (o : Order) : Prop where
  totalCents : Json.IntegerRange.long.least ≤ o.totalCents ∧
    o.totalCents ≤ Json.IntegerRange.long.greatest
  status : Json.IntegerRange.short.least ≤ o.status ∧ o.status ≤ Json.IntegerRange.short.greatest

/-- An order has the shape of one. -/
theorem Order.fits {o : Order} (h : o.Bounded) : Json.Fits Order.shape o.toJson := by
  have htotal : Json.IsWord o.totalCents :=
    .of_between ⟨by decide, by decide⟩ ⟨by decide, by decide⟩ h.totalCents
  have hstatus : Json.IsWord o.status :=
    .of_between ⟨by decide, by decide⟩ ⟨by decide, by decide⟩ h.status
  exact .of_fields (by decide) (.cons ⟨rfl, .string _⟩ (.cons ⟨rfl, .string _⟩
    (.cons ⟨rfl, .integer htotal h.totalCents⟩ (.cons ⟨rfl, .integer hstatus h.status⟩ .nil))))

/-- The creation of an order has the shape of one. -/
theorem OrderCreated.fits {e : OrderCreated} (h : e.order.Bounded) :
    Json.Fits OrderCreated.shape e.toJson :=
  .of_fields (by decide) (.cons ⟨rfl, .string _⟩ (.cons ⟨rfl, Order.fits h⟩ .nil))

/-- The order is found in the normal form of its JSON. -/
theorem Order.ofJson?_sorted (o : Order) : Order.ofJson? o.toJson.sorted = some o := by
  have hnames : ["id", "customer_email", "total_cents", "status"].Nodup := by decide
  have hmember : ∀ name, o.toJson.sorted.member? name = (Entries.find? name [
      ("id", .string o.id), ("customer_email", .string o.customerEmail),
      ("total_cents", .integer o.totalCents), ("status", .integer o.status)]).map Json.sorted :=
    Json.member?_sorted hnames
  unfold Order.ofJson?
  rw [hmember, hmember, hmember, hmember]
  rfl

/-- The event is found in the normal form of its JSON. -/
theorem OrderCreated.ofJson?_sorted (e : OrderCreated) :
    OrderCreated.ofJson? e.toJson.sorted = some e := by
  have hnames : ["event_type", "order"].Nodup := by decide
  have hmember : ∀ name, e.toJson.sorted.member? name = (Entries.find? name [
      ("event_type", .string e.eventType), ("order", e.order.toJson)]).map Json.sorted :=
    Json.member?_sorted hnames
  have horder : (e.toJson.sorted.member? "order").bind Order.ofJson? = some e.order := by
    rw [hmember]
    exact Order.ofJson?_sorted e.order
  unfold OrderCreated.ofJson?
  rw [hmember "event_type"]
  show (e.toJson.sorted.member? "order").bind (fun j => (Order.ofJson? j).bind _) = _
  rw [← Option.bind_assoc, horder]
  rfl

/-- A payload that is the text of an event is decoded as that event. -/
theorem OrderCreated.ofMessage_of_payload {m : Message} {e : OrderCreated} (h : e.order.Bounded)
    (hm : m.payload = Json.encode e.toJson) : OrderCreated.ofMessage m = .ok e := by
  have hdepth : e.toJson.depth ≤ Json.greatestDepth := by
    show 2 ≤ 127
    decide
  unfold OrderCreated.ofMessage
  rw [(Message.decode_of_payload (OrderCreated.fits h) hm).1 hdepth]
  simp only [Except.bind, OrderCreated.ofJson?_sorted]

end Demo

/-! ## Copies -/

/-- Decoding the copy gives what decoding the message gives, and so the value or the event of which
the payload of the message was made. -/
structure Message.Repeats (copy m : Message) : Prop where
  decode : ∀ shape, copy.decode shape = m.decode shape
  value : ∀ v, Json.Fits .any v → m.payload = Json.encode v → copy.GivesBack v
  event : ∀ e : Demo.OrderCreated, e.order.Bounded → m.payload = Json.encode e.toJson →
    Demo.OrderCreated.ofMessage copy = .ok e

/-- A copy with the same payload repeats the message. -/
theorem Message.repeats_of_payload {copy m : Message} (h : copy.payload = m.payload) :
    copy.Repeats m := by
  refine ⟨fun shape => ?_, fun v hv hm => givesBack_of_payload hv (h.trans hm),
    fun e he hm => Demo.OrderCreated.ofMessage_of_payload he (h.trans hm)⟩
  unfold Message.decode
  rw [h]

namespace Chronicle

open Broker Custody

/-- A message of an item repeats the message from which the item descends. -/
structure Repeated (c : Chronicle) (register : List (Nat × Supply)) (n : Nat) (m : Message) :
    Prop where
  descends : ∃ d, Descends c.broker.rules? register c.journal n d
  repeats : ∀ d, Descends c.broker.rules? register c.journal n d → m.Repeats d.supply.message

/-- In a run, whatever is held is repeated, also under a lease. -/
theorem repeated_of_held {c : Chronicle} (hs : c.Sound) {register : List (Nat × Supply)}
    (h : Kept c.journal register) {q : QueueRef} {n : Nat} {m old : Message}
    (hold : (n, old) ∈ held q c.journal) (hm : m.payload = old.payload) :
    c.Repeated register n m := by
  have htraced := traced_of_held hs h hold
  obtain ⟨d, hd, -⟩ := htraced.unique
  refine ⟨⟨d, hd⟩, fun d' hd' => Message.repeats_of_payload ?_⟩
  exact hm.trans (htraced.described d' hd').payload

/-- A message that is made of a value of any kind is made without fail, and decoding it gives that
value back, its objects in order of name, or fails if the value is nested deeper than the reader
goes. A message that is made of the creation of an order is decoded as that. After any run, every
message that a queue holds, and every message that a `receive` would return, is that of an item
which descends from a message that a caller handed in during the run, and decoding it gives what
decoding that message gives: the value or the event of which it was made. -/
theorem payloads_round_trip {defaults : QueueDefaults} {moves : List Move}
    (hv : (create defaults).Admits moves) {c : Chronicle} (hc : c = (create defaults).run moves)
    {register : List (Nat × Supply)} (hr : register = (create defaults).register moves) :
    (∀ (b : Broker) kind now v, Json.Fits .any v →
      (b.newMessage kind (Json.encode v) now).1.GivesBack v) ∧
    (∀ v : Json, v.Ordered → v.sorted = v) ∧
    (∀ (b : Broker) kind now (e : Demo.OrderCreated), e.order.Bounded →
      Demo.OrderCreated.ofMessage (b.newMessage kind (Json.encode e.toJson) now).1 = .ok e) ∧
    (∀ q, ∀ m ∈ c.broker.contents q, ∃ n, (n, m) ∈ held q c.journal ∧ c.Repeated register n m) ∧
    (∀ q t m b, c.broker.receive q t = (some m, b) →
      ∃ n old, (n, old) ∈ held q c.journal ∧ c.Repeated register n m) ∧
    ∀ n d, Descends c.broker.rules? register c.journal n d →
      ∃ before v after, moves = before ++ v :: after ∧
        v.HandsIn ((create defaults).run before).broker d.supply := by
  have hnew : (create defaults).Reachable := .create defaults
  have hs : c.Sound := hc ▸ (hnew.run hv).sound
  have hkept : Kept c.journal register := by
    have hrun := kept_run hnew .empty hv
    rw [List.append_nil, ← hr, ← hc] at hrun
    exact hrun
  refine ⟨fun b kind now v hfits => Message.givesBack_of_payload hfits rfl,
    fun v hordered => hordered.sorted_eq,
    fun b kind now e he => Demo.OrderCreated.ofMessage_of_payload he rfl, fun q m hm => ?_,
    fun q t m b hb => ?_, fun n d hd => handsIn_of_mem_register (hr ▸ hd.mem_register)⟩
  · rw [hs.replay q] at hm
    obtain ⟨⟨n, m'⟩, hheld, rfl⟩ := List.mem_map.mp hm
    exact ⟨n, hheld, repeated_of_held hs hkept hheld rfl⟩
  · -- What is returned has the payload of what the queue holds.
    rcases hs.toRecords.receive q t with hn | ⟨n, m', b', hb', hf, -⟩
    · rw [hn] at hb
      cases hb
    · rw [hb'] at hb
      cases hb
      obtain ⟨r, old, hd, hold, -, -, rfl, -⟩ := hf.leased
      exact ⟨n, old, hold, repeated_of_held hs hkept hold rfl⟩

/-- A value with the least and the greatest of the integers, and with escaped characters. -/
def invoice : Json := .object [
  ("lines", .array [.integer (-9223372036854775808), .natural 18446744073709551615, .null]),
  ("note", .string "paid \"late\"\n\t\\"),
  ("sender", .object [("known", .boolean true)])]

/-- A message that carries it. -/
def invoiceSent : Message := Message.create (.text "m") "invoice" (Json.encode invoice) .first

/-- A run in which the message is published, and its copy is given up. -/
def invoiceGivenUp : List Move :=
  [.call (.createQueue "dead" {}),
    .call (.createQueue "work" { maxRetries := some 1, deadLetters := some ⟨0⟩ }),
    .call (.createTopic "invoices"),
    .call (.subscribe "invoices" "work"),
    .call (.publish "invoices" invoiceSent none fun _ => .zero),
    .call (.receive ⟨1⟩ .first),
    .call (.nack ⟨1⟩ (.generated 2))]

/-- The reader takes the value. -/
theorem fits_invoice : Json.Fits .any invoice := by
  refine .object ?_
  simp only [List.forall_mem_cons, List.not_mem_nil, false_implies, implies_true, and_true]
  refine ⟨.array ?_, .text _, .object ?_⟩
  · simp only [List.forall_mem_cons, List.not_mem_nil, false_implies, implies_true, and_true]
    exact ⟨.number ⟨by decide, by decide⟩, .number ⟨by decide, by decide⟩, .null⟩
  · simp only [List.forall_mem_cons, List.not_mem_nil, false_implies, implies_true, and_true]
    exact .boolean true

/-- The dead letter of the copy is decoded as the value of which the message was made. -/
theorem payloads_round_trip_invoiceGivenUp :
    ∃ m, ((create .standard).run invoiceGivenUp).broker.contents ⟨0⟩ = [m] ∧
      m.decode .any = .ok invoice := by
  have hv : (create .standard).Admits invoiceGivenUp := by decide
  obtain ⟨-, -, -, hheld, -, -⟩ := payloads_round_trip hv rfl rfl
  have hregister : (create .standard).register invoiceGivenUp =
      [(0, .published "invoices" invoiceSent (.generated 1))] := by decide
  have hone : (((create .standard).run invoiceGivenUp).broker.contents ⟨0⟩).length = 1 := by decide
  obtain ⟨m, hm⟩ := List.length_eq_one_iff.mp hone
  obtain ⟨n, -, ⟨d, hd⟩, hrepeats⟩ := hheld ⟨0⟩ m (by rw [hm]; exact List.mem_singleton_self m)
  have hsupply := hd.mem_register
  rw [hregister] at hsupply
  have hroot := (Prod.mk.inj (List.mem_singleton.mp hsupply)).2
  have hpayload : d.supply.message.payload = Json.encode invoice := by
    rw [hroot]
    rfl
  have hback := (hrepeats d hd).value invoice fits_invoice hpayload
  exact ⟨m, hm, hback.decoded (by decide)⟩

end Chronicle

end MessageBroker
