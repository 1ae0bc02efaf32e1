import MessageBroker.Message
import MessageBroker.Json.Shape
import MessageBroker.Json.Writer

/-!
# Serialised messages

An `Envelope` is the part of a message that is written as JSON: everything but the lease, which
belongs to the queue that holds the message. A message read back is therefore visible and unleased.
-/

namespace MessageBroker

/-- The serialised part of a message. -/
structure Envelope where
  id : String
  kind : String
  payload : List UInt8
  metadata : NameTable String
  createdAt : Instant
  retryCount : Nat
deriving DecidableEq

namespace Envelope

/-- The JSON form, its members in the order in which they are written. -/
def toJson (e : Envelope) : Json := .object [
  ("id", .string e.id),
  ("type", .string e.kind),
  ("payload", .array (e.payload.map fun byte => .natural byte.toNat)),
  ("metadata", .ofTable .string e.metadata),
  ("timestamp", .string e.createdAt.toText),
  ("retry_count", .natural e.retryCount)]

/-- The JSON text. -/
def toText (e : Envelope) : String := e.toJson.toText

/-- What a text must be to hold a message. -/
def shape : Json.Shape := .record "Message" [
  ("id", .string),
  ("type", .string),
  ("payload", .list (.integer .byte)),
  ("metadata", .map .string),
  ("timestamp", .timestamp),
  ("retry_count", .integer .count)]

/-- The bytes of a list of small integers. -/
def bytes? (items : List Json) : Option (List UInt8) :=
  items.mapM fun item => item.natural?.map UInt8.ofNat

/-- The table of an object's texts. -/
def texts? (members : List (String × Json)) : Option (NameTable String) :=
  let text? (member : String × Json) := member.2.string?.map (Prod.mk member.1)
  (members.mapM text?).map NameTable.ofList

/-- The envelope of a value that has its shape. -/
def ofJson? (j : Json) : Option Envelope := do
  return {
    id := ← (← j.member? "id").string?
    kind := ← (← j.member? "type").string?
    payload := ← bytes? (← (← j.member? "payload").items?)
    metadata := ← texts? (← (← j.member? "metadata").members?)
    createdAt := ← (Instant.ofText (← (← j.member? "timestamp").string?)).toOption
    retryCount := ← (← j.member? "retry_count").natural? }

/-- Reads an envelope. A value of the right shape always is one. -/
def ofText (text : String) : Except Json.ReadError Envelope :=
  (Json.decode shape (Utf8.ofString text)).bind fun j =>
    match ofJson? j with
    | some e => .ok e
    | none => .error ⟨.expectedValue, 1, 0⟩

end Envelope

namespace Message

/-- The serialised part, given the texts of generated identifiers. -/
def envelope (m : Message) (spell : Nat → String) : Envelope where
  id := m.id.spelled spell
  kind := m.kind
  payload := m.payload
  metadata := .ofList (m.metadata.entries.map fun entry => (entry.1, entry.2.spelled spell))
  createdAt := m.createdAt
  retryCount := m.retryCount

/-- The message of an envelope, visible and unleased. -/
def ofEnvelope (e : Envelope) : Message where
  id := .text e.id
  kind := e.kind
  payload := e.payload
  metadata := .ofList (e.metadata.entries.map fun entry => (entry.1, .text entry.2))
  createdAt := e.createdAt
  retryCount := e.retryCount
  hiddenUntil := none
  receipt := none

end Message

end MessageBroker
