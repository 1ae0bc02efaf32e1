import MessageBroker.Ident
import MessageBroker.NameTable
import MessageBroker.Time.Instant

/-!
# Messages

A `Message` is the envelope that travels through topics and queues. Its type, payload and time of
creation never change. Its lease, the instant until which it is hidden and the receipt handle of the
consumer that holds it, belongs to the queue that keeps the message. A fork is a copy with an
identity of its own and without a lease.

The count of leases has 32 bits: after the greatest count it starts again from zero.
-/

namespace MessageBroker

/-- A message with its delivery state. -/
structure Message where
  id : Ident
  kind : String
  payload : List UInt8
  metadata : NameTable Ident
  createdAt : Instant
  /-- The number of times the message has been leased. -/
  retryCount : Nat
  /-- The end of the lease; without one the message is visible. -/
  hiddenUntil : Option Instant
  /-- The handle of the current lease. -/
  receipt : Option Ident
deriving DecidableEq, Inhabited

namespace Message

/-- A new message: no metadata, never leased. -/
def create (id : Ident) (kind : String) (payload : List UInt8) (now : Instant) : Message :=
  { id, kind, payload, metadata := .empty, createdAt := now, retryCount := 0,
    hiddenUntil := none, receipt := none }

/-- Sets a metadata entry, replacing an earlier one. -/
def setMetadata (m : Message) (key : String) (value : Ident) : Message :=
  { m with metadata := m.metadata.insert key value }

/-- A metadata entry; a missing one reads as the empty text. -/
def getMetadata (m : Message) (key : String) : Ident := (m.metadata.find? key).getD .blank

/-- A copy under a new id, never leased. -/
def fork (m : Message) (id : Ident) : Message :=
  { m with id, retryCount := 0, hiddenUntil := none, receipt := none }

/-- No lease hides the message at that instant. -/
def VisibleAt (m : Message) (now : Instant) : Prop := ∀ deadline ∈ m.hiddenUntil, deadline ≤ now

instance (m : Message) (now : Instant) : Decidable (m.VisibleAt now) :=
  match h : m.hiddenUntil with
  | none => .isTrue (by simp [VisibleAt, h])
  | some deadline =>
    if le : deadline ≤ now then .isTrue (by simpa [VisibleAt, h] using le)
    else .isFalse (by simpa [VisibleAt, h] using le)

/-- The greatest count of leases. -/
def greatestCount : Nat := 4294967295

/-- The count after one more lease, which wraps around. -/
def nextCount (m : Message) : Nat := (m.retryCount + 1) % (greatestCount + 1)

/-- The message under a new lease. -/
def leased (m : Message) (handle : Ident) (deadline : Instant) : Message :=
  { m with hiddenUntil := some deadline, receipt := some handle, retryCount := m.nextCount }

/-- The message without its lease; the leases still count. -/
def released (m : Message) : Message := { m with hiddenUntil := none, receipt := none }

/-- Nanoseconds since the message was created, negative for a time of creation that is to come. -/
def age (m : Message) (now : Instant) : Int := now.nanosSince m.createdAt

end Message

end MessageBroker
