import MessageBroker.Ident
import MessageBroker.Time.Span

/-!
# Idempotency stores

A store remembers when each message id was last processed. An id counts as processed for a retention
time after its mark; older entries stay until the next id is marked, and are dropped then.
-/

namespace MessageBroker

/-- The marked ids, each with the clock reading of its latest mark. -/
structure IdempotencyStore where
  retention : Span
  marks : List (Ident × Span)
deriving DecidableEq, Inhabited

/-- A store object, by its place in the order of creation. -/
structure StoreRef where
  index : Nat
deriving DecidableEq, Inhabited

namespace IdempotencyStore

/-- A store without marks. -/
def create (retention : Span) : IdempotencyStore := ⟨retention, []⟩

/-- A mark of one reading still counts at another. -/
def fresh (s : IdempotencyStore) (now marked : Span) : Bool := now.since marked ≤ s.retention

/-- The reading of the latest mark that is held for an id. -/
def mark? (s : IdempotencyStore) (id : Ident) : Option Span :=
  (s.marks.find? fun entry => entry.1 = id).map Prod.snd

/-- The id was marked within the retention time. -/
def isProcessed (s : IdempotencyStore) (id : Ident) (now : Span) : Bool :=
  (s.mark? id).any (s.fresh now)

/-- Drops the entries that no longer count, and marks an id. The clock is read for each entry that is
held and once more for the mark; one reading stands for all of them here, as if no time passed while
the store is locked. -/
def markProcessed (s : IdempotencyStore) (id : Ident) (now : Span) : IdempotencyStore :=
  { s with marks := (id, now) ::
      s.marks.filter fun entry => s.fresh now entry.2 && entry.1 ≠ id }

/-- The number of ids held, those included that no longer count. -/
def size (s : IdempotencyStore) : Nat := s.marks.length

end IdempotencyStore

end MessageBroker
