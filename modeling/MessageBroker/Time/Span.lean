/-!
# Spans of time

A `Span` is a length of time in whole nanoseconds. Readings of the monotonic clock are spans too:
the time since that clock started. Differences stop at zero, since a monotonic clock never runs
backwards.
-/

namespace MessageBroker

/-- A length of time in nanoseconds. -/
structure Span where
  nanos : Nat
deriving DecidableEq, Inhabited, Repr

namespace Span

/-- A number of milliseconds. -/
def ofMillis (n : Nat) : Span := ⟨n * 1000000⟩

/-- A number of seconds. -/
def ofSeconds (n : Nat) : Span := ⟨n * 1000000000⟩

/-- The empty span. -/
def zero : Span := ⟨0⟩

/-- Whole milliseconds, rounded down. -/
def millis (s : Span) : Nat := s.nanos / 1000000

/-- Whole seconds, rounded down. -/
def seconds (s : Span) : Nat := s.nanos / 1000000000

/-- Nanoseconds beyond the whole seconds. -/
def subsecond (s : Span) : Nat := s.nanos % 1000000000

instance : Add Span := ⟨fun a b => ⟨a.nanos + b.nanos⟩⟩

instance : LE Span := ⟨fun a b => a.nanos ≤ b.nanos⟩

instance : LT Span := ⟨fun a b => a.nanos < b.nanos⟩

instance (a b : Span) : Decidable (a ≤ b) := inferInstanceAs (Decidable (a.nanos ≤ b.nanos))

instance (a b : Span) : Decidable (a < b) := inferInstanceAs (Decidable (a.nanos < b.nanos))

/-- The time from an earlier clock reading to a later one. -/
def since (later earlier : Span) : Span := ⟨later.nanos - earlier.nanos⟩

theorem nanos_add (a b : Span) : (a + b).nanos = a.nanos + b.nanos := rfl

theorem le_iff (a b : Span) : a ≤ b ↔ a.nanos ≤ b.nanos := Iff.rfl

theorem lt_iff (a b : Span) : a < b ↔ a.nanos < b.nanos := Iff.rfl

end Span

end MessageBroker
