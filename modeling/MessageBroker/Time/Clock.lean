import MessageBroker.Time.Instant

/-!
# The two clocks

A process reads two clocks. The wall clock tells instants and can be set, also back; leases and
times of creation go by it. The monotonic clock tells the time since its start and only runs
forward; deadlines of publications, retention times, pauses and processing times go by it.
-/

namespace MessageBroker

/-- A reading of both clocks. -/
structure Clock where
  wall : Instant
  uptime : Span
deriving DecidableEq, Inhabited

namespace Clock

/-- Sets the wall clock forward, or back, by nanoseconds. -/
def shiftWall (c : Clock) (nanos : Int) : Clock :=
  { c with wall := .clamp (c.wall.nanos + nanos) }

/-- Both clocks after a span of time. -/
def advance (c : Clock) (span : Span) : Clock :=
  ⟨.clamp (c.wall.nanos + span.nanos), c.uptime + span⟩

end Clock

end MessageBroker
