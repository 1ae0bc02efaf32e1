import MessageBroker.Time.Span
import MessageBroker.Time.Calendar

/-!
# Instants of the wall clock

An `Instant` is a second counted from 1970-01-01T00:00:00Z and a fraction of it in nanoseconds. A
fraction of a full second or more lies in a leap second behind that second. The calendar has leap
seconds behind second 59 of a minute only, but an instant may have one behind any second. Instants
reach from the first day of the year -262143 to the last nanosecond of the year 262142.

Main definitions: `Instant.later?` adds a span if the calendar reaches that far, and
`Instant.deadline` is the end of a lease, which stays at the largest instant when the sum is out of
reach.
-/

namespace MessageBroker

/-- A point of the wall clock's time line. -/
structure Instant where
  seconds : Int
  fraction : Nat
  first_le : -8334601228800 ≤ seconds
  le_last : seconds ≤ 8210266876799
  fraction_lt : fraction < 2000000000
deriving DecidableEq

namespace Instant

/-- Nanoseconds in a second. -/
def perSecond : Nat := 1000000000

/-- The instant of a second and a fraction, if the time line holds it. -/
def ofParts? (seconds : Int) (fraction : Nat) : Option Instant :=
  if h : (-8334601228800 ≤ seconds ∧ seconds ≤ 8210266876799) ∧ fraction < 2000000000 then
    some ⟨seconds, fraction, h.1.1, h.1.2, h.2⟩
  else none

/-- The first instant, at the start of the year -262143. -/
def first : Instant := ⟨-8334601228800, 0, by decide, by decide, by decide⟩

/-- The largest instant, the last nanosecond of the year 262142. -/
def last : Instant := ⟨8210266876799, 999999999, by decide, by decide, by decide⟩

instance : Inhabited Instant := ⟨first⟩

/-- The instant lies inside a leap second. -/
def InLeapSecond (t : Instant) : Prop := perSecond ≤ t.fraction

instance (t : Instant) : Decidable t.InLeapSecond := inferInstanceAs (Decidable (_ ≤ _))

/-- Nanoseconds from 1970-01-01T00:00:00Z, leap seconds not counted. -/
def nanos (t : Instant) : Int := t.seconds * 1000000000 + t.fraction

/-- The instant a number of nanoseconds after 1970-01-01T00:00:00Z. -/
def ofNanos? (n : Int) : Option Instant :=
  ofParts? (n / 1000000000) (n % 1000000000).toNat

/-- The instant so many nanoseconds after 1970, or the nearer end of the time line. -/
def clamp (n : Int) : Instant :=
  (ofNanos? n).getD (if n < 0 then first else last)

/-! ## Order -/

instance : LE Instant :=
  ⟨fun a b => a.seconds < b.seconds ∨ (a.seconds = b.seconds ∧ a.fraction ≤ b.fraction)⟩

instance : LT Instant :=
  ⟨fun a b => a.seconds < b.seconds ∨ (a.seconds = b.seconds ∧ a.fraction < b.fraction)⟩

instance (a b : Instant) : Decidable (a ≤ b) := inferInstanceAs (Decidable (_ ∨ _))

instance (a b : Instant) : Decidable (a < b) := inferInstanceAs (Decidable (_ ∨ _))

theorem le_def (a b : Instant) : a ≤ b ↔
    a.seconds < b.seconds ∨ (a.seconds = b.seconds ∧ a.fraction ≤ b.fraction) := Iff.rfl

theorem lt_def (a b : Instant) : a < b ↔
    a.seconds < b.seconds ∨ (a.seconds = b.seconds ∧ a.fraction < b.fraction) := Iff.rfl

/-- An instant precedes another exactly if the other is not at or before it. -/
theorem lt_iff_not_le (a b : Instant) : a < b ↔ ¬ b ≤ a := by
  simp only [le_def, lt_def]
  omega

/-! ## Sums -/

/-- The longest span that can be added to an instant: `2^63 - 1` milliseconds. -/
def reach : Nat := 9223372036854775807 * 1000000

/-- The instant a span later: none if the span is out of reach or the time line ends before. -/
def later? (t : Instant) (s : Span) : Option Instant :=
  if s.nanos ≤ reach then ofNanos? (t.nanos + s.nanos) else none

/-- The end of a lease of the given length: the largest instant if the sum is out of reach. -/
def deadline (t : Instant) (timeout : Span) : Instant := (t.later? timeout).getD last

/-! ## Differences -/

/-- The second of its day. -/
def secondOfDay (t : Instant) : Int := t.seconds % 86400

/-- Nanoseconds from one instant to another. The leap second of the earlier time of day counts as a
second that has passed. -/
def nanosSince (later earlier : Instant) : Int :=
  let passed : Int :=
    if earlier.secondOfDay < later.secondOfDay then
      if earlier.InLeapSecond then 1 else 0
    else if later.secondOfDay < earlier.secondOfDay then
      if later.InLeapSecond then -1 else 0
    else 0
  (later.seconds - earlier.seconds + passed) * 1000000000 +
    ((later.fraction : Int) - (earlier.fraction : Int))

end Instant

end MessageBroker
