import MessageBroker.Time.Instant

/-!
# The end of a lease saturates

The end of a lease is the instant a span after its beginning, or the largest instant if the time
line ends before. Two checks stand behind that: a span must not be longer than `Instant.reach`, and
the sum must lie on the time line. The time line is shorter than the reach, so the first check
refuses nothing that the second would take, and together they amount to one minimum
(`Instant.deadline_saturates`).

An instant inside a leap second is not told by its nanoseconds, which are those of the second that
follows. Outside leap seconds the order of instants is that of their nanoseconds
(`Instant.le_iff_nanos_le`).
-/

namespace MessageBroker.Instant

/-! ## Instants by their nanoseconds -/

/-- Outside leap seconds, instants are ordered as their nanoseconds. -/
theorem le_iff_nanos_le {a b : Instant} (ha : ¬ a.InLeapSecond) (hb : ¬ b.InLeapSecond) :
    a ≤ b ↔ a.nanos ≤ b.nanos := by
  unfold InLeapSecond perSecond at ha hb
  rw [le_def]
  unfold nanos
  omega

/-- Likewise for the strict order. -/
theorem lt_iff_nanos_lt {a b : Instant} (ha : ¬ a.InLeapSecond) (hb : ¬ b.InLeapSecond) :
    a < b ↔ a.nanos < b.nanos := by
  rw [lt_iff_not_le, le_iff_nanos_le hb ha]
  omega

/-- Outside leap seconds, instants with the same nanoseconds are the same. -/
theorem eq_of_nanos_eq {a b : Instant} (ha : ¬ a.InLeapSecond) (hb : ¬ b.InLeapSecond)
    (h : a.nanos = b.nanos) : a = b := by
  unfold InLeapSecond perSecond at ha hb
  unfold nanos at h
  have hseconds : a.seconds = b.seconds := by omega
  have hfraction : a.fraction = b.fraction := by omega
  cases a
  cases b
  cases hseconds
  cases hfraction
  rfl

/-- The first instant in nanoseconds. -/
theorem nanos_first : first.nanos = -8334601228800000000000 := by decide

/-- The largest instant in nanoseconds. -/
theorem nanos_last : last.nanos = 8210266876799999999999 := by decide

/-- No instant outside leap seconds is before the first one, or behind the largest one. -/
theorem nanos_bounds {t : Instant} (h : ¬ t.InLeapSecond) :
    first.nanos ≤ t.nanos ∧ t.nanos ≤ last.nanos := by
  have hfirst := t.first_le
  have hlast := t.le_last
  unfold InLeapSecond perSecond at h
  rw [nanos_first, nanos_last]
  unfold nanos
  omega

/-- The instant of a number of nanoseconds, where the time line holds one. -/
theorem ofNanos?_eq_some {n : Int} (hfirst : first.nanos ≤ n) (hlast : n ≤ last.nanos) :
    ∃ t, ofNanos? n = some t ∧ t.nanos = n ∧ ¬ t.InLeapSecond := by
  rw [nanos_first] at hfirst
  rw [nanos_last] at hlast
  have hbounds : -8334601228800 ≤ n / 1000000000 ∧ n / 1000000000 ≤ 8210266876799 := by omega
  have hfraction : (n % 1000000000).toNat < 1000000000 := by omega
  have hparts : (-8334601228800 ≤ n / 1000000000 ∧ n / 1000000000 ≤ 8210266876799) ∧
      (n % 1000000000).toNat < 2000000000 := ⟨hbounds, by omega⟩
  unfold ofNanos? ofParts?
  rw [dif_pos hparts]
  refine ⟨_, rfl, ?_, ?_⟩
  · show n / 1000000000 * 1000000000 + ((n % 1000000000).toNat : Int) = n
    omega
  · exact Nat.not_le.mpr hfraction

/-- Behind the end of the time line there is no instant. -/
theorem ofNanos?_eq_none {n : Int} (h : last.nanos < n) : ofNanos? n = none := by
  rw [nanos_last] at h
  have hout : ¬ n / 1000000000 ≤ 8210266876799 := by omega
  unfold ofNanos? ofParts?
  exact dif_neg fun hparts => hout hparts.1.2

/-! ## Sums that are out of reach -/

variable {t : Instant} (ht : ¬ t.InLeapSecond) (s : Span)
include ht

/-- The time line is shorter than the reach: a span beyond it ends behind the largest instant. -/
theorem last_lt_of_reach_lt (h : reach < s.nanos) : last.nanos < t.nanos + s.nanos := by
  have hfirst := (nanos_bounds ht).1
  have hline : last.nanos - first.nanos < reach := by decide
  omega

/-- A sum that is not behind the largest instant is found. -/
theorem later?_eq_some (h : t.nanos + s.nanos ≤ last.nanos) :
    ∃ u, t.later? s = some u ∧ u.nanos = t.nanos + s.nanos ∧ ¬ u.InLeapSecond := by
  have hfirst := (nanos_bounds ht).1
  have hreach : s.nanos ≤ reach := Nat.le_of_not_lt fun hlong =>
    absurd (last_lt_of_reach_lt ht s hlong) (Int.not_lt.mpr h)
  unfold later?
  rw [if_pos hreach]
  exact ofNanos?_eq_some (by omega) h

/-- The sum is out of reach exactly if it is behind the largest instant. -/
theorem later?_eq_none_iff : t.later? s = none ↔ last.nanos < t.nanos + s.nanos := by
  constructor
  · intro h
    refine Int.not_le.mp fun hin => ?_
    obtain ⟨u, hu, -⟩ := later?_eq_some ht s hin
    rw [hu] at h
    cases h
  · intro h
    unfold later?
    split
    · exact ofNanos?_eq_none h
    · rfl

/-! ## The end of a lease -/

/-- The end of a lease in nanoseconds, which lies in no leap second. -/
theorem nanos_deadline :
    (t.deadline s).nanos = min (t.nanos + s.nanos) last.nanos ∧ ¬ (t.deadline s).InLeapSecond := by
  unfold deadline
  by_cases h : t.nanos + s.nanos ≤ last.nanos
  · obtain ⟨u, hu, hnanos, hleap⟩ := later?_eq_some ht s h
    rw [hu, Option.getD_some, hnanos, Int.min_eq_left h]
    exact ⟨rfl, hleap⟩
  · have hlt := Int.not_le.mp h
    rw [(later?_eq_none_iff ht s).mpr hlt, Option.getD_none, Int.min_eq_right (Int.le_of_lt hlt)]
    exact ⟨rfl, by decide⟩

/-- The end of a lease is the exact sum of its beginning and its length, or the largest instant if
that is earlier. A span that is longer than the reach, and a sum that is not on the time line, are
both ones that end behind the largest instant. So a lease never ends before it begins, ends later if
it has a length and the time line goes on, and ends no earlier if it begins later or is longer. -/
theorem deadline_saturates :
    ((t.deadline s).nanos = min (t.nanos + s.nanos) last.nanos ∧
      ¬ (t.deadline s).InLeapSecond) ∧
    (reach < s.nanos → last.nanos < t.nanos + s.nanos) ∧
    (ofNanos? (t.nanos + s.nanos) = none ↔ last.nanos < t.nanos + s.nanos) ∧
    (t.later? s = none ↔ last.nanos < t.nanos + s.nanos) ∧
    t ≤ t.deadline s ∧
    (Span.zero < s → t ≠ last → t < t.deadline s) ∧
    ∀ t' : Instant, ¬ t'.InLeapSecond → ∀ s' : Span, t ≤ t' → s ≤ s' →
      t.deadline s ≤ t'.deadline s' := by
  obtain ⟨hnanos, hleap⟩ := nanos_deadline ht s
  obtain ⟨hfirst, hlast⟩ := nanos_bounds ht
  have hend : ¬ last.InLeapSecond := by decide
  refine ⟨⟨hnanos, hleap⟩, last_lt_of_reach_lt ht s, ?_, later?_eq_none_iff ht s, ?_, ?_, ?_⟩
  · refine ⟨fun h => ?_, ofNanos?_eq_none⟩
    refine Int.not_le.mp fun hin => ?_
    obtain ⟨u, hu, -⟩ := ofNanos?_eq_some (by omega : first.nanos ≤ t.nanos + s.nanos) hin
    rw [hu] at h
    cases h
  · rw [le_iff_nanos_le ht hleap, hnanos]
    omega
  · intro hpos hne
    have hbelow : t.nanos ≠ last.nanos := fun h => hne (eq_of_nanos_eq ht hend h)
    have hlength : 0 < s.nanos := hpos
    rw [lt_iff_nanos_lt ht hleap, hnanos]
    omega
  · intro t' ht' s' hbegin hlength
    obtain ⟨hnanos', hleap'⟩ := nanos_deadline ht' s'
    have hle := (le_iff_nanos_le ht ht').mp hbegin
    have hspan : s.nanos ≤ s'.nanos := hlength
    rw [le_iff_nanos_le hleap hleap', hnanos, hnanos']
    omega

/-- The last millisecond of the time line. -/
def lastMilli : Instant :=
  { last with fraction := 999000000, fraction_lt := by decide }

omit ht in
/-- A lease of a millisecond from there would end one nanosecond behind the largest instant, and one
of all the milliseconds within the reach, or of more, ends there too. -/
theorem deadline_saturates_lastMilli :
    (lastMilli.deadline (.ofMillis 1)).nanos = last.nanos ∧
    lastMilli < lastMilli.deadline ⟨1⟩ ∧
    lastMilli.later? ⟨reach⟩ = none ∧
    lastMilli.deadline (.ofMillis 1) ≤ last.deadline ⟨reach + 1⟩ := by
  have hleap : ¬ lastMilli.InLeapSecond := by decide
  obtain ⟨⟨hnanos, -⟩, -, -, -, -, -, hmono⟩ := deadline_saturates hleap (.ofMillis 1)
  obtain ⟨-, -, -, -, -, hlater, -⟩ := deadline_saturates hleap ⟨1⟩
  obtain ⟨-, -, -, hnone, -⟩ := deadline_saturates hleap ⟨reach⟩
  refine ⟨hnanos.trans (by decide), hlater (by decide) (by decide), hnone.mpr (by decide), ?_⟩
  exact hmono last (by decide) ⟨reach + 1⟩ (by decide) (by decide)

end MessageBroker.Instant
