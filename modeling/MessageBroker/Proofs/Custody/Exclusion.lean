import MessageBroker.Proofs.Custody.Sound

/-!
# Leases exclude each other

A consumer that receives reads the wall clock first and scans the queue later, under its lock, with
the reading it took. In between, others may read, lease, release and settle, and the clock may have
gone on, or back. A `Timeline` is a chronicle with the clock and the readings that are still to be
used; `Timeline.Step` lets the clock move by any relation `drift`, and everything else happen in any
order.

Whatever the clock does, a message is leased again only after it was released under the handle of
the lease before, or with a reading that has reached the end of that lease
(`Timeline.lease_exclusion`). If the clock never goes back, the end of that lease has also passed
on the clock, since no reading is ahead of it (`Timeline.Run.reading_le_clock`).
-/

namespace MessageBroker

/-- The order of instants is transitive. -/
theorem Instant.le_trans {a b c : Instant} (hab : a ≤ b) (hbc : b ≤ c) : a ≤ c := by
  simp only [Instant.le_def] at *
  omega

/-- The order of instants is reflexive. -/
theorem Instant.le_refl (a : Instant) : a ≤ a := .inr ⟨rfl, Nat.le_refl _⟩

/-- A broker with its journal, the wall clock, and the readings of it that consumers have taken and
not yet used. -/
structure Timeline where
  chronicle : Chronicle
  clock : Instant
  readings : List Instant

namespace Timeline

open Custody

/-- The first half of a receive: a consumer reads the clock. -/
def look (s : Timeline) : Timeline := { s with readings := s.clock :: s.readings }

/-- The second half of a receive: the consumer that took that reading scans a queue. -/
def scan (s : Timeline) (q : QueueRef) (t : Instant) : Timeline :=
  { s with
    chronicle := s.chronicle.apply (.call (.receive q t))
    readings := s.readings.erase t }

/-- What can happen next, with a clock that moves as `drift` allows. -/
inductive Step (drift : Instant → Instant → Prop) : Timeline → Timeline → Prop
  | pass {s : Timeline} {t : Instant} : drift s.clock t → Step drift s { s with clock := t }
  | look {s : Timeline} : Step drift s s.look
  | scan {s : Timeline} {q : QueueRef} {t : Instant} : s.chronicle.broker.HasQueue q →
    t ∈ s.readings → Step drift s (s.scan q t)
  /-- Any move that is not a receive. -/
  | move {s : Timeline} {v : Chronicle.Move} : v.Valid s.chronicle.broker →
    (∀ q t, v ≠ .call (.receive q t)) →
    Step drift s { s with chronicle := s.chronicle.apply v }

/-- The states that runs from a new broker lead to. -/
inductive Run (drift : Instant → Instant → Prop) : Timeline → Prop
  | create (defaults : QueueDefaults) (t : Instant) : Run drift ⟨.create defaults, t, []⟩
  | step {s s' : Timeline} : Run drift s → Step drift s s' → Run drift s'

/-- The consumers make moves like all others. -/
theorem Run.reachable {drift : Instant → Instant → Prop} {s : Timeline} (h : s.Run drift) :
    s.chronicle.Reachable := by
  induction h with
  | create defaults t => exact .create defaults
  | @step s _ _ hstep ih =>
    cases hstep with
    | pass _ => exact ih
    | look => exact ih
    | @scan q t hq _ =>
      have hv : Chronicle.Move.Valid s.chronicle.broker (.call (.receive q t)) := by
        refine ⟨fun ref hr => ?_, fun ref hr => absurd hr List.not_mem_nil⟩
        rw [List.mem_singleton.mp hr]
        exact hq
      exact ih.apply hv
    | move hv _ => exact ih.apply hv

/-- If the clock never goes back, no reading is ahead of it. -/
theorem Run.reading_le_clock {drift : Instant → Instant → Prop} {s : Timeline} (h : s.Run drift)
    (hdrift : ∀ a b, drift a b → a ≤ b) : ∀ t ∈ s.readings, t ≤ s.clock := by
  induction h with
  | create defaults t =>
    intro r hr
    exact absurd hr List.not_mem_nil
  | step _ hstep ih =>
    intro r hr
    cases hstep with
    | pass hd => exact Instant.le_trans (ih r hr) (hdrift _ _ hd)
    | look =>
      rcases List.mem_cons.mp hr with rfl | hr
      · exact Instant.le_refl _
      · exact ih r hr
    | scan _ _ => exact ih r (List.mem_of_mem_erase hr)
    | move _ _ => exact ih r hr

/-- If a scan leases an item again, then since its last lease, which ends a visibility timeout
after the reading of that lease, either it was released under the handle of that lease, or the
reading of the scan has reached that end; and with a clock that never goes back, the clock has
reached it too. -/
theorem lease_exclusion {drift : Instant → Instant → Prop} {s : Timeline} (hs : s.Run drift)
    {q : QueueRef} {t : Instant} (ht : t ∈ s.readings) {n : Nat} {m : Message}
    (hscan : (s.scan q t).chronicle.journal = .leased n q t m :: s.chronicle.journal)
    {between earlier : List Entry} {t₁ : Instant} {m₁ : Message}
    (hj : s.chronicle.journal = between ++ .leased n q t₁ m₁ :: earlier)
    (hlast : ∀ e ∈ between, ¬ e.Leases n q) :
    ∃ r, s.chronicle.broker.rules? q = some r ∧
      m₁.hiddenUntil = some (t₁.deadline r.visibilityTimeout) ∧
      ((∃ h m', m₁.receipt = some h ∧ .settled n q h .released m' ∈ between) ∨
        t₁.deadline r.visibilityTimeout ≤ t ∧
          ((∀ a b, drift a b → a ≤ b) → t₁.deadline r.visibilityTimeout ≤ s.clock)) := by
  have hsound := hs.reachable.sound
  have hlaw := hsound.lawful
  rw [hj] at hlaw
  obtain ⟨r, first, h₁, -, -, hr, hm₁, -⟩ := hlaw.follows.leased
  have hhidden : m₁.hiddenUntil = some (t₁.deadline r.visibilityTimeout) := by
    rw [hm₁]
    rfl
  refine ⟨r, hr, hhidden, ?_⟩
  -- The item as the scan finds it.
  obtain ⟨old, hheld, hvisible⟩ : ∃ old, (n, old) ∈ held q s.chronicle.journal ∧
      old.VisibleAt t := by
    rcases Chronicle.receive_cases hsound q t with hn | ⟨n', m', b', hc, -, hf, -⟩
    · -- A scan that finds nothing notes nothing.
      have hlen := congrArg List.length hscan
      rw [show (s.scan q t).chronicle = s.chronicle from hn, List.length_cons] at hlen
      omega
    · have hcons := hscan
      rw [show (s.scan q t).chronicle = _ from hc] at hcons
      obtain ⟨he, -⟩ := List.cons.inj hcons
      cases he
      obtain ⟨r', old, h', hfirst, -⟩ := hf
      exact ⟨old, mem_of_first hfirst⟩
  rw [hj] at hheld
  -- It stands as the last lease left it, hidden until its end, unless it was released.
  rcases leased_or_released hlaw hlast hheld with rfl | hreleased
  · right
    have hend : t₁.deadline r.visibilityTimeout ≤ t := hvisible _ hhidden
    exact ⟨hend, fun hdrift => Instant.le_trans hend (hs.reading_le_clock hdrift t ht)⟩
  · exact .inl hreleased

/-- A queue with one message, which a first consumer has leased at the first instant; the clock
stands at the last one, and a second consumer has read it. -/
def lapsed : Timeline :=
  { chronicle := (Chronicle.create .standard).run
      [.call (.createQueue "work" {}),
        .call (.enqueue ⟨0⟩ (.create (.text "m") "order" [] .first)),
        .call (.receive ⟨0⟩ .first)]
    clock := .last
    readings := [.last] }

/-- That state is reached while the clock goes on. -/
theorem run_lapsed : lapsed.Run (· ≤ ·) := by
  have hstart : Run (· ≤ ·) ⟨.create .standard, .first, []⟩ := .create .standard .first
  have hqueue := hstart.step (.move (v := .call (.createQueue "work" {})) (by decide)
    fun _ _ h => nomatch h)
  have hput := hqueue.step (.move
    (v := .call (.enqueue ⟨0⟩ (.create (.text "m") "order" [] .first))) (by decide)
    fun _ _ h => nomatch h)
  have hread := hput.step .look
  have hscan := hread.step (.scan (q := ⟨0⟩) (t := .first) (by decide) List.mem_cons_self)
  have hpass := hscan.step (.pass (t := .last) (by decide))
  exact hpass.step .look

/-- The second consumer gets the message, since the clock has reached the end of the lease. -/
theorem lease_exclusion_lapsed :
    ∃ m, (lapsed.scan ⟨0⟩ .last).chronicle.journal =
        .leased 0 ⟨0⟩ .last m :: lapsed.chronicle.journal ∧
      Instant.first.deadline (.ofSeconds 30) ≤ lapsed.clock := by
  obtain ⟨m, hscan⟩ : ∃ m, (lapsed.scan ⟨0⟩ .last).chronicle.journal =
    .leased 0 ⟨0⟩ .last m :: lapsed.chronicle.journal := ⟨_, rfl⟩
  obtain ⟨m₁, earlier, hj⟩ : ∃ m₁ earlier, lapsed.chronicle.journal =
    [] ++ .leased 0 ⟨0⟩ .first m₁ :: earlier := ⟨_, _, rfl⟩
  have hrules : lapsed.chronicle.broker.rules? ⟨0⟩ = some ⟨"work", .ofSeconds 30, 3, none⟩ := rfl
  obtain ⟨r, hr, -, ⟨h, m', -, hmem⟩ | ⟨-, hclock⟩⟩ := lease_exclusion run_lapsed
    List.mem_cons_self hscan hj fun e he => absurd he List.not_mem_nil
  · exact absurd hmem List.not_mem_nil
  · obtain rfl := Option.some.inj (hrules.symm.trans hr)
    exact ⟨m, hscan, hclock fun _ _ h => h⟩

end Timeline

end MessageBroker
