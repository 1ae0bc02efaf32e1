import MessageBroker.Proofs.Broker.Copies
import MessageBroker.Proofs.Broker.Ledger

/-!
# Publications that come too late

A publication with a deadline reads the clock before each subscriber, and stops at the first reading
that has reached the deadline. What it has done by then is the beginning of what it would have done
without one: the same copies, under the same identifiers, for the subscriptions in front of that
place (`publishTo_stops_at_deadline`). Its result says how many these are, and how many are left.

That no copy goes elsewhere is counted over all queues (`holdings`).
-/

namespace MessageBroker

/-- An instant of the monotonic clock precedes another if the other is not at or before it. -/
theorem Span.lt_iff_not_le (a b : Span) : a < b ↔ ¬ b ≤ a := by
  simp only [Span.lt_iff, Span.le_iff]
  omega

namespace Broker

/-- The number of messages that all queues hold. -/
def holdings (b : Broker) : Nat := (b.queues.map Queue.size).sum

/-- A change to one queue object changes the holdings by what it changes that queue's size. -/
theorem Changes.holdings {b b' : Broker} {ref : QueueRef} {q q' : Queue}
    (h : Changes b b' ref q q') : b'.holdings + q.size = b.holdings + q'.size := by
  have hset := sum_filter_set (fun _ => true) Queue.size h.before q'
  have hall : ∀ l : List Queue, l.filter (fun _ => true) = l :=
    fun l => List.filter_eq_self.mpr fun _ _ => rfl
  simp only [hall, if_true] at hset
  unfold Broker.holdings
  rw [h.queues]
  exact hset

/-- Deliveries add one message for each place of the list. -/
theorem holdings_deliverAll {b : Broker} {targets : List QueueRef}
    (ht : ∀ target ∈ targets, b.HasQueue target) (topic : String) (m : Message) :
    (deliverAll topic m targets b).holdings = b.holdings + targets.length := by
  induction targets generalizing b with
  | nil => rfl
  | cons target rest ih =>
    obtain ⟨q, hq⟩ := (ht target List.mem_cons_self).queue?
    have hc := deliver_changes_markedCopy hq topic m
    have hrest := ih fun r hr => (hc.hasQueue r).mpr (ht r (List.mem_cons_of_mem _ hr))
    have hone := hc.holdings
    have hsize : (q.enqueue (markedCopy b.mint topic m)).size = q.size + 1 := List.length_append
    rw [deliverAll_cons, hrest, List.length_cons]
    omega

/-- A publication that is given a deadline to a topic with `n` subscriptions. If none of the `n`
readings of the clock has reached the deadline, it is a publication without one, and returns `n`.
Otherwise, if `k` is the first place whose reading has, it reports `k` copies delivered and `n - k`
subscriptions left, and its effect is that of a publication to the first `k` subscriptions: the
queues get the first `k` of the copies that they would have got without a deadline, and nothing
else. In both cases the queues hold more messages by the number reported. By a registered name it
is the same. -/
theorem publishTo_stops_at_deadline {b : Broker} {topic : TopicRef} {t : Topic}
    (ht : b.topic? topic = some t) (hall : ∀ target ∈ t.subscribers, b.HasQueue target)
    (m : Message) (deadline : Span) (clock : Nat → Span) :
    ((∀ i < t.subscribers.length, clock i < deadline) →
      b.publishTo topic m (some deadline) clock = b.publishTo topic m none clock ∧
      (b.publishTo topic m (some deadline) clock).1 = .ok t.subscribers.length ∧
      (b.publishTo topic m (some deadline) clock).2.holdings =
        b.holdings + t.subscribers.length) ∧
    (∀ k < t.subscribers.length, deadline ≤ clock k → (∀ i < k, clock i < deadline) →
      (b.publishTo topic m (some deadline) clock).1 =
        .error (.deadlineExceeded t.name k (t.subscribers.length - k)) ∧
      k + (t.subscribers.length - k) = t.subscribers.length ∧
      (b.publishTo topic m (some deadline) clock).2 =
        (fanOut t.name m none clock (t.subscribers.take k) 0 b).2 ∧
      (∀ ref, (b.publishTo topic m (some deadline) clock).2.queue? ref =
        (b.queue? ref).map (·.enqueueAll
          (addressed ref ((copies t.name m b.mint t.subscribers).take k)))) ∧
      (b.publishTo topic m (some deadline) clock).2.holdings = b.holdings + k) ∧
    (∀ ref, (b.publishTo topic m none clock).2.queue? ref =
      (b.queue? ref).map (·.enqueueAll
        (addressed ref (copies t.name m b.mint t.subscribers)))) ∧
    ∀ name, b.findTopic? name = some topic →
      b.publish name m none clock = b.publishTo topic m none clock ∧
      b.publish name m (some deadline) clock = b.publishTo topic m (some deadline) clock := by
  -- A reading is early if it is below the deadline.
  have hearly : ∀ {i}, clock i < deadline → reached (some deadline) (clock i) = false :=
    fun hlt => decide_eq_false ((Span.lt_iff_not_le _ _).mp hlt)
  have hplain : b.publishTo topic m none clock =
      (.ok t.subscribers.length, deliverAll t.name m t.subscribers b) :=
    publishTo_of_early ht m fun _ _ => rfl
  refine ⟨fun hin => ?_, fun k hk hlate hbefore => ?_, fun ref => ?_, fun name hname => ?_⟩
  · have hfull := publishTo_of_early ht m fun i hi => hearly (hin i hi)
    rw [hfull, hplain]
    exact ⟨rfl, rfl, holdings_deliverAll hall t.name m⟩
  · have hreached : reached (some deadline) (clock k) = true := decide_eq_true hlate
    have hcut := publishTo_of_late ht m hk hreached fun i hi => hearly (hbefore i hi)
    have htake : ∀ target ∈ t.subscribers.take k, b.HasQueue target :=
      fun target h => hall target (List.mem_of_mem_take h)
    have hlen : (t.subscribers.take k).length = k := by
      rw [List.length_take]
      omega
    have hsum := holdings_deliverAll htake t.name m
    rw [hlen] at hsum
    rw [hcut]
    refine ⟨rfl, by omega, ?_, fun ref => ?_, hsum⟩
    · rw [fanOut_of_early fun _ _ => rfl]
    · rw [queue?_deliverAll htake, copies_take]
  · rw [hplain]
    exact queue?_deliverAll hall t.name m ref
  · unfold publish
    rw [hname]
    exact ⟨rfl, rfl⟩

/-- With a reading every second and a deadline of two seconds, the third of three subscriptions is
late: the second copy for its queue is not made. -/
theorem publishTo_stops_at_deadline_third :
    let clock := fun i => Span.ofSeconds i
    let result := twiceSubscribed.publishTo ⟨0⟩ forwarded (some (.ofSeconds 2)) clock
    result.1 = .error (.deadlineExceeded "orders" 2 1) ∧
      result.2 = (fanOut "orders" forwarded none clock [⟨0⟩, ⟨1⟩] 0 twiceSubscribed).2 ∧
      result.2.holdings = 2 := by
  have ht : twiceSubscribed.topic? ⟨0⟩ = some ⟨"orders", [⟨0⟩, ⟨1⟩, ⟨0⟩]⟩ := rfl
  obtain ⟨-, hlate, -⟩ := publishTo_stops_at_deadline ht (by decide) forwarded (.ofSeconds 2)
    fun i => .ofSeconds i
  obtain ⟨hresult, -, heffect, -, hsum⟩ := hlate 2 (by decide) (by decide) (by decide)
  exact ⟨hresult, heffect, hsum⟩

end Broker

end MessageBroker
