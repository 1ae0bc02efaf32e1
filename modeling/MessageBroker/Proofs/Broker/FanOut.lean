import MessageBroker.Proofs.Broker.Objects

/-!
# How far a fan-out comes

A publication without trouble delivers to every subscriber; one whose deadline passes delivers to
those in front of the place where the clock had reached it. In both cases its effect is that of
delivering to the subscribers it served, one after the other (`publishTo_snd`, `publish_snd`), and
these can be told from its result (`served`).
-/

namespace MessageBroker.Broker

/-- Delivers a copy of a message to each of the listed queues in turn. -/
def deliverAll (topic : String) (m : Message) (targets : List QueueRef) (b : Broker) : Broker :=
  targets.foldl (fun b target => b.deliver topic m target) b

@[simp] theorem deliverAll_nil (topic : String) (m : Message) (b : Broker) :
    deliverAll topic m [] b = b := rfl

@[simp] theorem deliverAll_cons (topic : String) (m : Message) (target : QueueRef)
    (rest : List QueueRef) (b : Broker) :
    deliverAll topic m (target :: rest) b = deliverAll topic m rest (b.deliver topic m target) :=
  rfl

/-- A fan-out serves the places in front of the first one at which the clock has reached the
deadline, and reports how many these are and how many are left. -/
theorem fanOut_spec (topic : String) (m : Message) (deadline : Option Span) (clock : Nat → Span)
    (targets : List QueueRef) (k : Nat) (b : Broker) :
    ∃ r ≤ targets.length, (∀ i < r, reached deadline (clock (k + i)) = false) ∧
      (fanOut topic m deadline clock targets k b).2 = deliverAll topic m (targets.take r) b ∧
      ((r = targets.length ∧ (fanOut topic m deadline clock targets k b).1 = .ok (k + r)) ∨
        (r < targets.length ∧ reached deadline (clock (k + r)) = true ∧
          (fanOut topic m deadline clock targets k b).1 =
            .error (.deadlineExceeded topic (k + r) (targets.length - r)))) := by
  induction targets generalizing k b with
  | nil => exact ⟨0, Nat.le_refl _, fun i hi => absurd hi (Nat.not_lt_zero i), rfl, .inl ⟨rfl, rfl⟩⟩
  | cons target rest ih =>
    unfold fanOut
    by_cases hd : reached deadline (clock k) = true
    · -- The first place is late: nothing is delivered.
      rw [if_pos hd]
      exact ⟨0, Nat.zero_le _, fun i hi => absurd hi (Nat.not_lt_zero i), rfl,
        .inr ⟨Nat.zero_lt_succ _, hd, rfl⟩⟩
    · rw [if_neg hd]
      obtain ⟨r, hr, hearly, hb, hres⟩ := ih (k + 1) (b.deliver topic m target)
      -- Places are counted from `k` here and from `k + 1` in the rest.
      have hshift : ∀ i, k + 1 + i = k + (i + 1) := fun i => by omega
      refine ⟨r + 1, Nat.succ_le_succ hr, ?_, hb, ?_⟩
      · intro i hi
        cases i with
        | zero => exact Bool.eq_false_iff.mpr hd
        | succ i => rw [← hshift]; exact hearly i (by omega)
      · rw [hshift] at hres
        rcases hres with ⟨hlen, hok⟩ | ⟨hlt, hlate, herr⟩
        · exact .inl ⟨by rw [hlen, List.length_cons], hok⟩
        · refine .inr ⟨Nat.succ_lt_succ hlt, hlate, ?_⟩
          rw [herr, List.length_cons, Nat.add_sub_add_right]

/-- A fan-out whose deadline is not reached at any place delivers to all of them. -/
theorem fanOut_of_early {deadline : Option Span} {clock : Nat → Span} {targets : List QueueRef}
    (hearly : ∀ i < targets.length, reached deadline (clock i) = false) (topic : String)
    (m : Message) (b : Broker) : fanOut topic m deadline clock targets 0 b =
      (.ok targets.length, deliverAll topic m targets b) := by
  obtain ⟨r, -, -, hb, ⟨rfl, hok⟩ | ⟨hlt, hlate, -⟩⟩ :=
    fanOut_spec topic m deadline clock targets 0 b
  · rw [List.take_length] at hb
    rw [Nat.zero_add] at hok
    exact Prod.ext hok hb
  · rw [Nat.zero_add, hearly r hlt] at hlate
    cases hlate

/-- A fan-out whose deadline is first reached at some place delivers to those in front of it. -/
theorem fanOut_of_late {deadline : Option Span} {clock : Nat → Span} {targets : List QueueRef}
    {k : Nat} (hk : k < targets.length) (hlate : reached deadline (clock k) = true)
    (hearly : ∀ i < k, reached deadline (clock i) = false) (topic : String) (m : Message)
    (b : Broker) : fanOut topic m deadline clock targets 0 b =
      (.error (.deadlineExceeded topic k (targets.length - k)),
        deliverAll topic m (targets.take k) b) := by
  obtain ⟨r, -, hbefore, hb, hr⟩ := fanOut_spec topic m deadline clock targets 0 b
  simp only [Nat.zero_add] at hbefore hr
  -- The place where the fan-out stops is not behind the late one.
  have hle : r ≤ k := by
    apply Nat.le_of_not_lt
    intro hlt
    rw [hbefore k hlt] at hlate
    cases hlate
  rcases hr with ⟨rfl, -⟩ | ⟨-, hstop, herr⟩
  · omega
  · -- Nor is it in front of it.
    have hge : k ≤ r := by
      apply Nat.le_of_not_lt
      intro hlt
      rw [hearly r hlt] at hstop
      cases hstop
    obtain rfl : r = k := Nat.le_antisymm hle hge
    exact Prod.ext herr hb

section Topic

variable {b : Broker} {topic : TopicRef} {t : Topic} (ht : b.topic? topic = some t)
  {deadline : Option Span} {clock : Nat → Span} (m : Message)
include ht

/-- A publication whose deadline is not reached delivers to all subscribers of its topic. -/
theorem publishTo_of_early
    (hearly : ∀ i < t.subscribers.length, reached deadline (clock i) = false) :
    b.publishTo topic m deadline clock =
      (.ok t.subscribers.length, deliverAll t.name m t.subscribers b) := by
  unfold publishTo
  rw [ht]
  exact fanOut_of_early hearly t.name m b

/-- A publication whose deadline is first reached at some place delivers to the subscribers in front
of it. -/
theorem publishTo_of_late {k : Nat} (hk : k < t.subscribers.length)
    (hlate : reached deadline (clock k) = true)
    (hearly : ∀ i < k, reached deadline (clock i) = false) :
    b.publishTo topic m deadline clock =
      (.error (.deadlineExceeded t.name k (t.subscribers.length - k)),
        deliverAll t.name m (t.subscribers.take k) b) := by
  unfold publishTo
  rw [ht]
  exact fanOut_of_late hk hlate hearly t.name m b

end Topic

/-- The subscribers that a publication with that result has served. -/
def served (subscribers : List QueueRef) : Except BrokerError Nat → List QueueRef
  | .ok _ => subscribers
  | .error (.deadlineExceeded _ delivered _) => subscribers.take delivered
  | .error _ => []

/-- A whole fan-out delivers to the subscribers it served. -/
theorem fanOut_snd (topic : String) (m : Message) (deadline : Option Span) (clock : Nat → Span)
    (targets : List QueueRef) (b : Broker) :
    (fanOut topic m deadline clock targets 0 b).2 =
      deliverAll topic m (served targets (fanOut topic m deadline clock targets 0 b).1) b := by
  obtain ⟨r, -, -, hb, ⟨hlen, hok⟩ | ⟨-, -, herr⟩⟩ := fanOut_spec topic m deadline clock targets 0 b
  · rw [hb, hok, hlen, List.take_length]
    rfl
  · rw [hb, herr, Nat.zero_add]
    rfl

/-- The subscribers of a topic object; none if there is no such object. -/
def subscribersOf (b : Broker) (topic : TopicRef) : List QueueRef :=
  (b.topic? topic).elim [] Topic.subscribers

/-- The name of a topic object, with which its copies are marked; empty if there is no such
object. -/
def nameOf (b : Broker) (topic : TopicRef) : String := (b.topic? topic).elim "" Topic.name

/-- A publication to a topic object delivers to the subscribers it served. -/
theorem publishTo_snd (b : Broker) (topic : TopicRef) (m : Message) (deadline : Option Span)
    (clock : Nat → Span) : (b.publishTo topic m deadline clock).2 =
      deliverAll (b.nameOf topic) m
        (served (b.subscribersOf topic) (b.publishTo topic m deadline clock).1) b := by
  unfold publishTo subscribersOf nameOf
  cases b.topic? topic with
  | none => rfl
  | some t => exact fanOut_snd _ _ _ _ _ _

/-- A publication by name delivers to the subscribers it served. -/
theorem publish_snd (b : Broker) (topic : String) (m : Message) (deadline : Option Span)
    (clock : Nat → Span) : (b.publish topic m deadline clock).2 =
      deliverAll ((b.findTopic? topic).elim "" b.nameOf) m
        (served (b.subscribers topic) (b.publish topic m deadline clock).1) b := by
  unfold publish subscribers
  cases b.findTopic? topic with
  | none => rfl
  | some ref => exact publishTo_snd b ref m deadline clock

end MessageBroker.Broker
