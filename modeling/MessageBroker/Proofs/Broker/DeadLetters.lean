import MessageBroker.Proofs.Broker.Copies

/-!
# Messages that are given up

A nack of a message that has been leased as often as its queue allows takes it out, counts it, and
puts a copy in the queue for dead letters if there is one. `nack_givesUp` says what the whole of it
leaves behind: nothing else changes, in no other queue.
-/

namespace MessageBroker.Broker

/-- What a dead letter for a message is: a fork, marked with the queue that gave the message up and
with the reason. -/
def IsLetterFor (copy : Message) (queue : String) (m : Message) : Prop :=
  copy.IsMarkedFork m
    [(lastQueueKey, .text queue), (failureReasonKey, .text retriesExceeded)]

/-- The copy that a broker makes for the dead letters is one, whatever marks the message had. -/
theorem isLetterFor_deadLetterCopy (b : Broker) (queue : String) (m : Message) :
    IsLetterFor (b.deadLetterCopy queue m).1 queue m :=
  m.isMarkedFork_setMetadata b.mint.next (by decide) _ _

/-- The arrival of a dead letter puts a new copy behind the messages of the queue for dead letters,
if there is one, and changes no other queue. -/
theorem queue?_deposit {b : Broker} (hb : b.Closed) (letter : DeadLetter) {q : Queue}
    (hq : b.queue? letter.source = some q) :
    (∀ other, q.deadLetters ≠ some other → (b.deposit letter).queue? other = b.queue? other) ∧
    ∀ target, q.deadLetters = some target → ∃ qt copy, b.queue? target = some qt ∧
      (b.deposit letter).queue? target = some (qt.enqueue copy) ∧ copy.id = b.mint.next ∧
      IsLetterFor copy q.name letter.message := by
  cases hd : q.deadLetters with
  | none =>
    rw [deposit_eq_self hq hd]
    exact ⟨fun _ _ => rfl, fun _ ht => nomatch ht⟩
  | some target =>
    obtain ⟨qt, hqt⟩ :=
      (hb.deadLetters letter.source q.rules target (rules?_of_queue? hq) hd).queue?
    have hid : (b.deadLetterCopy q.name letter.message).1.id ≠ .blank := fun h => nomatch h
    have hc := enqueue_changes hqt (Nat.le_succ b.mint.issued)
      (b.deadLetterCopy q.name letter.message).1
    rw [identify_eq_self hid] at hc
    rw [deposit_eq_enqueue hq hd]
    refine ⟨fun other hother => ?_, fun target' ht => ?_⟩
    · have hne : other ≠ target := fun he => hother (he ▸ rfl)
      exact (hc.queue? other).trans (if_neg hne)
    · obtain rfl := Option.some.inj ht
      exact ⟨qt, _, hqt, (hc.queue? target).trans (if_pos rfl), rfl,
        isLetterFor_deadLetterCopy b q.name letter.message⟩

/-- At the budget or beyond, a nack takes the message out and counts it as failed. If the queue has
one for dead letters, one new letter for the message stands at the end of that; no other queue
changes. -/
theorem nack_givesUp {b : Broker} (hb : b.Closed) {ref : QueueRef} {q : Queue}
    (hself : q.deadLetters ≠ some ref) (hq : b.queue? ref = some q) {before after : List Message}
    {m : Message} (hs : q.messages = before ++ m :: after) {handle : Ident}
    (hbefore : ∀ x ∈ before, x.receipt ≠ some handle) (hm : m.receipt = some handle)
    (hge : q.maxRetries ≤ m.retryCount) :
    ∃ b', b.nack ref handle = .ok b' ∧ SameObjects b b' ∧
      b'.queue? ref = some { q with messages := before ++ after, failed := q.failed + 1 } ∧
      (∀ other, other ≠ ref → q.deadLetters ≠ some other → b'.queue? other = b.queue? other) ∧
      ∀ target, q.deadLetters = some target → ∃ qt copy, b.queue? target = some qt ∧
        b'.queue? target = some (qt.enqueue copy) ∧ copy.id = b.mint.next ∧
        IsLetterFor copy q.name m := by
  have hc := changes_setQueue hq { q with messages := before ++ after, failed := q.failed + 1 } rfl
  have hgone := (hc.queue? ref).trans (if_pos rfl)
  have hothers := fun other (hne : other ≠ ref) => (hc.queue? other).trans (if_neg hne)
  obtain ⟨hstay, hletter⟩ := queue?_deposit (hc.closed hb) ⟨ref, m⟩ hgone
  refine ⟨_, nack_eq_giveUp hq hs hbefore hm hge,
    hc.sameObjects.trans (sameObjects_deposit (hc.closed hb) ⟨ref, m⟩), ?_, ?_, ?_⟩
  · exact (hstay ref hself).trans hgone
  · exact fun other hne hno => (hstay other hno).trans (hothers other hne)
  · intro target ht
    obtain ⟨qt, copy, hqt, hafter, hid, hcopy⟩ := hletter target ht
    have hne : target ≠ ref := fun he => hself (he ▸ ht)
    exact ⟨qt, copy, (hothers target hne).symm.trans hqt, hafter, hid, hcopy⟩

end MessageBroker.Broker
