import MessageBroker.Proofs.Broker.Operation

/-!
# What calls about messages leave alone

Calls that put messages in, lease, settle or publish them change what queue objects hold, and what
has been generated. The objects themselves, the options of the queues, the topics and the registry
stay: `SameObjects` says so, and holds between the states before and after any such call
(`sameObjects_perform`).

Only the creation of a queue sets where its dead letters go, and it can only name a queue that
exists by then. So every queue sends its dead letters to an older one (`Descending`), at any time
(`Descending.perform`), and in particular never to itself.
-/

namespace MessageBroker.Broker

/-- Deliveries leave the objects the same. -/
theorem sameObjects_deliverAll (topic : String) (m : Message) {targets : List QueueRef}
    {b : Broker} (ht : ∀ target ∈ targets, b.HasQueue target) :
    SameObjects b (deliverAll topic m targets b) := by
  induction targets generalizing b with
  | nil => exact .refl b
  | cons target rest ih =>
    obtain ⟨q, hq⟩ := (ht target List.mem_cons_self).queue?
    obtain ⟨copy, hc⟩ := deliver_changes hq topic m
    have hrest := ih (b := b.deliver topic m target)
      fun r hr => (hc.hasQueue r).mpr (ht r (List.mem_cons_of_mem _ hr))
    exact hc.sameObjects.trans hrest

/-- The arrival of a dead letter leaves the objects the same. -/
theorem sameObjects_deposit {b : Broker} (hb : b.Closed) (letter : DeadLetter) :
    SameObjects b (b.deposit letter) := by
  cases hq : b.queue? letter.source with
  | none =>
    unfold deposit
    rw [hq]
    exact .refl b
  | some q =>
    cases hd : q.deadLetters with
    | none =>
      rw [deposit_eq_self hq hd]
      exact .refl b
    | some target =>
      obtain ⟨qt, hqt⟩ := (hb.deadLetters letter.source q.rules target
        (rules?_of_queue? hq) hd).queue?
      rw [deposit_eq_enqueue hq hd]
      exact (enqueue_changes hqt (Nat.le_succ _) _).sameObjects

/-- The first half of a nack leaves the objects the same. -/
theorem sameObjects_giveBack {b b' : Broker} {ref : QueueRef} {handle : Ident}
    {letter : Option DeadLetter} (h : b.giveBack ref handle = .ok (b', letter)) :
    SameObjects b b' := by
  rcases b.first_split ref (·.receipt = some handle) with
    hnone | ⟨q, before, m, after, hq, hs, hbefore, hm⟩
  · rw [giveBack_eq_error hnone] at h
    cases h
  · rcases Nat.lt_or_ge m.retryCount q.maxRetries with hlt | hge
    · rw [giveBack_eq_release hq hs hbefore hm hlt] at h
      cases h
      exact (changes_setQueue hq { q with messages := before ++ m.released :: after }
        rfl).sameObjects
    · rw [giveBack_eq_giveUp hq hs hbefore hm hge] at h
      cases h
      exact (changes_setQueue hq
        { q with messages := before ++ after, failed := q.failed + 1 } rfl).sameObjects

/-- A nack leaves the objects the same. -/
theorem sameObjects_nack {b : Broker} (hb : b.Closed) (ref : QueueRef) (handle : Ident) :
    SameObjects b (b.orUnchanged (b.nack ref handle)) := by
  rcases b.first_split ref (·.receipt = some handle) with
    hnone | ⟨q, before, m, after, hq, hs, hbefore, hm⟩
  · rw [nack_eq_error hnone]
    exact .refl b
  · rcases Nat.lt_or_ge m.retryCount q.maxRetries with hlt | hge
    · have hc := changes_setQueue hq { q with messages := before ++ m.released :: after } rfl
      rw [nack_eq_release hq hs hbefore hm hlt]
      exact hc.sameObjects
    · have hc := changes_setQueue hq
        { q with messages := before ++ after, failed := q.failed + 1 } rfl
      rw [nack_eq_giveUp hq hs hbefore hm hge]
      exact hc.sameObjects.trans (sameObjects_deposit (hc.closed hb) ⟨ref, m⟩)

/-- Every valid call about messages leaves the objects the same. -/
theorem sameObjects_perform {b : Broker} (hb : b.Closed) {op : Operation} (hv : op.Valid b)
    (h : op.registers = false) : SameObjects b (b.perform op) := by
  cases op with
  | createTopic | addTopic | createQueue | addQueue | subscribe | subscribeTo => cases h
  | enqueue queue message =>
    obtain ⟨q, hq⟩ := (hv.1 queue (List.mem_singleton_self _)).queue?
    exact (enqueue_changes hq (Nat.le_refl _) message).sameObjects
  | publish topic message deadline clock =>
    rw [perform_publish]
    exact sameObjects_deliverAll _ message fun target ht => hb.hasQueue_of_mem_reached ht
  | publishTo topic message deadline clock =>
    rw [perform_publishTo]
    exact sameObjects_deliverAll _ message fun target ht => hb.hasQueue_of_mem_reached ht
  | receive queue reading =>
    show SameObjects b (b.receive queue reading).2
    rcases b.first_split queue (·.VisibleAt reading) with
      hnone | ⟨q, before, m, after, hq, hs, hbefore, hm⟩
    · rw [receive_eq_none hnone]
      exact .refl b
    · obtain ⟨b', hrec, hc⟩ := receive_changes hq hs hbefore hm
      rw [hrec]
      exact hc.sameObjects
  | acknowledge queue handle =>
    show SameObjects b (b.orUnchanged (b.acknowledge queue handle))
    rcases b.first_split queue (·.receipt = some handle) with
      hnone | ⟨q, before, m, after, hq, hs, hbefore, hm⟩
    · rw [acknowledge_eq_error hnone]
      exact .refl b
    · have hset := changes_setQueue hq
        { q with messages := before ++ after, processed := q.processed + 1 } rfl
      rw [acknowledge_eq_ok hq hs hbefore hm]
      exact hset.sameObjects
  | nack queue handle => exact sameObjects_nack hb queue handle

/-! ## Dead letters go to older queues -/

/-- Every queue sends its dead letters to one that was made before it. -/
def Descending (b : Broker) : Prop :=
  ∀ ref rules target, b.rules? ref = some rules → rules.deadLetters = some target →
    target.index < ref.index

/-- A broker without queues sends no dead letters. -/
theorem descending_create (defaults : QueueDefaults) : (create defaults).Descending := by
  intro ref rules target h
  simp [rules?, queue?, create] at h

/-- Where the options stay, dead letters go where they went. -/
theorem SameObjects.descending {b b' : Broker} (h : SameObjects b b') (hb : b.Descending) :
    b'.Descending := by
  intro ref rules target hr hd
  rw [h.rules] at hr
  exact hb ref rules target hr hd

/-- Where no queue object has changed, dead letters go where they went. -/
theorem Descending.of_queues {b b' : Broker} (hb : b.Descending) (h : b'.queues = b.queues) :
    b'.Descending := by
  have hrules : ∀ ref, b'.rules? ref = b.rules? ref := by
    intro ref
    unfold rules? queue?
    rw [h]
  intro ref rules target hr hd
  rw [hrules] at hr
  exact hb ref rules target hr hd

/-- A further queue object comes after the one it sends its dead letters to. -/
theorem Descending.addQueue {b : Broker} (hb : b.Descending) {q : Queue}
    (hd : ∀ target, q.deadLetters = some target → b.HasQueue target) :
    (b.addQueue q).2.Descending := by
  intro ref rules target hr ht
  rw [rules?_addQueue] at hr
  split at hr
  · rename_i he
    obtain rfl := Option.some.inj hr
    rw [he]
    exact hd target ht
  · exact hb ref rules target hr ht

/-- After every valid call, dead letters go to older queues. -/
theorem Descending.perform {b : Broker} (hb : b.Descending) (hc : b.Closed) {op : Operation}
    (hv : op.Valid b) : (b.perform op).Descending := by
  cases hr : op.registers with
  | false => exact (sameObjects_perform hc hv hr).descending hb
  | true =>
    cases op with
    | createTopic name =>
      rcases b.createTopic_cases name with h | h
      · exact hb.of_queues (by rw [Broker.perform, h])
      · exact hb.of_queues (by rw [Broker.perform, h]; rfl)
    | addTopic name => exact hb.of_queues rfl
    | createQueue name options =>
      rcases b.createQueue_cases name options with h | h
      · exact hb.of_queues (by rw [Broker.perform, h])
      · have hadd := hb.addQueue (q := b.newQueue name options)
          fun target ht => hv.1 target (Option.mem_toList.mpr ht)
        exact hadd.of_queues (by rw [Broker.perform, h])
    | addQueue name visibilityTimeout maxRetries deadLetters =>
      exact hb.addQueue fun target ht => hv.1 target (Option.mem_toList.mpr ht)
    | subscribe topic queue =>
      rcases b.subscribe_cases topic queue with h | ⟨t, q, -, -, h⟩
      · exact hb.of_queues (by rw [Broker.perform, h])
      · exact hb.of_queues (by rw [Broker.perform, h]; exact (b.subscribeTo_queues t q).1)
    | subscribeTo topic queue => exact hb.of_queues (b.subscribeTo_queues topic queue).1
    | _ => cases hr

end MessageBroker.Broker
