import MessageBroker.Proofs.Broker.FanOut

/-!
# Runs of operations

An `Operation` is one call on a broker, on one of its objects, or on an object made outside its
registry. `perform` is its effect; an operation that is refused has none. A caller can only hand
over references that it was given, so a run admits an operation when the objects it refers to exist
(`Operation.Valid`). Every run from a new broker keeps all references alive (`closed_performAll`).
-/

namespace MessageBroker

/-- A call, with its arguments and the readings of the clocks that it takes. -/
inductive Operation where
  | createTopic (name : String)
  /-- Makes a topic outside the registry. -/
  | addTopic (name : String)
  | createQueue (name : String) (options : QueueOptions)
  /-- Makes a queue outside the registry. -/
  | addQueue (name : String) (visibilityTimeout : Span) (maxRetries : Nat)
      (deadLetters : Option QueueRef)
  /-- Subscribes a registered queue to a registered topic. -/
  | subscribe (topic queue : String)
  /-- Subscribes a queue object to a topic object. -/
  | subscribeTo (topic : TopicRef) (queue : QueueRef)
  | enqueue (queue : QueueRef) (message : Message)
  /-- Publishes to a registered topic; `clock` gives the readings taken before each subscriber. -/
  | publish (topic : String) (message : Message) (deadline : Option Span) (clock : Nat → Span)
  /-- Publishes to a topic object. -/
  | publishTo (topic : TopicRef) (message : Message) (deadline : Option Span) (clock : Nat → Span)
  | receive (queue : QueueRef) (reading : Instant)
  | acknowledge (queue : QueueRef) (handle : Ident)
  | nack (queue : QueueRef) (handle : Ident)

namespace Operation

/-- The queue objects that a call is given. -/
def queueRefs : Operation → List QueueRef
  | .createQueue _ options => options.deadLetters.toList
  | .addQueue _ _ _ deadLetters => deadLetters.toList
  | .subscribeTo _ queue | .enqueue queue _ | .receive queue _ | .acknowledge queue _
  | .nack queue _ => [queue]
  | _ => []

/-- The topic objects that a call is given. -/
def topicRefs : Operation → List TopicRef
  | .subscribeTo topic _ | .publishTo topic _ _ _ => [topic]
  | _ => []

/-- The objects that a call is given exist. -/
def Valid (op : Operation) (b : Broker) : Prop :=
  (∀ ref ∈ op.queueRefs, b.HasQueue ref) ∧ ∀ ref ∈ op.topicRefs, b.HasTopic ref

instance (op : Operation) (b : Broker) : Decidable (op.Valid b) :=
  inferInstanceAs (Decidable (_ ∧ _))

/-- The call is about the objects and their names, not about messages. -/
def registers : Operation → Bool
  | .createTopic _ | .addTopic _ | .createQueue _ _ | .addQueue _ _ _ _ | .subscribe _ _
  | .subscribeTo _ _ => true
  | _ => false

/-- The subscriptions that a call reaches, in order: all of the topic's if it succeeds, those in
front of the place where the deadline passed if it is late. -/
def reached (b : Broker) : Operation → List QueueRef
  | .publish topic m deadline clock =>
    Broker.served (b.subscribers topic) (b.publish topic m deadline clock).1
  | .publishTo topic m deadline clock =>
    Broker.served (b.subscribersOf topic) (b.publishTo topic m deadline clock).1
  | _ => []

/-- The name with which the copies of a publication are marked. -/
def mark (b : Broker) : Operation → String
  | .publish topic _ _ _ => (b.findTopic? topic).elim "" b.nameOf
  | .publishTo topic _ _ _ => b.nameOf topic
  | _ => ""

end Operation

namespace Broker

/-- The broker after an operation that may be refused. -/
def orUnchanged (b : Broker) : Except BrokerError Broker → Broker
  | .ok b' => b'
  | .error _ => b

/-- The effect of a call. -/
def perform (b : Broker) : Operation → Broker
  | .createTopic name => (b.createTopic name).2
  | .addTopic name => (b.addTopic name).2
  | .createQueue name options => (b.createQueue name options).2
  | .addQueue name visibilityTimeout maxRetries deadLetters =>
    (b.addQueue (.create name visibilityTimeout maxRetries deadLetters)).2
  | .subscribe topic queue => b.orUnchanged (b.subscribe topic queue)
  | .subscribeTo topic queue => b.subscribeTo topic queue
  | .enqueue queue message => b.enqueue queue message
  | .publish topic message deadline clock => (b.publish topic message deadline clock).2
  | .publishTo topic message deadline clock => (b.publishTo topic message deadline clock).2
  | .receive queue reading => (b.receive queue reading).2
  | .acknowledge queue handle => b.orUnchanged (b.acknowledge queue handle)
  | .nack queue handle => b.orUnchanged (b.nack queue handle)

/-- The effect of several calls in turn. -/
def performAll (b : Broker) (ops : List Operation) : Broker := ops.foldl perform b

/-- Each of several calls in turn is given objects that exist by then. -/
def Admits (b : Broker) : List Operation → Prop
  | [] => True
  | op :: rest => op.Valid b ∧ (b.perform op).Admits rest

instance decidableAdmits (b : Broker) : (ops : List Operation) → Decidable (b.Admits ops)
  | [] => .isTrue trivial
  | op :: rest =>
    have := decidableAdmits (b.perform op) rest
    inferInstanceAs (Decidable (_ ∧ _))

/-- A publication by name is a delivery to each subscription that it reaches. -/
theorem perform_publish (b : Broker) (topic : String) (m : Message) (deadline : Option Span)
    (clock : Nat → Span) : b.perform (.publish topic m deadline clock) =
      deliverAll (Operation.mark b (.publish topic m deadline clock)) m
        (Operation.reached b (.publish topic m deadline clock)) b :=
  publish_snd b topic m deadline clock

/-- A publication to a topic object is a delivery to each subscription that it reaches. -/
theorem perform_publishTo (b : Broker) (topic : TopicRef) (m : Message) (deadline : Option Span)
    (clock : Nat → Span) : b.perform (.publishTo topic m deadline clock) =
      deliverAll (Operation.mark b (.publishTo topic m deadline clock)) m
        (Operation.reached b (.publishTo topic m deadline clock)) b :=
  publishTo_snd b topic m deadline clock

/-! ## References stay alive -/

/-- Every reference in the broker leads to an object. -/
structure Closed (b : Broker) : Prop where
  deadLetters : ∀ ref rules target, b.rules? ref = some rules →
    rules.deadLetters = some target → b.HasQueue target
  subscribers : ∀ topic, ∀ target ∈ b.subscribersOf topic, b.HasQueue target
  queueNames : ∀ name ref, b.findQueue? name = some ref → b.HasQueue ref
  topicNames : ∀ name ref, b.findTopic? name = some ref → b.HasTopic ref

/-- A new broker refers to nothing. -/
theorem closed_create (defaults : QueueDefaults) : (create defaults).Closed := by
  refine ⟨?_, ?_, ?_, ?_⟩
  · intro ref rules target h
    simp [rules?, queue?, create] at h
  · intro topic target h
    simp [subscribersOf, topic?, create] at h
  · intro name ref h
    simp [findQueue?, create] at h
  · intro name ref h
    simp [findTopic?, create] at h

/-- A topic object has the subscribers it had. -/
theorem SameObjects.subscribersOf {b b' : Broker} (h : SameObjects b b') (topic : TopicRef) :
    b'.subscribersOf topic = b.subscribersOf topic := by
  unfold Broker.subscribersOf topic?
  rw [h.topics]

/-- A topic object has the name it had. -/
theorem SameObjects.nameOf {b b' : Broker} (h : SameObjects b b') (topic : TopicRef) :
    b'.nameOf topic = b.nameOf topic := by
  unfold Broker.nameOf topic?
  rw [h.topics]

/-- Where the objects are the same, references stay alive. -/
theorem SameObjects.closed {b b' : Broker} (h : SameObjects b b') (hb : b.Closed) :
    b'.Closed := by
  refine ⟨?_, ?_, ?_, ?_⟩
  · intro ref rules target hr hd
    rw [h.rules] at hr
    exact (h.hasQueue target).mpr (hb.deadLetters ref rules target hr hd)
  · intro topic target ht
    rw [h.subscribersOf] at ht
    exact (h.hasQueue target).mpr (hb.subscribers topic target ht)
  · intro name ref hr
    unfold findQueue? at hr
    rw [h.queueNames] at hr
    exact (h.hasQueue ref).mpr (hb.queueNames name ref hr)
  · intro name ref hr
    unfold findTopic? at hr
    rw [h.topicNames] at hr
    unfold HasTopic
    rw [h.topics]
    exact hb.topicNames name ref hr

/-- A change to one queue object keeps the references alive. -/
theorem Changes.closed {b b' : Broker} {ref : QueueRef} {q q' : Queue}
    (h : Changes b b' ref q q') (hb : b.Closed) : b'.Closed :=
  h.sameObjects.closed hb

/-- The options of a new last object, and those of all others. -/
theorem rules?_addQueue (b : Broker) (q : Queue) (other : QueueRef) :
    (b.addQueue q).2.rules? other =
      if other.index = b.queues.length then some q.rules else b.rules? other := by
  unfold rules? queue? addQueue
  rw [List.getElem?_append]
  by_cases hlt : other.index < b.queues.length
  · rw [if_pos hlt, if_neg (Nat.ne_of_lt hlt)]
  · rw [if_neg hlt]
    by_cases he : other.index = b.queues.length
    · rw [if_pos he, he, Nat.sub_self]
      rfl
    · rw [if_neg he, List.getElem?_eq_none (by simp; omega), List.getElem?_eq_none (by omega)]

/-- A further queue object, sending its dead letters to one that exists, keeps the references
alive. -/
theorem Closed.addQueue {b : Broker} (hb : b.Closed) {q : Queue}
    (hd : ∀ target, q.deadLetters = some target → b.HasQueue target) :
    (b.addQueue q).2.Closed := by
  -- Objects are numbered in order of creation, so a further one moves no other.
  have hgrow : ∀ r, b.HasQueue r → (b.addQueue q).2.HasQueue r := by
    intro r hr
    show r.index < (b.queues ++ [q]).length
    rw [List.length_append]
    exact Nat.lt_add_right _ hr
  refine ⟨?_, ?_, ?_, hb.topicNames⟩
  · intro r rules target hr ht
    rw [rules?_addQueue] at hr
    split at hr
    · obtain rfl := Option.some.inj hr
      exact hgrow target (hd target ht)
    · exact hgrow target (hb.deadLetters r rules target hr ht)
  · exact fun topic target ht => hgrow target (hb.subscribers topic target ht)
  · exact fun name r hr => hgrow r (hb.queueNames name r hr)

/-- A further topic object keeps the references alive. -/
theorem Closed.addTopic {b : Broker} (hb : b.Closed) (name : String) :
    (b.addTopic name).2.Closed := by
  refine ⟨hb.deadLetters, ?_, hb.queueNames, ?_⟩
  · intro topic target ht
    apply hb.subscribers topic target
    unfold subscribersOf topic? Broker.addTopic at ht
    rw [List.getElem?_append] at ht
    split at ht
    · exact ht
    · -- The new topic has no subscribers, and beyond it there is none.
      exfalso
      cases hi : topic.index - b.topics.length <;> simp [hi] at ht
  · intro n r hr
    show r.index < (b.topics ++ [_]).length
    rw [List.length_append]
    exact Nat.lt_add_right _ (hb.topicNames n r hr)

/-- A further name for an object keeps the references alive. -/
theorem Closed.nameQueue {b : Broker} (hb : b.Closed) (name : String) {ref : QueueRef}
    (hr : b.HasQueue ref) :
    ({ b with queueNames := b.queueNames.insert name ref } : Broker).Closed := by
  refine ⟨hb.deadLetters, hb.subscribers, ?_, hb.topicNames⟩
  intro n r hn
  unfold findQueue? at hn
  rw [NameTable.find?_insert] at hn
  split at hn
  · obtain rfl := Option.some.inj hn
    exact hr
  · exact hb.queueNames n r hn

/-- A further name for a topic object keeps the references alive. -/
theorem Closed.nameTopic {b : Broker} (hb : b.Closed) (name : String) {ref : TopicRef}
    (hr : b.HasTopic ref) :
    ({ b with topicNames := b.topicNames.insert name ref } : Broker).Closed := by
  refine ⟨hb.deadLetters, hb.subscribers, hb.queueNames, ?_⟩
  intro n r hn
  unfold findTopic? at hn
  rw [NameTable.find?_insert] at hn
  split at hn
  · obtain rfl := Option.some.inj hn
    exact hr
  · exact hb.topicNames n r hn

/-- A further subscription of a queue that exists keeps the references alive. -/
theorem Closed.subscribeTo {b : Broker} (hb : b.Closed) (topic : TopicRef) {queue : QueueRef}
    (hq : b.HasQueue queue) : (b.subscribeTo topic queue).Closed := by
  unfold Broker.subscribeTo
  cases ht : b.topic? topic with
  | none => exact hb
  | some t =>
    refine ⟨hb.deadLetters, ?_, hb.queueNames, ?_⟩
    · intro other target hm
      unfold subscribersOf topic? at hm
      simp only [List.getElem?_set] at hm
      split at hm
      · split at hm
        · -- The topic subscribed to has one subscriber more.
          rcases List.mem_append.mp hm with hm | hm
          · exact hb.subscribers topic target (by unfold subscribersOf; rw [ht]; exact hm)
          · rw [List.mem_singleton.mp hm]
            exact hq
        · simp at hm
      · exact hb.subscribers other target hm
    · intro n r hr
      show r.index < (b.topics.set _ _).length
      rw [List.length_set]
      exact hb.topicNames n r hr

/-! ## Runs keep references alive -/

/-- Deposits keep the references alive. -/
theorem Closed.deposit {b : Broker} (hb : b.Closed) (letter : DeadLetter) :
    (b.deposit letter).Closed := by
  cases hq : b.queue? letter.source with
  | none =>
    unfold Broker.deposit
    rw [hq]
    exact hb
  | some q =>
    cases hd : q.deadLetters with
    | none => rw [deposit_eq_self hq hd]; exact hb
    | some target =>
      obtain ⟨qt, hqt⟩ := (hb.deadLetters letter.source q.rules target
        (rules?_of_queue? hq) hd).queue?
      rw [deposit_eq_enqueue hq hd]
      exact (enqueue_changes hqt (Nat.le_succ _) _).closed hb

/-- Enqueueing keeps the references alive. -/
theorem Closed.enqueue {b : Broker} (hb : b.Closed) {ref : QueueRef} (hr : b.HasQueue ref)
    (m : Message) : (b.enqueue ref m).Closed := by
  obtain ⟨q, hq⟩ := hr.queue?
  exact (enqueue_changes hq (Nat.le_refl _) m).closed hb

/-- Deliveries keep the references alive, and the queues they go to. -/
theorem Closed.deliverAll {b : Broker} (hb : b.Closed) (topic : String) (m : Message)
    {targets : List QueueRef} (ht : ∀ target ∈ targets, b.HasQueue target) :
    (deliverAll topic m targets b).Closed := by
  induction targets generalizing b with
  | nil => exact hb
  | cons target rest ih =>
    obtain ⟨q, hq⟩ := (ht target List.mem_cons_self).queue?
    obtain ⟨copy, hc⟩ := deliver_changes hq topic m
    exact ih (hc.closed hb) fun r hr => (hc.hasQueue r).mpr (ht r (List.mem_cons_of_mem _ hr))

/-- A publication serves subscribers only. -/
theorem mem_of_mem_served {subscribers : List QueueRef} {result : Except BrokerError Nat}
    {target : QueueRef} (h : target ∈ served subscribers result) : target ∈ subscribers := by
  unfold served at h
  split at h
  · exact h
  · exact List.mem_of_mem_take h
  · exact absurd h List.not_mem_nil

/-- The subscribers of a name are those of a topic object. -/
theorem exists_of_mem_subscribers {b : Broker} {topic : String} {target : QueueRef}
    (h : target ∈ b.subscribers topic) : ∃ ref, target ∈ b.subscribersOf ref := by
  unfold subscribers at h
  cases hf : b.findTopic? topic with
  | none => rw [hf] at h; exact absurd h List.not_mem_nil
  | some ref => rw [hf] at h; exact ⟨ref, h⟩

/-- A publication reaches queues that exist. -/
theorem Closed.hasQueue_of_mem_reached {b : Broker} (hb : b.Closed) {op : Operation}
    {target : QueueRef} (h : target ∈ op.reached b) : b.HasQueue target := by
  cases op with
  | publish topic m deadline clock =>
    obtain ⟨ref, hr⟩ := exists_of_mem_subscribers (mem_of_mem_served h)
    exact hb.subscribers ref target hr
  | publishTo topic m deadline clock => exact hb.subscribers topic target (mem_of_mem_served h)
  | _ => exact absurd h List.not_mem_nil

/-- Leases keep the references alive. -/
theorem Closed.receive {b : Broker} (hb : b.Closed) (ref : QueueRef) (now : Instant) :
    (b.receive ref now).2.Closed := by
  rcases b.first_split ref (·.VisibleAt now) with h | ⟨q, before, m, after, hq, hs, hbefore, hm⟩
  · rw [receive_eq_none h]
    exact hb
  · obtain ⟨b', hrec, hc⟩ := receive_changes hq hs hbefore hm
    rw [hrec]
    exact hc.closed hb

/-- Acknowledgements keep the references alive. -/
theorem Closed.acknowledge {b : Broker} (hb : b.Closed) (ref : QueueRef) (handle : Ident) :
    (b.orUnchanged (b.acknowledge ref handle)).Closed := by
  rcases b.first_split ref (·.receipt = some handle) with
    h | ⟨q, before, m, after, hq, hs, hbefore, hm⟩
  · rw [acknowledge_eq_error h]
    exact hb
  · rw [acknowledge_eq_ok hq hs hbefore hm]
    refine (changes_setQueue hq _ ?_).closed hb
    rfl

/-- Nacks keep the references alive. -/
theorem Closed.nack {b : Broker} (hb : b.Closed) (ref : QueueRef) (handle : Ident) :
    (b.orUnchanged (b.nack ref handle)).Closed := by
  rcases b.first_split ref (·.receipt = some handle) with
    h | ⟨q, before, m, after, hq, hs, hbefore, hm⟩
  · rw [nack_eq_error h]
    exact hb
  · rcases Nat.lt_or_ge m.retryCount q.maxRetries with hlt | hge
    · rw [nack_eq_release hq hs hbefore hm hlt]
      refine (changes_setQueue hq _ ?_).closed hb
      rfl
    · rw [nack_eq_giveUp hq hs hbefore hm hge]
      refine ((changes_setQueue hq _ ?_).closed hb).deposit ⟨ref, m⟩
      rfl

/-- The queue that `createQueue` makes if there is none of that name. -/
def newQueue (b : Broker) (name : String) (options : QueueOptions) : Queue :=
  .create name (options.visibilityTimeout.getD b.defaults.visibilityTimeout)
    (options.maxRetries.getD b.defaults.maxRetries) options.deadLetters

/-- A queue that has its name already is left as it is; a new one is added and named. -/
theorem createQueue_cases (b : Broker) (name : String) (options : QueueOptions) :
    (b.createQueue name options).2 = b ∨
      (b.createQueue name options).2 = { (b.addQueue (b.newQueue name options)).2 with
        queueNames := b.queueNames.insert name ⟨b.queues.length⟩ } := by
  unfold createQueue
  cases b.findQueue? name with
  | some ref => exact .inl rfl
  | none => exact .inr rfl

/-- A topic that has its name already is left as it is; a new one is added and named. -/
theorem createTopic_cases (b : Broker) (name : String) :
    (b.createTopic name).2 = b ∨
      (b.createTopic name).2 = { (b.addTopic name).2 with
        topicNames := b.topicNames.insert name ⟨b.topics.length⟩ } := by
  unfold createTopic
  cases b.findTopic? name with
  | some ref => exact .inl rfl
  | none => exact .inr rfl

/-- A subscription by name is refused, or is one of the objects named. -/
theorem subscribe_cases (b : Broker) (topic queue : String) :
    b.orUnchanged (b.subscribe topic queue) = b ∨
      ∃ t q, b.findTopic? topic = some t ∧ b.findQueue? queue = some q ∧
        b.orUnchanged (b.subscribe topic queue) = b.subscribeTo t q := by
  unfold subscribe
  cases ht : b.findTopic? topic with
  | none => exact .inl rfl
  | some t =>
    cases hq : b.findQueue? queue with
    | none => exact .inl rfl
    | some q => exact .inr ⟨t, q, rfl, rfl, rfl⟩

/-- A subscription changes no queue and generates nothing. -/
theorem subscribeTo_queues (b : Broker) (topic : TopicRef) (queue : QueueRef) :
    (b.subscribeTo topic queue).queues = b.queues ∧ (b.subscribeTo topic queue).mint = b.mint := by
  unfold subscribeTo
  split <;> exact ⟨rfl, rfl⟩

/-- A call about objects generates nothing, and leaves the queues as they are or adds an empty
one. -/
theorem perform_of_registers (b : Broker) {op : Operation} (h : op.registers = true) :
    (b.perform op).mint = b.mint ∧
      ((b.perform op).queues = b.queues ∨
        ∃ name visibilityTimeout maxRetries deadLetters, (b.perform op).queues =
          b.queues ++ [.create name visibilityTimeout maxRetries deadLetters]) := by
  cases op with
  | createTopic name =>
    have hp : b.perform (.createTopic name) = (b.createTopic name).2 := rfl
    rcases b.createTopic_cases name with hc | hc
    · rw [hp, hc]
      exact ⟨rfl, .inl rfl⟩
    · rw [hp, hc]
      exact ⟨rfl, .inl rfl⟩
  | addTopic name => exact ⟨rfl, .inl rfl⟩
  | createQueue name options =>
    have hp : b.perform (.createQueue name options) = (b.createQueue name options).2 := rfl
    rcases b.createQueue_cases name options with hc | hc
    · rw [hp, hc]
      exact ⟨rfl, .inl rfl⟩
    · rw [hp, hc]
      exact ⟨rfl, .inr ⟨_, _, _, _, rfl⟩⟩
  | addQueue name visibilityTimeout maxRetries deadLetters =>
    exact ⟨rfl, .inr ⟨name, visibilityTimeout, maxRetries, deadLetters, rfl⟩⟩
  | subscribe topic queue =>
    have hp : b.perform (.subscribe topic queue) = b.orUnchanged (b.subscribe topic queue) := rfl
    rcases b.subscribe_cases topic queue with hc | ⟨t, q, -, -, hc⟩
    · rw [hp, hc]
      exact ⟨rfl, .inl rfl⟩
    · rw [hp, hc]
      exact ⟨(b.subscribeTo_queues t q).2, .inl (b.subscribeTo_queues t q).1⟩
  | subscribeTo topic queue =>
    exact ⟨(b.subscribeTo_queues topic queue).2, .inl (b.subscribeTo_queues topic queue).1⟩
  | _ => cases h

/-- Creating a queue by name keeps the references alive. -/
theorem Closed.createQueue {b : Broker} (hb : b.Closed) (name : String) {options : QueueOptions}
    (hd : ∀ target, options.deadLetters = some target → b.HasQueue target) :
    (b.createQueue name options).2.Closed := by
  rcases b.createQueue_cases name options with h | h
  · rw [h]
    exact hb
  · rw [h]
    refine (hb.addQueue hd).nameQueue name ?_
    show b.queues.length < (b.queues ++ [_]).length
    rw [List.length_append]
    exact Nat.lt_succ_self _

/-- Creating a topic by name keeps the references alive. -/
theorem Closed.createTopic {b : Broker} (hb : b.Closed) (name : String) :
    (b.createTopic name).2.Closed := by
  rcases b.createTopic_cases name with h | h
  · rw [h]
    exact hb
  · rw [h]
    refine (hb.addTopic name).nameTopic name ?_
    show b.topics.length < (b.topics ++ [_]).length
    rw [List.length_append]
    exact Nat.lt_succ_self _

/-- Every valid operation keeps the references alive. -/
theorem Closed.perform {b : Broker} (hb : b.Closed) {op : Operation} (hv : op.Valid b) :
    (b.perform op).Closed := by
  cases op with
  | createTopic name => exact hb.createTopic name
  | addTopic name => exact hb.addTopic name
  | createQueue name options =>
    exact hb.createQueue name fun target ht => hv.1 target (Option.mem_toList.mpr ht)
  | addQueue name visibilityTimeout maxRetries deadLetters =>
    exact hb.addQueue fun target ht => hv.1 target (Option.mem_toList.mpr ht)
  | subscribe topic queue =>
    show (b.orUnchanged (b.subscribe topic queue)).Closed
    rcases b.subscribe_cases topic queue with h | ⟨t, q, -, hq, h⟩
    · rw [h]; exact hb
    · rw [h]; exact hb.subscribeTo t (hb.queueNames queue q hq)
  | subscribeTo topic queue => exact hb.subscribeTo topic (hv.1 queue (List.mem_singleton_self _))
  | enqueue queue message => exact hb.enqueue (hv.1 queue (List.mem_singleton_self _)) message
  | publish topic message deadline clock =>
    rw [perform_publish]
    exact hb.deliverAll _ message fun target ht => hb.hasQueue_of_mem_reached ht
  | publishTo topic message deadline clock =>
    rw [perform_publishTo]
    exact hb.deliverAll _ message fun target ht => hb.hasQueue_of_mem_reached ht
  | receive queue reading => exact hb.receive queue reading
  | acknowledge queue handle => exact hb.acknowledge queue handle
  | nack queue handle => exact hb.nack queue handle

/-- Every run of valid operations keeps the references alive. -/
theorem closed_performAll {b : Broker} (hb : b.Closed) {ops : List Operation} (hv : b.Admits ops) :
    (b.performAll ops).Closed := by
  induction ops generalizing b with
  | nil => exact hb
  | cons op rest ih => exact ih (hb.perform hv.1) hv.2

end Broker

end MessageBroker
