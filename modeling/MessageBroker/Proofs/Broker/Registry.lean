import MessageBroker.Proofs.Broker.Standing

/-!
# What is registered

A name is registered from the call that creates its topic or its queue, and stays so: no other call
touches the registry (`findTopic?_perform`, `findQueue?_perform`). The object that a topic name
leads to has that name (`Titled`), so what is published by a name is marked with it.
-/

namespace MessageBroker.Broker

/-! ## Names of topics -/

/-- Creating a topic registers its name. -/
theorem findTopic?_createTopic (b : Broker) (created name : String) :
    (b.createTopic created).2.findTopic? name = none ↔
      b.findTopic? name = none ∧ name ≠ created := by
  unfold createTopic
  cases hf : b.findTopic? created with
  | some ref =>
    -- It was registered before.
    refine ⟨fun h => ⟨h, fun he => ?_⟩, fun h => h.1⟩
    rw [he, hf] at h
    cases h
  | none =>
    show (b.topicNames.insert created _).find? name = none ↔ _
    rw [NameTable.find?_insert]
    split
    · rename_i he
      simp [he]
    · rename_i hne
      simp [hne, findTopic?]

/-- Creating a queue registers its name. -/
theorem findQueue?_createQueue (b : Broker) (created name : String) (options : QueueOptions) :
    (b.createQueue created options).2.findQueue? name = none ↔
      b.findQueue? name = none ∧ name ≠ created := by
  unfold createQueue
  cases hf : b.findQueue? created with
  | some ref =>
    refine ⟨fun h => ⟨h, fun he => ?_⟩, fun h => h.1⟩
    rw [he, hf] at h
    cases h
  | none =>
    show (b.queueNames.insert created _).find? name = none ↔ _
    rw [NameTable.find?_insert]
    split
    · rename_i he
      simp [he]
    · rename_i hne
      simp [hne, findQueue?]

/-- A subscription registers nothing. -/
theorem subscribeTo_names (b : Broker) (topic : TopicRef) (queue : QueueRef) :
    (b.subscribeTo topic queue).topicNames = b.topicNames ∧
      (b.subscribeTo topic queue).queueNames = b.queueNames := by
  unfold subscribeTo
  split <;> exact ⟨rfl, rfl⟩

/-- A subscription adds the queue to one topic, and leaves the others alone. -/
theorem topic?_subscribeTo {b : Broker} {topic : TopicRef} {t : Topic}
    (ht : b.topic? topic = some t) (queue : QueueRef) (ref : TopicRef) :
    (b.subscribeTo topic queue).topic? ref =
      if topic = ref then some ⟨t.name, t.subscribers ++ [queue]⟩ else b.topic? ref := by
  have hlt : topic.index < b.topics.length := (List.getElem?_eq_some_iff.mp ht).1
  unfold subscribeTo
  rw [ht]
  show (b.topics.set topic.index _)[ref.index]? = _
  rw [List.getElem?_set]
  by_cases he : topic = ref
  · rw [he, if_pos rfl, if_pos rfl, if_pos (he ▸ hlt)]
  · have hne : topic.index ≠ ref.index := fun hi => he (by cases topic; cases ref; simp_all)
    rw [if_neg he, if_neg hne]
    rfl

/-- A subscription by name registers nothing. -/
theorem subscribe_names (b : Broker) (topic queue : String) :
    (b.orUnchanged (b.subscribe topic queue)).topicNames = b.topicNames ∧
      (b.orUnchanged (b.subscribe topic queue)).queueNames = b.queueNames := by
  rcases b.subscribe_cases topic queue with h | ⟨t, q, -, -, h⟩
  · rw [h]
    exact ⟨rfl, rfl⟩
  · rw [h]
    exact b.subscribeTo_names t q

/-- After a valid call, a topic name is unregistered if it was so before, and was not created. -/
theorem findTopic?_perform {b : Broker} (hb : b.Closed) {op : Operation} (hv : op.Valid b)
    (name : String) : (b.perform op).findTopic? name = none ↔
      b.findTopic? name = none ∧ op ≠ .createTopic name := by
  -- A call that leaves the names alone is not the creation of a topic.
  have hkept : (b.perform op).topicNames = b.topicNames → op ≠ .createTopic name →
      ((b.perform op).findTopic? name = none ↔
        b.findTopic? name = none ∧ op ≠ .createTopic name) := by
    intro hnames hne
    unfold findTopic?
    rw [hnames]
    exact ⟨fun h => ⟨h, hne⟩, fun h => h.1⟩
  cases op with
  | createTopic created =>
    refine (b.findTopic?_createTopic created name).trans (and_congr_right fun _ => ?_)
    exact not_congr ⟨fun h => h ▸ rfl, fun h => (Operation.createTopic.inj h).symm⟩
  | addTopic => exact hkept rfl (by rintro ⟨⟩)
  | createQueue created options =>
    refine hkept ?_ (by rintro ⟨⟩)
    rcases b.createQueue_cases created options with h | h
    · rw [perform, h]
    · rw [perform, h]
      rfl
  | addQueue => exact hkept rfl (by rintro ⟨⟩)
  | subscribe topic queue => exact hkept (b.subscribe_names topic queue).1 (by rintro ⟨⟩)
  | subscribeTo topic queue => exact hkept (b.subscribeTo_names topic queue).1 (by rintro ⟨⟩)
  | enqueue | publish | publishTo | receive | acknowledge | nack =>
    exact hkept (sameObjects_perform hb hv rfl).topicNames (by rintro ⟨⟩)

/-- After a valid call, a queue name is unregistered if it was so before, and was not created. -/
theorem findQueue?_perform {b : Broker} (hb : b.Closed) {op : Operation} (hv : op.Valid b)
    (name : String) : (b.perform op).findQueue? name = none ↔
      b.findQueue? name = none ∧ ∀ options, op ≠ .createQueue name options := by
  have hkept : (b.perform op).queueNames = b.queueNames →
      (∀ options, op ≠ .createQueue name options) →
      ((b.perform op).findQueue? name = none ↔
        b.findQueue? name = none ∧ ∀ options, op ≠ .createQueue name options) := by
    intro hnames hne
    unfold findQueue?
    rw [hnames]
    exact ⟨fun h => ⟨h, hne⟩, fun h => h.1⟩
  cases op with
  | createQueue created options =>
    refine (b.findQueue?_createQueue created name options).trans (and_congr_right fun _ => ?_)
    refine ⟨fun hne options' h => hne (Operation.createQueue.inj h).1.symm, fun h he => ?_⟩
    exact h options (he ▸ rfl)
  | createTopic created =>
    refine hkept ?_ (by rintro _ ⟨⟩)
    rcases b.createTopic_cases created with h | h
    · rw [perform, h]
    · rw [perform, h]
      rfl
  | addTopic => exact hkept rfl (by rintro _ ⟨⟩)
  | addQueue => exact hkept rfl (by rintro _ ⟨⟩)
  | subscribe topic queue => exact hkept (b.subscribe_names topic queue).2 (by rintro _ ⟨⟩)
  | subscribeTo topic queue => exact hkept (b.subscribeTo_names topic queue).2 (by rintro _ ⟨⟩)
  | enqueue | publish | publishTo | receive | acknowledge | nack =>
    exact hkept (sameObjects_perform hb hv rfl).queueNames (by rintro _ ⟨⟩)

/-! ## Topics have the names that lead to them -/

/-- Every topic that is registered has the name that it is registered under. -/
def Titled (b : Broker) : Prop := ∀ name ref, b.findTopic? name = some ref → b.nameOf ref = name

/-- A new broker has no names. -/
theorem titled_create (defaults : QueueDefaults) : (create defaults).Titled := by
  intro name ref h
  simp [findTopic?, create] at h

/-- Where names lead to the same topics, and these have kept their names. -/
theorem Titled.of_names {b b' : Broker} (hb : b.Titled) (hc : b.Closed)
    (hnames : b'.topicNames = b.topicNames)
    (hkept : ∀ ref, b.HasTopic ref → b'.nameOf ref = b.nameOf ref) : b'.Titled := by
  intro name ref h
  unfold findTopic? at h
  rw [hnames] at h
  rw [hkept ref (hc.topicNames name ref h)]
  exact hb name ref h

/-- A further topic leaves the names of the others alone. -/
theorem nameOf_addTopic {b : Broker} {ref : TopicRef} (h : b.HasTopic ref) (name : String) :
    (b.addTopic name).2.nameOf ref = b.nameOf ref := by
  unfold nameOf topic? addTopic
  rw [List.getElem?_append_left h]

/-- A subscription leaves the names of all topics alone. -/
theorem nameOf_subscribeTo (b : Broker) (topic : TopicRef) (queue : QueueRef) (ref : TopicRef) :
    (b.subscribeTo topic queue).nameOf ref = b.nameOf ref := by
  cases ht : b.topic? topic with
  | none =>
    unfold subscribeTo
    rw [ht]
  | some t =>
    unfold nameOf
    rw [topic?_subscribeTo ht]
    split
    · rename_i he
      rw [← he, ht]
      rfl
    · rfl

/-- Where the objects are the same, topics have the names that lead to them. -/
theorem SameObjects.titled {b b' : Broker} (h : SameObjects b b') (hb : b.Titled) (hc : b.Closed) :
    b'.Titled :=
  hb.of_names hc h.topicNames fun ref _ => h.nameOf ref

/-- Creating a topic registers it under its name. -/
theorem Titled.createTopic {b : Broker} (hb : b.Titled) (hc : b.Closed) (created : String) :
    (b.createTopic created).2.Titled := by
  rcases b.createTopic_cases created with h | h
  · rw [h]
    exact hb
  · rw [h]
    intro name ref hname
    have hname' : (b.topicNames.insert created ⟨b.topics.length⟩).find? name = some ref := hname
    rw [NameTable.find?_insert] at hname'
    show (b.addTopic created).2.nameOf ref = name
    split at hname'
    · -- The new topic is the last one.
      rename_i he
      obtain rfl := Option.some.inj hname'
      unfold nameOf topic? addTopic
      rw [List.getElem?_concat_length, he]
      rfl
    · rw [nameOf_addTopic (hc.topicNames name ref hname')]
      exact hb name ref hname'

/-- After every valid call, topics have the names that lead to them. -/
theorem Titled.perform {b : Broker} (hb : b.Titled) (hc : b.Closed) {op : Operation}
    (hv : op.Valid b) : (b.perform op).Titled := by
  cases hr : op.registers with
  | false => exact (sameObjects_perform hc hv hr).titled hb hc
  | true =>
    cases op with
    | createTopic name => exact hb.createTopic hc name
    | addTopic name => exact hb.of_names hc rfl fun ref h => nameOf_addTopic h name
    | createQueue name options =>
      rcases b.createQueue_cases name options with h | h
      · rw [Broker.perform, h]
        exact hb
      · rw [Broker.perform, h]
        exact hb.of_names hc rfl fun _ _ => rfl
    | addQueue => exact hb.of_names hc rfl fun _ _ => rfl
    | subscribe topic queue =>
      rcases b.subscribe_cases topic queue with h | ⟨t, q, -, -, h⟩
      · rw [Broker.perform, h]
        exact hb
      · rw [Broker.perform, h]
        exact hb.of_names hc (b.subscribeTo_names t q).1 fun ref _ => b.nameOf_subscribeTo t q ref
    | subscribeTo topic queue =>
      exact hb.of_names hc (b.subscribeTo_names topic queue).1
        fun ref _ => b.nameOf_subscribeTo topic queue ref
    | _ => cases hr

/-- A publication by a name that reaches some queue marks its copies with that name. -/
theorem Titled.mark_of_mem_reached {b : Broker} (hb : b.Titled) {topic : String} {m : Message}
    {deadline : Option Span} {clock : Nat → Span} {target : QueueRef}
    (hr : target ∈ Operation.reached b (.publish topic m deadline clock)) :
    Operation.mark b (.publish topic m deadline clock) = topic := by
  have hmem : target ∈ b.subscribers topic := mem_of_mem_served hr
  show (b.findTopic? topic).elim "" b.nameOf = topic
  unfold subscribers at hmem
  cases hf : b.findTopic? topic with
  | none =>
    rw [hf] at hmem
    exact absurd hmem List.not_mem_nil
  | some ref => exact hb topic ref hf

end MessageBroker.Broker
