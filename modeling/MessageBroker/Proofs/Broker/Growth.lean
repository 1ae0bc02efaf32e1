import Mathlib.Data.List.Dedup
import MessageBroker.Proofs.Broker.Observation
import MessageBroker.Proofs.Broker.Registry

/-!
# The registry only grows

Nothing that is registered ever goes away or changes: names keep leading to the objects they lead
to, queues keep their options, topics their names, and subscriptions are only added at the end.
`Grows` says so of two states, and every valid call takes a broker to one that it grows into
(`grows_perform`).

What a call adds is known as well. A name leads to the object that its creation returned, which has
the options of the call if it is new, and the broker's defaults where none were given
(`rules?_createQueue`). A call adds to the subscribers of a topic the queue that it subscribes
(`subscribersOf_perform`). The statistics list the registered queues (`mem_stats_iff`).
-/

namespace MessageBroker

/-- The options of a new queue: those that are given, and the defaults for the others. -/
def QueueDefaults.rules (d : QueueDefaults) (name : String) (options : QueueOptions) : QueueRules :=
  ⟨name, options.visibilityTimeout.getD d.visibilityTimeout, options.maxRetries.getD d.maxRetries,
    options.deadLetters⟩

namespace Broker

/-! ## The defaults stay -/

/-- The defaults depend on no queue. -/
theorem overlooks_defaults : Overlooks Broker.defaults := ⟨fun _ _ => rfl, fun _ _ _ _ => rfl⟩

/-- A subscription leaves the defaults alone. -/
theorem defaults_subscribeTo (b : Broker) (topic : TopicRef) (queue : QueueRef) :
    (b.subscribeTo topic queue).defaults = b.defaults := by
  unfold subscribeTo
  split <;> rfl

/-- A call leaves the defaults alone. -/
theorem defaults_perform (b : Broker) (op : Operation) : (b.perform op).defaults = b.defaults := by
  cases op with
  | createTopic name =>
    rcases b.createTopic_cases name with h | h
    · rw [perform, h]
    · rw [perform, h]
      rfl
  | createQueue name options =>
    rcases b.createQueue_cases name options with h | h
    · rw [perform, h]
    · rw [perform, h]
      rfl
  | addTopic | addQueue => rfl
  | subscribeTo topic queue => exact b.defaults_subscribeTo topic queue
  | subscribe topic queue =>
    rcases b.subscribe_cases topic queue with h | ⟨t, q, -, -, h⟩
    · rw [perform, h]
    · rw [perform, h]
      exact b.defaults_subscribeTo t q
  | acknowledge queue handle =>
    show (b.orUnchanged (b.acknowledge queue handle)).defaults = b.defaults
    unfold acknowledge
    split <;> rfl
  | enqueue | publish | publishTo | receive | nack =>
    exact overlooks_defaults.perform b rfl (by simp)

/-! ## Growing -/

/-- Whatever the first state has registered, the second has as well: the same objects under the same
names, under the same options. Topics may have got further subscribers. -/
structure Grows (b b' : Broker) : Prop where
  defaults : b'.defaults = b.defaults
  queueNames : ∀ name ref, b.findQueue? name = some ref → b'.findQueue? name = some ref
  topicNames : ∀ name ref, b.findTopic? name = some ref → b'.findTopic? name = some ref
  rules : ∀ ref r, b.rules? ref = some r → b'.rules? ref = some r
  topics : ∀ ref t, b.topic? ref = some t →
    ∃ new, b'.topic? ref = some ⟨t.name, t.subscribers ++ new⟩

namespace Grows

variable {b b' b'' : Broker}

/-- A state has what it has. -/
theorem refl (b : Broker) : Grows b b :=
  ⟨rfl, fun _ _ h => h, fun _ _ h => h, fun _ _ h => h, fun _ t h => ⟨[], by
    rw [List.append_nil]
    exact h⟩⟩

/-- Two steps of growth are one. -/
theorem trans (h : Grows b b') (h' : Grows b' b'') : Grows b b'' := by
  refine ⟨h'.defaults.trans h.defaults,
    fun name ref hn => h'.queueNames name ref (h.queueNames name ref hn),
    fun name ref hn => h'.topicNames name ref (h.topicNames name ref hn),
    fun ref r hr => h'.rules ref r (h.rules ref r hr), fun ref t ht => ?_⟩
  obtain ⟨new, hnew⟩ := h.topics ref t ht
  obtain ⟨more, hmore⟩ := h'.topics ref _ hnew
  exact ⟨new ++ more, by rw [hmore, List.append_assoc]⟩

end Grows

/-- Where the objects stay the same, there is nothing new. -/
theorem SameObjects.grows {b b' : Broker} (h : SameObjects b b')
    (hd : b'.defaults = b.defaults) : Grows b b' := by
  refine ⟨hd, fun name ref hn => ?_, fun name ref hn => ?_, fun ref r hr => ?_, fun ref t ht => ?_⟩
  · unfold findQueue?
    rw [h.queueNames]
    exact hn
  · unfold findTopic?
    rw [h.topicNames]
    exact hn
  · rw [h.rules]
    exact hr
  · unfold topic?
    rw [h.topics]
    exact ⟨[], by rw [List.append_nil]; exact ht⟩

/-! ## What calls add -/

/-- What is registered under a name leads to the same object as before, unless the name is new. -/
theorem find?_insert_of_some {α : Type} {table : NameTable α} {created name : String} {ref new : α}
    (hnew : table.find? created = none) (h : table.find? name = some ref) :
    (table.insert created new).find? name = some ref := by
  have hne : name ≠ created := fun he => by rw [he, hnew] at h; cases h
  rw [NameTable.find?_insert_ne _ hne]
  exact h

/-- Only an object that exists has options. -/
theorem hasQueue_of_rules? {b : Broker} {ref : QueueRef} {r : QueueRules}
    (h : b.rules? ref = some r) : b.HasQueue ref := by
  obtain ⟨q, hq, -⟩ := queue?_of_rules? h
  exact hasQueue_of_queue? hq

/-- A further queue object is an addition. -/
theorem grows_addQueue (b : Broker) (q : Queue) : Grows b (b.addQueue q).2 := by
  refine ⟨rfl, fun _ _ h => h, fun _ _ h => h, fun ref r hr => ?_, fun ref t ht => ⟨[], ?_⟩⟩
  · rw [rules?_addQueue, if_neg (Nat.ne_of_lt (hasQueue_of_rules? hr))]
    exact hr
  · rw [List.append_nil]
    exact ht

/-- A further topic object is an addition. -/
theorem grows_addTopic (b : Broker) (name : String) : Grows b (b.addTopic name).2 := by
  refine ⟨rfl, fun _ _ h => h, fun _ _ h => h, fun _ _ h => h, fun ref t ht => ⟨[], ?_⟩⟩
  have hlt : ref.index < b.topics.length := (List.getElem?_eq_some_iff.mp ht).1
  rw [List.append_nil]
  exact (List.getElem?_append_left hlt).trans ht

/-- A creation that finds the name taken returns its object, and changes nothing. -/
theorem createQueue_of_some {b : Broker} {name : String} {ref : QueueRef}
    (h : b.findQueue? name = some ref) (options : QueueOptions) :
    b.createQueue name options = (ref, b) := by
  unfold createQueue
  rw [h]

/-- A creation under a new name adds an object and names it. -/
theorem createQueue_of_none {b : Broker} {name : String} (h : b.findQueue? name = none)
    (options : QueueOptions) : b.createQueue name options =
      (⟨b.queues.length⟩, { (b.addQueue (b.newQueue name options)).2 with
        queueNames := b.queueNames.insert name ⟨b.queues.length⟩ }) := by
  unfold createQueue
  rw [h]
  rfl

/-- A creation that finds the name taken returns its object, and changes nothing. -/
theorem createTopic_of_some {b : Broker} {name : String} {ref : TopicRef}
    (h : b.findTopic? name = some ref) : b.createTopic name = (ref, b) := by
  unfold createTopic
  rw [h]

/-- A creation under a new name adds an object and names it. -/
theorem createTopic_of_none {b : Broker} {name : String} (h : b.findTopic? name = none) :
    b.createTopic name = (⟨b.topics.length⟩, { (b.addTopic name).2 with
      topicNames := b.topicNames.insert name ⟨b.topics.length⟩ }) := by
  unfold createTopic
  rw [h]
  rfl

/-- After its creation a name leads to the object that was returned. -/
theorem findQueue?_createQueue_self (b : Broker) (name : String) (options : QueueOptions) :
    (b.createQueue name options).2.findQueue? name = some (b.createQueue name options).1 := by
  cases h : b.findQueue? name with
  | some ref =>
    rw [createQueue_of_some h]
    exact h
  | none =>
    rw [createQueue_of_none h]
    exact NameTable.find?_insert_self _ _ _

/-- After its creation a name leads to the object that was returned. -/
theorem findTopic?_createTopic_self (b : Broker) (name : String) :
    (b.createTopic name).2.findTopic? name = some (b.createTopic name).1 := by
  cases h : b.findTopic? name with
  | some ref =>
    rw [createTopic_of_some h]
    exact h
  | none =>
    rw [createTopic_of_none h]
    exact NameTable.find?_insert_self _ _ _

/-- A queue that is created under a new name has the options of the call, and the defaults where
none were given. -/
theorem rules?_createQueue {b : Broker} {name : String} (h : b.findQueue? name = none)
    (options : QueueOptions) :
    (b.createQueue name options).2.rules? (b.createQueue name options).1 =
      some (b.defaults.rules name options) := by
  rw [createQueue_of_none h]
  exact (rules?_addQueue b (b.newQueue name options) _).trans (if_pos rfl)

/-- The creation of a queue is an addition. -/
theorem grows_createQueue (b : Broker) (name : String) (options : QueueOptions) :
    Grows b (b.createQueue name options).2 := by
  cases h : b.findQueue? name with
  | some ref =>
    rw [createQueue_of_some h]
    exact .refl b
  | none =>
    have hadd := b.grows_addQueue (b.newQueue name options)
    rw [createQueue_of_none h]
    exact ⟨rfl, fun _ _ hn => find?_insert_of_some h hn, hadd.topicNames, hadd.rules, hadd.topics⟩

/-- The creation of a topic is an addition. -/
theorem grows_createTopic (b : Broker) (name : String) : Grows b (b.createTopic name).2 := by
  cases h : b.findTopic? name with
  | some ref =>
    rw [createTopic_of_some h]
    exact .refl b
  | none =>
    have hadd := b.grows_addTopic name
    rw [createTopic_of_none h]
    exact ⟨rfl, hadd.queueNames, fun _ _ hn => find?_insert_of_some h hn, hadd.rules, hadd.topics⟩

/-- A subscription is an addition. -/
theorem grows_subscribeTo (b : Broker) (topic : TopicRef) (queue : QueueRef) :
    Grows b (b.subscribeTo topic queue) := by
  cases ht : b.topic? topic with
  | none =>
    unfold subscribeTo
    rw [ht]
    exact .refl b
  | some t =>
    obtain ⟨htopics, hqueues⟩ := b.subscribeTo_names topic queue
    refine ⟨b.defaults_subscribeTo topic queue, fun name ref hn => ?_, fun name ref hn => ?_,
      fun ref r hr => ?_, fun ref t' ht' => ?_⟩
    · unfold findQueue?
      rw [hqueues]
      exact hn
    · unfold findTopic?
      rw [htopics]
      exact hn
    · unfold rules? queue?
      rw [(b.subscribeTo_queues topic queue).1]
      exact hr
    · rw [topic?_subscribeTo ht]
      split
      · rename_i he
        obtain rfl := Option.some.inj ((he ▸ ht).symm.trans ht')
        exact ⟨[queue], rfl⟩
      · exact ⟨[], by rw [List.append_nil]; exact ht'⟩

/-- Every valid call takes a broker to one that it grows into. -/
theorem grows_perform {b : Broker} (hb : b.Closed) {op : Operation} (hv : op.Valid b) :
    Grows b (b.perform op) := by
  cases hr : op.registers with
  | false => exact (sameObjects_perform hb hv hr).grows (b.defaults_perform op)
  | true =>
    cases op with
    | createTopic name => exact b.grows_createTopic name
    | addTopic name => exact b.grows_addTopic name
    | createQueue name options => exact b.grows_createQueue name options
    | addQueue => exact b.grows_addQueue _
    | subscribe topic queue =>
      rcases b.subscribe_cases topic queue with h | ⟨t, q, -, -, h⟩
      · rw [perform, h]
        exact .refl b
      · rw [perform, h]
        exact b.grows_subscribeTo t q
    | subscribeTo topic queue => exact b.grows_subscribeTo topic queue
    | _ => cases hr

/-! ## Subscriptions -/

end Broker

/-- The queues that a call subscribes to a topic object: one if the call is accepted and about that
topic. -/
def Operation.subscribes (b : Broker) (t : TopicRef) : Operation → List QueueRef
  | .subscribe topic queue =>
    match b.subscribe topic queue with
    | .ok _ => if b.findTopic? topic = some t then (b.findQueue? queue).toList else []
    | .error _ => []
  | .subscribeTo topic queue => if topic = t then [queue] else []
  | _ => []

namespace Broker

/-- Where the topics are the same, so are their subscribers. -/
theorem subscribersOf_of_topics {b b' : Broker} (h : b'.topics = b.topics) (t : TopicRef) :
    b'.subscribersOf t = b.subscribersOf t := by
  unfold subscribersOf topic?
  rw [h]

/-- A further topic has no subscribers. -/
theorem subscribersOf_addTopic (b : Broker) (name : String) (t : TopicRef) :
    (b.addTopic name).2.subscribersOf t = b.subscribersOf t := by
  unfold subscribersOf topic? addTopic
  rw [List.getElem?_append]
  split
  · rfl
  · rename_i hge
    rw [List.getElem?_eq_none (Nat.not_lt.mp hge)]
    cases t.index - b.topics.length with
    | zero => rfl
    | succ k => rfl

/-- A subscription adds its queue at the end. -/
theorem subscribersOf_subscribeTo {b : Broker} {topic : TopicRef} (h : b.HasTopic topic)
    (queue : QueueRef) (t : TopicRef) : (b.subscribeTo topic queue).subscribersOf t =
      b.subscribersOf t ++ if topic = t then [queue] else [] := by
  obtain ⟨x, hx⟩ := h.topic?
  unfold subscribersOf
  rw [topic?_subscribeTo hx]
  split
  · rename_i he
    rw [← he, hx]
    rfl
  · rw [List.append_nil]

/-- After a valid call, a topic has the subscribers it had, and those that the call subscribes. -/
theorem subscribersOf_perform {b : Broker} (hb : b.Closed) {op : Operation} (hv : op.Valid b)
    (t : TopicRef) :
    (b.perform op).subscribersOf t = b.subscribersOf t ++ op.subscribes b t := by
  have hkept : (b.perform op).topics = b.topics →
      (b.perform op).subscribersOf t = b.subscribersOf t ++ [] := fun h => by
    rw [List.append_nil, subscribersOf_of_topics h]
  cases op with
  | createTopic name =>
    rcases b.createTopic_cases name with h | h
    · exact hkept (by rw [perform, h])
    · rw [perform, h]
      exact (b.subscribersOf_addTopic name t).trans (List.append_nil _).symm
  | addTopic name => exact (b.subscribersOf_addTopic name t).trans (List.append_nil _).symm
  | createQueue name options =>
    rcases b.createQueue_cases name options with h | h
    · exact hkept (by rw [perform, h])
    · exact hkept (by rw [perform, h]; rfl)
  | addQueue => exact hkept rfl
  | subscribe topic queue =>
    simp only [perform, Operation.subscribes]
    cases ht : b.findTopic? topic with
    | none =>
      have hs : b.subscribe topic queue = .error (.topicNotFound topic) := by
        unfold subscribe
        rw [ht]
      rw [hs]
      exact (List.append_nil _).symm
    | some x =>
      cases hq : b.findQueue? queue with
      | none =>
        have hs : b.subscribe topic queue = .error (.queueNotFound queue) := by
          unfold subscribe
          rw [ht, hq]
        rw [hs]
        exact (List.append_nil _).symm
      | some q =>
        have hs : b.subscribe topic queue = .ok (b.subscribeTo x q) := by
          unfold subscribe
          rw [ht, hq]
        rw [hs]
        simp only [Option.some.injEq, Option.toList_some]
        exact subscribersOf_subscribeTo (hb.topicNames topic x ht) q t
  | subscribeTo topic queue =>
    exact subscribersOf_subscribeTo (hv.2 topic (List.mem_singleton_self _)) queue t
  | enqueue | publish | publishTo | receive | acknowledge | nack =>
    exact hkept (sameObjects_perform hb hv rfl).topics

/-! ## Statistics -/

/-- What the statistics list for a registered name: the counters of its object. -/
def listed (b : Broker) (entry : String × QueueRef) : Option (String × QueueStats) :=
  (b.queue? entry.2).map fun q => (entry.1, q.stats)

/-- An entry of the statistics has the name of the registered queue. -/
theorem fst_of_listed {b : Broker} {x : String × QueueRef} {e : String × QueueStats}
    (h : b.listed x = some e) : e.1 = x.1 := by
  obtain ⟨q, -, rfl⟩ := Option.map_eq_some_iff.mp h
  rfl

/-- The statistics list the registered queues in order of name. -/
theorem entries_stats (b : Broker) :
    b.stats.queues.entries = b.queueNames.entries.filterMap b.listed := by
  refine NameTable.entries_ofList ?_
  refine List.pairwise_filterMap.mpr (b.queueNames.increasing.imp ?_)
  intro x y hlt e he e' he'
  rw [fst_of_listed he, fst_of_listed he']
  exact hlt

/-- An entry of the statistics is that of a registered queue: its name and its own counters. -/
theorem mem_stats_iff (b : Broker) (name : String) (s : QueueStats) :
    (name, s) ∈ b.stats.queues.entries ↔
      ∃ ref q, b.findQueue? name = some ref ∧ b.queue? ref = some q ∧ s = q.stats := by
  rw [entries_stats, List.mem_filterMap]
  constructor
  · rintro ⟨⟨key, ref⟩, hmem, he⟩
    obtain ⟨q, hq, heq⟩ := Option.map_eq_some_iff.mp he
    obtain ⟨rfl, rfl⟩ := Prod.mk.inj heq
    exact ⟨ref, q, NameTable.mem_entries_iff.mp hmem, hq, rfl⟩
  · rintro ⟨ref, q, hf, hq, rfl⟩
    refine ⟨(name, ref), NameTable.mem_entries_iff.mpr hf, ?_⟩
    exact Option.map_eq_some_iff.mpr ⟨q, hq, rfl⟩

/-- Every registered name is listed, and no other. -/
theorem map_fst_stats {b : Broker} (hb : b.Closed) :
    b.stats.queues.entries.map Prod.fst = b.queueNames.entries.map Prod.fst := by
  -- Every name leads to an object.
  have hlisted : ∀ x ∈ b.queueNames.entries, (b.listed x).map Prod.fst = some x.1 := by
    intro x hx
    have hhas : b.HasQueue x.2 := hb.queueNames x.1 x.2 (NameTable.mem_entries_iff.mp hx)
    obtain ⟨q, hq⟩ := hhas.queue?
    unfold listed
    rw [hq]
    rfl
  rw [entries_stats, List.map_filterMap, ← List.filterMap_eq_map]
  exact List.filterMap_congr hlisted

/-- A table has as many entries as a list of its names has different members. -/
theorem size_eq_length_dedup {α : Type} {table : NameTable α} {names : List String}
    (h : ∀ name, name ∈ names ↔ table.find? name ≠ none) : table.size = names.dedup.length := by
  have hnodup : (table.entries.map Prod.fst).Nodup := by
    refine List.Pairwise.map _ (fun x y hlt he => ?_) table.increasing
    exact String.lt_irrefl _ (he ▸ hlt)
  have hperm : (table.entries.map Prod.fst).Perm names.dedup := by
    refine (List.perm_ext_iff_of_nodup hnodup names.nodup_dedup).mpr fun name => ?_
    rw [List.mem_dedup, h, NameTable.mem_names_iff]
  rw [← hperm.length_eq, List.length_map]
  rfl

end Broker

end MessageBroker
