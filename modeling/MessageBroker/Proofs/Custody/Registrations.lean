import MessageBroker.Proofs.Broker.Growth
import MessageBroker.Proofs.Custody.Provenance
import MessageBroker.Proofs.Custody.Refusals

/-!
# Registered once, registered for good

The registry of a broker can be told from the run that led to it. A name leads to the object that
its first creation made, under the options of that call, at any later time and whatever others have
done to the object since; the subscribers of a topic are those that the run has subscribed to it;
and the statistics list the queues that the run has created (`Chronicle.registry_only_grows`). The
reason is that each move takes the broker to one that it grows into (`Chronicle.grows_run`).
-/

namespace MessageBroker.Chronicle

open Broker

/-! ## Every move is an addition -/

/-- A move leaves the defaults alone. -/
theorem defaults_apply (c : Chronicle) (v : Move) :
    (c.apply v).broker.defaults = c.broker.defaults := by
  cases v with
  | call op =>
    show (c.perform op).broker.defaults = _
    rw [broker_perform]
    exact c.broker.defaults_perform op
  | deliver | giveBack | land => exact overlooks_apply overlooks_defaults c (by simp)

/-- Every valid move takes the broker to one that it grows into. -/
theorem grows_apply {c : Chronicle} (hc : c.Reachable) {v : Move} (hv : v.Valid c.broker) :
    Grows c.broker (c.apply v).broker := by
  rcases hc.sound.broker_apply_cases hv with ⟨-, hsame⟩ | ⟨op, -, hop, hb⟩
  · exact hsame.grows (c.defaults_apply v)
  · rw [hb]
    exact grows_perform hc.sound.closed hop

/-- Every run takes the broker to one that it grows into. -/
theorem grows_run {c : Chronicle} (hc : c.Reachable) {moves : List Move} (hv : c.Admits moves) :
    Grows c.broker (c.run moves).broker := by
  induction moves generalizing c with
  | nil => exact .refl c.broker
  | cons v rest ih => exact (grows_apply hc hv.1).trans (ih (hc.apply hv.1) hv.2)

/-! ## What a run creates and subscribes -/

/-- The names under which a run asks for queues. -/
def createdQueues (moves : List Move) : List String :=
  moves.filterMap fun v =>
    match v with
    | .call (.createQueue name _) => some name
    | _ => none

/-- The names under which a run asks for topics. -/
def createdTopics (moves : List Move) : List String :=
  moves.filterMap fun v =>
    match v with
    | .call (.createTopic name) => some name
    | _ => none

/-- A name is among those if some call asks for it. -/
theorem mem_createdQueues {moves : List Move} {name : String} :
    name ∈ createdQueues moves ↔ ∃ options, .call (.createQueue name options) ∈ moves := by
  unfold createdQueues
  rw [List.mem_filterMap]
  constructor
  · rintro ⟨v, hv, he⟩
    split at he
    · obtain rfl := Option.some.inj he
      exact ⟨_, hv⟩
    · cases he
  · rintro ⟨options, hv⟩
    exact ⟨_, hv, rfl⟩

/-- A name is among those if some call asks for it. -/
theorem mem_createdTopics {moves : List Move} {name : String} :
    name ∈ createdTopics moves ↔ .call (.createTopic name) ∈ moves := by
  unfold createdTopics
  rw [List.mem_filterMap]
  constructor
  · rintro ⟨v, hv, he⟩
    split at he
    · obtain rfl := Option.some.inj he
      exact hv
    · cases he
  · exact fun hv => ⟨_, hv, rfl⟩

/-- The queues that a move subscribes to a topic object. -/
def Move.subscribes (b : Broker) (t : TopicRef) : Move → List QueueRef
  | .call op => op.subscribes b t
  | _ => []

/-- The queues that a run subscribes to a topic object, in order. -/
def subscriptions (t : TopicRef) (c : Chronicle) : List Move → List QueueRef
  | [] => []
  | v :: rest => v.subscribes c.broker t ++ subscriptions t (c.apply v) rest

/-- After a valid move, a topic has the subscribers it had, and those that the move subscribes. -/
theorem subscribersOf_apply {c : Chronicle} (hs : c.Sound) {v : Move} (hv : v.Valid c.broker)
    (t : TopicRef) : (c.apply v).broker.subscribersOf t =
      c.broker.subscribersOf t ++ v.subscribes c.broker t := by
  cases v with
  | call op =>
    show (c.perform op).broker.subscribersOf t = _
    rw [broker_perform]
    exact subscribersOf_perform hs.closed hv t
  | deliver | giveBack | land =>
    rw [(hs.sameObjects_apply hv rfl).subscribersOf]
    exact (List.append_nil _).symm

/-- After a run, a topic has the subscribers it had, and those that the run subscribes. -/
theorem subscribersOf_run {c : Chronicle} (hc : c.Reachable) {moves : List Move}
    (hv : c.Admits moves) (t : TopicRef) : (c.run moves).broker.subscribersOf t =
      c.broker.subscribersOf t ++ c.subscriptions t moves := by
  induction moves generalizing c with
  | nil => exact (List.append_nil _).symm
  | cons v rest ih =>
    calc (c.run (v :: rest)).broker.subscribersOf t
        = (c.apply v).broker.subscribersOf t ++ (c.apply v).subscriptions t rest :=
          ih (hc.apply hv.1) hv.2
      _ = c.broker.subscribersOf t ++
          (v.subscribes c.broker t ++ (c.apply v).subscriptions t rest) := by
          rw [subscribersOf_apply hc.sound hv.1, List.append_assoc]

/-! ## The registry after a run -/

section Run

variable {defaults : QueueDefaults} {moves : List Move} (hv : (create defaults).Admits moves)
include hv

/-- Unregistered are the queue names under which the run has not asked for queues. -/
theorem findQueue?_eq_none_iff (name : String) :
    ((create defaults).run moves).broker.findQueue? name = none ↔ name ∉ createdQueues moves := by
  rw [findQueue?_run (.create defaults) hv, mem_createdQueues, not_exists]
  exact and_iff_right rfl

/-- Unregistered are the topic names under which the run has not asked for topics. -/
theorem findTopic?_eq_none_iff (name : String) :
    ((create defaults).run moves).broker.findTopic? name = none ↔ name ∉ createdTopics moves := by
  rw [findTopic?_run (.create defaults) hv, mem_createdTopics]
  exact and_iff_right rfl

/-- The broker keeps its defaults. -/
theorem defaults_run : ((create defaults).run moves).broker.defaults = defaults :=
  (grows_run (.create defaults) hv).defaults

omit hv

variable {before after : List Move} {name : String}

/-- The object that a creation returns is registered from then on, and if it is new, it has the
options of that creation from then on. -/
theorem createdQueue_run {options : QueueOptions}
    (hv : (create defaults).Admits (before ++ .call (.createQueue name options) :: after))
    {ref : QueueRef} (href :
      ref = (((create defaults).run before).broker.createQueue name options).1) {b : Broker}
    (hb : b = ((create defaults).run
      (before ++ .call (.createQueue name options) :: after)).broker) :
    b.findQueue? name = some ref ∧ (∀ options', b.createQueue name options' = (ref, b)) ∧
      (name ∉ createdQueues before → b.rules? ref = some (defaults.rules name options)) := by
  obtain ⟨hbefore, hcall, hafter⟩ := (admits_append _ _ _).mp hv
  have hc : ((create defaults).run before).Reachable := (Reachable.create defaults).run hbefore
  -- From the state after the call on, nothing is taken back.
  have hgrows := grows_run (hc.apply hcall) hafter
  have hrun : b = ((((create defaults).run before).apply
      (.call (.createQueue name options))).run after).broker := by
    rw [hb, run_append]
    rfl
  rw [← hrun] at hgrows
  have hfind : b.findQueue? name = some ref := by
    rw [href]
    exact hgrows.queueNames name _ (findQueue?_createQueue_self _ name options)
  refine ⟨hfind, createQueue_of_some hfind, fun hnew => ?_⟩
  have hnone := (findQueue?_eq_none_iff hbefore name).mpr hnew
  have hrules := hgrows.rules _ _ (rules?_createQueue hnone options)
  rw [href, hrules, defaults_run hbefore]

/-- The object that a creation returns is registered from then on, and has that name. -/
theorem createdTopic_run
    (hv : (create defaults).Admits (before ++ .call (.createTopic name) :: after)) {ref : TopicRef}
    (href : ref = (((create defaults).run before).broker.createTopic name).1) {b : Broker}
    (hb : b = ((create defaults).run (before ++ .call (.createTopic name) :: after)).broker) :
    b.findTopic? name = some ref ∧ b.createTopic name = (ref, b) ∧
      (b.topic? ref).map Topic.name = some name := by
  obtain ⟨hbefore, hcall, hafter⟩ := (admits_append _ _ _).mp hv
  have hc : ((create defaults).run before).Reachable := (Reachable.create defaults).run hbefore
  have hgrows := grows_run (hc.apply hcall) hafter
  have hrun : b = ((((create defaults).run before).apply
      (.call (.createTopic name))).run after).broker := by
    rw [hb, run_append]
    rfl
  rw [← hrun] at hgrows
  have hfind : b.findTopic? name = some ref := by
    rw [href]
    exact hgrows.topicNames name _ (findTopic?_createTopic_self _ name)
  refine ⟨hfind, createTopic_of_some hfind, ?_⟩
  -- Topics have the names that lead to them.
  have hreach := (Reachable.create defaults).run hv
  have htitle := hreach.titled name ref (hb ▸ hfind)
  obtain ⟨t, ht⟩ := (hreach.sound.closed.topicNames name ref (hb ▸ hfind)).topic?
  rw [← hb] at htitle ht
  unfold nameOf at htitle
  rw [ht] at htitle ⊢
  exact congrArg some htitle

end Run

/-- In the state after any run.

The object that any creation of a queue or a topic in the run returned is the one that its name
leads to; a further creation under that name returns it again, whatever the options, and changes
nothing; it has that name, and a queue has the options of the first creation, with the defaults of
the broker where none were given. A name leads nowhere exactly if the run has not created it, and
the creation of a topic does not touch the names of queues, nor that of a queue those of topics. The
subscribers of a topic object are the queues that the run has subscribed to it, in order. The
statistics list the names of the created queues in increasing order, each with the counters of the
queue that it leads to, and count the different names that the run has created. -/
theorem registry_only_grows {defaults : QueueDefaults} {moves : List Move}
    (hv : (create defaults).Admits moves) {b : Broker}
    (hb : b = ((create defaults).run moves).broker) :
    (∀ before name options after, moves = before ++ .call (.createQueue name options) :: after →
      ∀ ref, ref = (((create defaults).run before).broker.createQueue name options).1 →
        b.findQueue? name = some ref ∧ (∀ options', b.createQueue name options' = (ref, b)) ∧
        (name ∉ createdQueues before → b.rules? ref = some (defaults.rules name options))) ∧
    (∀ before name after, moves = before ++ .call (.createTopic name) :: after →
      ∀ ref, ref = (((create defaults).run before).broker.createTopic name).1 →
        b.findTopic? name = some ref ∧ b.createTopic name = (ref, b) ∧
        (b.topic? ref).map Topic.name = some name) ∧
    (∀ name, (b.findQueue? name = none ↔ name ∉ createdQueues moves) ∧
      (b.findTopic? name = none ↔ name ∉ createdTopics moves)) ∧
    (∀ name, (b.createTopic name).2.queueNames = b.queueNames ∧
      ∀ options, (b.createQueue name options).2.topicNames = b.topicNames) ∧
    (∀ t, b.subscribersOf t = (create defaults).subscriptions t moves) ∧
    (b.stats.queues.entries.map Prod.fst).Pairwise (· < ·) ∧
    (∀ name, name ∈ b.stats.queues.entries.map Prod.fst ↔ name ∈ createdQueues moves) ∧
    (∀ name s, (name, s) ∈ b.stats.queues.entries ↔
      ∃ ref q, b.findQueue? name = some ref ∧ b.queue? ref = some q ∧ s = q.stats) ∧
    b.stats.queueCount = (createdQueues moves).dedup.length ∧
    b.stats.topicCount = (createdTopics moves).dedup.length := by
  have hc := (Reachable.create defaults).run hv
  have hqueues : ∀ name, name ∈ createdQueues moves ↔ b.findQueue? name ≠ none := fun name => by
    rw [hb, ne_eq, findQueue?_eq_none_iff hv, not_not]
  have htopics : ∀ name, name ∈ createdTopics moves ↔ b.findTopic? name ≠ none := fun name => by
    rw [hb, ne_eq, findTopic?_eq_none_iff hv, not_not]
  refine ⟨?_, ?_, ?_, ?_, ?_, ?_, ?_, b.mem_stats_iff, size_eq_length_dedup hqueues,
    size_eq_length_dedup htopics⟩
  · rintro before name options after rfl ref href
    exact createdQueue_run hv href hb
  · rintro before name after rfl ref href
    exact createdTopic_run hv href hb
  · intro name
    rw [hb]
    exact ⟨findQueue?_eq_none_iff hv name, findTopic?_eq_none_iff hv name⟩
  · intro name
    refine ⟨?_, fun options => ?_⟩
    · rcases b.createTopic_cases name with h | h <;> rw [h]
      rfl
    · rcases b.createQueue_cases name options with h | h <;> rw [h]
      rfl
  · intro t
    rw [hb, subscribersOf_run (.create defaults) hv]
    rfl
  · exact List.pairwise_map.mpr b.stats.queues.increasing
  · intro name
    rw [map_fst_stats (hb ▸ hc.sound.closed), hqueues]
    exact NameTable.mem_names_iff

/-- A run that creates a queue twice, under other options the second time, and subscribes it twice
to a topic of the same name. -/
def askedTwice : List Move :=
  [.call (.createQueue "audit" { maxRetries := some 5 }),
    .call (.createTopic "audit"),
    .call (.subscribe "audit" "audit"),
    .call (.enqueue ⟨0⟩ (.create (.text "m") "order" [] .first)),
    .call (.createQueue "audit" { maxRetries := some 9 }),
    .call (.subscribe "missing" "audit"),
    .call (.subscribeTo ⟨0⟩ ⟨0⟩)]

/-- In that run the first creation counts, and the topic has two subscriptions. -/
theorem registry_only_grows_askedTwice :
    ∃ b, b = ((create .standard).run askedTwice).broker ∧
      b.findQueue? "audit" = some ⟨0⟩ ∧
      b.rules? ⟨0⟩ = some ⟨"audit", .ofSeconds 30, 5, none⟩ ∧
      b.subscribersOf ⟨0⟩ = [⟨0⟩, ⟨0⟩] ∧ b.stats.queueCount = 1 := by
  have hv : (create .standard).Admits askedTwice := by decide
  obtain ⟨hqueue, -, -, -, hsubscribers, -, -, -, hcount, -⟩ := registry_only_grows hv rfl
  obtain ⟨hfind, -, hrules⟩ := hqueue [] "audit" { maxRetries := some 5 } _ rfl ⟨0⟩ rfl
  refine ⟨_, rfl, hfind, hrules List.not_mem_nil, ?_, ?_⟩
  · rw [hsubscribers]
    decide
  · rw [hcount]
    decide

end MessageBroker.Chronicle
