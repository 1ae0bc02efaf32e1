import MessageBroker.Proofs.Broker.Standing

/-!
# The copies of a publication

A publication puts one copy of its message in the queue of each subscription, so a queue that is
subscribed several times gets several. `copies` lists them in the order of the subscriptions, each
with the queue it goes to, and `queue?_deliverAll` says what the deliveries leave behind: every
queue object holds what it held, and behind that its own copies, and nothing else about it has
changed but the count of what it received. `publishTo_fans_out` puts this together with what a copy
is (`IsCopyFor`), and with the identifiers that went into the copies, which are all new.
-/

namespace MessageBroker

namespace Queue

/-- Puts several messages behind the others, in order. -/
def enqueueAll (q : Queue) (ms : List Message) : Queue :=
  { q with messages := q.messages ++ ms, received := q.received + ms.length }

@[simp] theorem enqueueAll_nil (q : Queue) : q.enqueueAll [] = q := by
  unfold enqueueAll
  rw [List.append_nil]
  rfl

/-- No messages are put in a queue object, if there is one. -/
theorem map_enqueueAll_nil (q? : Option Queue) : q?.map (·.enqueueAll []) = q? := by
  cases q? with
  | none => rfl
  | some q => rw [Option.map_some, enqueueAll_nil]

/-- One message after the other. -/
theorem enqueueAll_enqueue (q : Queue) (m : Message) (ms : List Message) :
    (q.enqueue m).enqueueAll ms = q.enqueueAll (m :: ms) := by
  unfold enqueueAll enqueue
  simp only [List.append_assoc, List.cons_append, List.nil_append, List.length_cons]
  rw [Nat.add_assoc, Nat.add_comm 1]

/-- Some messages, and then others. -/
theorem enqueueAll_enqueueAll (q : Queue) (ms ms' : List Message) :
    (q.enqueueAll ms).enqueueAll ms' = q.enqueueAll (ms ++ ms') := by
  unfold enqueueAll
  simp only [List.append_assoc, List.length_append, Nat.add_assoc]

end Queue

namespace Message

/-- A message is a fork of another under some marks: it has its type, payload and time of creation,
was never leased, and its metadata are those of the other but for the marks, which replace earlier
entries. -/
structure IsMarkedFork (copy m : Message) (marks : List (String × Ident)) : Prop where
  kind : copy.kind = m.kind
  payload : copy.payload = m.payload
  createdAt : copy.createdAt = m.createdAt
  retryCount : copy.retryCount = 0
  hiddenUntil : copy.hiddenUntil = none
  receipt : copy.receipt = none
  marked : ∀ mark ∈ marks, copy.metadata.find? mark.1 = some mark.2
  others : ∀ key, (∀ mark ∈ marks, key ≠ mark.1) →
    copy.metadata.find? key = m.metadata.find? key

/-- A fork that is marked under two keys. -/
theorem isMarkedFork_setMetadata (m : Message) (id : Ident) {key key' : String} (hne : key ≠ key')
    (value value' : Ident) :
    IsMarkedFork (((m.fork id).setMetadata key value).setMetadata key' value') m
      [(key, value), (key', value')] := by
  refine ⟨rfl, rfl, rfl, rfl, rfl, rfl, ?_, fun other hother => ?_⟩
  · intro mark hmark
    rcases List.mem_cons.mp hmark with rfl | hmark
    · calc ((m.metadata.insert key value).insert key' value').find? key
          = (m.metadata.insert key value).find? key := NameTable.find?_insert_ne _ hne _
        _ = some value := NameTable.find?_insert_self _ _ _
    · rw [List.mem_singleton.mp hmark]
      exact NameTable.find?_insert_self _ _ _
  · have hkey := hother (key, value) List.mem_cons_self
    have hkey' := hother (key', value') (List.mem_cons_of_mem _ List.mem_cons_self)
    calc ((m.metadata.insert key value).insert key' value').find? other
        = (m.metadata.insert key value).find? other := NameTable.find?_insert_ne _ hkey' _
      _ = m.metadata.find? other := NameTable.find?_insert_ne _ hkey _

end Message

namespace Broker

/-- A message that has an id keeps it. -/
theorem identify_eq_self {m : Message} (h : m.id ≠ .blank) (b : Broker) :
    b.identify m = (m, b) := by
  unfold identify
  rw [if_neg h]

/-! ## One copy -/

/-- What a copy for a subscriber is: a fork, marked with the topic it came through and with a
generated delivery id. -/
def IsCopyFor (copy : Message) (topic : String) (m : Message) : Prop :=
  ∃ number, copy.IsMarkedFork m
    [(sourceTopicKey, .text topic), (deliveryIdKey, .generated number)]

/-- The copy that takes its id and its delivery id from a mint. -/
def markedCopy (mint : Mint) (topic : String) (m : Message) : Message :=
  ((m.fork mint.next).setMetadata sourceTopicKey (.text topic)).setMetadata deliveryIdKey
    mint.advance.next

/-- A marked copy is a copy for the topic, whatever marks the message had. -/
theorem markedCopy_isCopyFor (mint : Mint) (topic : String) (m : Message) :
    IsCopyFor (markedCopy mint topic m) topic m :=
  ⟨mint.issued + 1, m.isMarkedFork_setMetadata mint.next (by decide) _ _⟩

/-- The delivery id of a marked copy is the second identifier that it takes. -/
theorem getMetadata_markedCopy (mint : Mint) (topic : String) (m : Message) :
    (markedCopy mint topic m).getMetadata deliveryIdKey = mint.advance.next := by
  have hfind : (markedCopy mint topic m).metadata.find? deliveryIdKey = some mint.advance.next :=
    NameTable.find?_insert_self _ _ _
  unfold Message.getMetadata
  rw [hfind]
  rfl

/-- A delivery puts the next marked copy behind the messages of its queue. -/
theorem deliver_eq {b : Broker} {target : QueueRef} {q : Queue} (hq : b.queue? target = some q)
    (topic : String) (m : Message) : b.deliver topic m target =
      { b.setQueue target (q.enqueue (markedCopy b.mint topic m)) with
        mint := b.mint.advance.advance } := by
  have hid : (markedCopy b.mint topic m).id ≠ .blank := fun h => nomatch h
  have hq' : ({ b with mint := b.mint.advance.advance } : Broker).queue? target = some q := hq
  show ({ b with mint := b.mint.advance.advance } : Broker).enqueue target
    (markedCopy b.mint topic m) = _
  unfold enqueue put
  rw [identify_eq_self hid]
  simp only [hq']
  rfl

/-- A delivery changes one queue object, by the next marked copy. -/
theorem deliver_changes_markedCopy {b : Broker} {target : QueueRef} {q : Queue}
    (hq : b.queue? target = some q) (topic : String) (m : Message) :
    Changes b (b.deliver topic m target) target q (q.enqueue (markedCopy b.mint topic m)) := by
  have hset := changes_setQueue hq (q.enqueue (markedCopy b.mint topic m)) rfl
  rw [deliver_eq hq]
  exact hset.generate (Nat.le_add_right b.mint.issued 2)

/-! ## All copies -/

/-- The copies for the listed queues in turn, each with the queue it goes to, when their identifiers
come from that mint. -/
def copies (topic : String) (m : Message) : Mint → List QueueRef → List (QueueRef × Message)
  | _, [] => []
  | mint, target :: rest =>
    (target, markedCopy mint topic m) :: copies topic m mint.advance.advance rest

/-- The messages that go to one queue, in order. -/
def addressed (ref : QueueRef) (mail : List (QueueRef × Message)) : List Message :=
  (mail.filter fun c => c.1 = ref).map Prod.snd

/-- There is one copy for each place of the list. -/
theorem map_fst_copies (topic : String) (m : Message) (mint : Mint) (targets : List QueueRef) :
    (copies topic m mint targets).map Prod.fst = targets := by
  induction targets generalizing mint with
  | nil => rfl
  | cons target rest ih =>
    rw [copies, List.map_cons, ih]

/-- As many messages go to a queue as it occurs among the addresses. -/
theorem length_addressed (ref : QueueRef) (mail : List (QueueRef × Message)) :
    (addressed ref mail).length = (mail.map Prod.fst).count ref := by
  unfold addressed
  rw [List.length_map, ← List.countP_eq_length_filter, List.count_eq_countP, List.countP_map]
  rfl

/-- Each of the copies is one for the topic. -/
theorem isCopyFor_of_mem_copies {topic : String} {m : Message} {mint : Mint}
    {targets : List QueueRef} {c : QueueRef × Message} (h : c ∈ copies topic m mint targets) :
    IsCopyFor c.2 topic m := by
  induction targets generalizing mint with
  | nil => exact absurd h List.not_mem_nil
  | cons target rest ih =>
    rcases List.mem_cons.mp h with rfl | h
    · exact markedCopy_isCopyFor mint topic m
    · exact ih h

/-- The ids and delivery ids of the copies, in turn, are the next identifiers of the mint. -/
theorem idents_copies (topic : String) (m : Message) (mint : Mint) (targets : List QueueRef) :
    (copies topic m mint targets).flatMap (fun c => [c.2.id, c.2.getMetadata deliveryIdKey]) =
      mint.upcoming (2 * targets.length) := by
  induction targets generalizing mint with
  | nil => rfl
  | cons target rest ih =>
    rw [copies, List.flatMap_cons, ih, getMetadata_markedCopy, List.length_cons, Nat.mul_succ,
      Mint.upcoming_add_two]
    rfl

/-- There is no copy for a queue that is not in the list. -/
theorem addressed_copies_of_not_mem {ref : QueueRef} {targets : List QueueRef}
    (hnot : ref ∉ targets) (topic : String) (m : Message) (mint : Mint) :
    addressed ref (copies topic m mint targets) = [] := by
  rw [← List.length_eq_zero_iff, length_addressed, map_fst_copies, List.count_eq_zero]
  exact hnot

/-- A fan-out to a shorter list makes the first of the copies. -/
theorem copies_take (topic : String) (m : Message) (mint : Mint) (targets : List QueueRef)
    (k : Nat) : copies topic m mint (targets.take k) = (copies topic m mint targets).take k := by
  induction targets generalizing mint k with
  | nil => simp [copies]
  | cons target rest ih =>
    cases k with
    | zero => rfl
    | succ k => rw [List.take_succ_cons, copies, copies, ih, List.take_succ_cons]

/-! ## What deliveries leave behind -/

section Deliveries

variable {b : Broker} {targets : List QueueRef} (ht : ∀ target ∈ targets, b.HasQueue target)
  (topic : String) (m : Message)
include ht

/-- Deliveries put the copies for a queue behind its messages, and change no queue otherwise. -/
theorem queue?_deliverAll (ref : QueueRef) : (deliverAll topic m targets b).queue? ref =
    (b.queue? ref).map (·.enqueueAll (addressed ref (copies topic m b.mint targets))) := by
  induction targets generalizing b with
  | nil =>
    show b.queue? ref = (b.queue? ref).map (·.enqueueAll [])
    rw [Queue.map_enqueueAll_nil]
  | cons target rest ih =>
    obtain ⟨q, hq⟩ := (ht target List.mem_cons_self).queue?
    have hc := deliver_changes_markedCopy hq topic m
    have hmint : (b.deliver topic m target).mint = b.mint.advance.advance := by
      rw [deliver_eq hq]
    have hrest := ih fun r hr => (hc.hasQueue r).mpr (ht r (List.mem_cons_of_mem _ hr))
    rw [deliverAll_cons, hrest, hmint, hc.queue?, copies]
    by_cases he : ref = target
    · -- The first copy is for this queue.
      subst he
      rw [if_pos rfl, hq, Option.map_some, Option.map_some, Queue.enqueueAll_enqueue]
      unfold addressed
      rw [List.filter_cons_of_pos (by simp), List.map_cons]
    · rw [if_neg he]
      unfold addressed
      rw [List.filter_cons_of_neg (by simpa using Ne.symm he)]

/-- Deliveries take two identifiers for each copy, and leave the defaults alone. -/
theorem issued_deliverAll :
    (deliverAll topic m targets b).mint.issued = b.mint.issued + 2 * targets.length ∧
      (deliverAll topic m targets b).defaults = b.defaults := by
  induction targets generalizing b with
  | nil => exact ⟨rfl, rfl⟩
  | cons target rest ih =>
    obtain ⟨q, hq⟩ := (ht target List.mem_cons_self).queue?
    have hc := deliver_changes_markedCopy hq topic m
    obtain ⟨hmint, hdefaults⟩ := ih fun r hr => (hc.hasQueue r).mpr (ht r (List.mem_cons_of_mem _ hr))
    rw [deliverAll_cons, hmint, hdefaults, deliver_eq hq]
    refine ⟨?_, rfl⟩
    show b.mint.issued + 1 + 1 + 2 * rest.length = b.mint.issued + 2 * (rest.length + 1)
    omega

end Deliveries

/-- A publication to a topic returns the number of its subscriptions. It makes one copy of the
message for each of them, and puts it behind the messages of the queue subscribed: each queue gets
as many as it occurs in the list, in order, its count of received messages grows by that number,
and nothing else about it changes. What a queue held stays, the published message among it. The ids
and delivery ids of the copies are generated by this publication, differ from each other, and from
the id of the message. Topics and registry stay as they are. -/
theorem publishTo_fans_out {b : Broker} {topic : TopicRef} {t : Topic} (ht : b.topic? topic = some t)
    (hall : ∀ target ∈ t.subscribers, b.HasQueue target) (m : Message)
    (hid : ¬ b.mint.Pending m.id) (clock : Nat → Span) :
    ∃ (b' : Broker) (mail : List (QueueRef × Message)),
      b.publishTo topic m none clock = (.ok t.subscribers.length, b') ∧
      mail.map Prod.fst = t.subscribers ∧
      (∀ c ∈ mail, IsCopyFor c.2 t.name m) ∧
      (∀ ref q, b.queue? ref = some q →
        (addressed ref mail).length = t.subscribers.count ref ∧
        b'.queue? ref = some { q with
          messages := q.messages ++ addressed ref mail
          received := q.received + t.subscribers.count ref }) ∧
      (∀ ref, ref ∉ t.subscribers → b'.queue? ref = b.queue? ref) ∧
      (m.id :: mail.flatMap fun c => [c.2.id, c.2.getMetadata deliveryIdKey]).Nodup ∧
      (∀ c ∈ mail, ∀ i ∈ [c.2.id, c.2.getMetadata deliveryIdKey],
        b.mint.Pending i ∧ ¬ b'.mint.Pending i) ∧
      b'.topics = b.topics ∧ b'.queueNames = b.queueNames ∧ b'.topicNames = b.topicNames ∧
        b'.defaults = b.defaults := by
  have hfst := map_fst_copies t.name m b.mint t.subscribers
  have hidents := idents_copies t.name m b.mint t.subscribers
  have hqueue := queue?_deliverAll hall t.name m
  obtain ⟨hmint, hdefaults⟩ := issued_deliverAll hall t.name m
  have hsame := sameObjects_deliverAll t.name m hall
  refine ⟨deliverAll t.name m t.subscribers b, copies t.name m b.mint t.subscribers,
    publishTo_of_early ht m fun _ _ => rfl, hfst, fun c hc => isCopyFor_of_mem_copies hc, ?_, ?_,
    ?_, ?_, hsame.topics, hsame.queueNames, hsame.topicNames, hdefaults⟩
  · intro ref q hq
    have hlen := length_addressed ref (copies t.name m b.mint t.subscribers)
    rw [hfst] at hlen
    refine ⟨hlen, ?_⟩
    rw [hqueue, hq, Option.map_some, ← hlen]
    rfl
  · intro ref hnot
    rw [hqueue, addressed_copies_of_not_mem hnot, Queue.map_enqueueAll_nil]
  · rw [hidents, List.nodup_cons]
    refine ⟨fun hmem => hid (Mint.mem_upcoming_iff.mp hmem).1, Mint.nodup_upcoming _ _⟩
  · intro c hc i hi
    have hmem : i ∈ b.mint.upcoming (2 * t.subscribers.length) := by
      rw [← hidents]
      exact List.mem_flatMap.mpr ⟨c, hc, hi⟩
    obtain ⟨hpending, hdone⟩ := Mint.mem_upcoming_iff.mp hmem
    rw [← hmint] at hdone
    exact ⟨hpending, hdone⟩

/-- A broker with a topic to which the first of two queues is subscribed twice. -/
def twiceSubscribed : Broker :=
  { create .standard with
    queues := [.create "work" (.ofSeconds 30) 3 none, .create "audit" (.ofSeconds 30) 5 none]
    topics := [⟨"orders", [⟨0⟩, ⟨1⟩, ⟨0⟩]⟩]
    mint := ⟨7⟩ }

/-- A message that is leased, and that came through another topic. -/
def forwarded : Message :=
  ((Message.create (.generated 2) "order" [123, 125] .first).setMetadata sourceTopicKey
    (.text "elsewhere")).leased (.generated 6) .last

/-- The queue subscribed twice gets two copies of that message, and the other one. -/
theorem publishTo_fans_out_twice :
    ∃ (b' : Broker) (mail : List (QueueRef × Message)),
      twiceSubscribed.publishTo ⟨0⟩ forwarded none (fun _ => .zero) = (.ok 3, b') ∧
      (∀ c ∈ mail, IsCopyFor c.2 "orders" forwarded) ∧
      (b'.queue? ⟨0⟩).map Queue.received = some 2 ∧
      (b'.queue? ⟨1⟩).map Queue.received = some 1 ∧
      (forwarded.id :: mail.flatMap fun c => [c.2.id, c.2.getMetadata deliveryIdKey]).Nodup := by
  have ht : twiceSubscribed.topic? ⟨0⟩ = some ⟨"orders", [⟨0⟩, ⟨1⟩, ⟨0⟩]⟩ := rfl
  obtain ⟨b', mail, hpub, -, hcopies, hqueues, -, hnodup, -⟩ :=
    publishTo_fans_out ht (by decide) forwarded (by decide) fun _ => .zero
  refine ⟨b', mail, hpub, hcopies, ?_, ?_, hnodup⟩
  · rw [(hqueues ⟨0⟩ _ rfl).2]
    rfl
  · rw [(hqueues ⟨1⟩ _ rfl).2]
    rfl

end Broker

end MessageBroker
