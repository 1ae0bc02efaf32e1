import MessageBroker.Publication
import MessageBroker.Proofs.Broker.Mint
import MessageBroker.Proofs.Queue.CriticalSection

/-!
# The objects of a broker and the changes to them

A critical section changes one queue object and may use up identifiers; it leaves the other objects,
the registry and the defaults alone. `Changes` says so, and each section has one lemma that names
the queue before and after it. What the rest of the theory needs of a section follows from its
`Changes`: what the queues hold (`contents`), the options they were created with (`rules?`), and
that the objects stay the same (`SameObjects`).
-/

namespace MessageBroker

/-- What is fixed when a queue is created. -/
structure QueueRules where
  name : String
  visibilityTimeout : Span
  maxRetries : Nat
  deadLetters : Option QueueRef

/-- The options a queue was created with. -/
def Queue.rules (q : Queue) : QueueRules :=
  ⟨q.name, q.visibilityTimeout, q.maxRetries, q.deadLetters⟩

namespace Broker

/-! ## Looking at objects -/

/-- There is a queue object of that reference. -/
def HasQueue (b : Broker) (ref : QueueRef) : Prop := ref.index < b.queues.length

/-- There is a topic object of that reference. -/
def HasTopic (b : Broker) (ref : TopicRef) : Prop := ref.index < b.topics.length

instance (b : Broker) (ref : QueueRef) : Decidable (b.HasQueue ref) :=
  inferInstanceAs (Decidable (_ < _))

instance (b : Broker) (ref : TopicRef) : Decidable (b.HasTopic ref) :=
  inferInstanceAs (Decidable (_ < _))

/-- The messages of a queue object, in order; none if there is no such object. -/
def contents (b : Broker) (ref : QueueRef) : List Message := (b.queue? ref).elim [] Queue.messages

/-- The options a queue object was created with. -/
def rules? (b : Broker) (ref : QueueRef) : Option QueueRules := (b.queue? ref).map Queue.rules

/-- The object of a reference, if it exists. -/
theorem HasQueue.queue? {b : Broker} {ref : QueueRef} (h : b.HasQueue ref) :
    ∃ q, b.queue? ref = some q :=
  ⟨b.queues[ref.index], List.getElem?_eq_getElem h⟩

/-- A reference that leads to an object is in range. -/
theorem hasQueue_of_queue? {b : Broker} {ref : QueueRef} {q : Queue} (h : b.queue? ref = some q) :
    b.HasQueue ref :=
  (List.getElem?_eq_some_iff.mp h).1

/-- The contents of an object that exists. -/
theorem contents_of_queue? {b : Broker} {ref : QueueRef} {q : Queue} (h : b.queue? ref = some q) :
    b.contents ref = q.messages := by
  unfold contents
  rw [h]
  rfl

/-- The options of an object that exists. -/
theorem rules?_of_queue? {b : Broker} {ref : QueueRef} {q : Queue} (h : b.queue? ref = some q) :
    b.rules? ref = some q.rules := by
  unfold rules?
  rw [h]
  rfl

/-- Only an object that exists has options. -/
theorem queue?_of_rules? {b : Broker} {ref : QueueRef} {r : QueueRules} (h : b.rules? ref = some r) :
    ∃ q, b.queue? ref = some q ∧ q.rules = r := by
  simpa [rules?] using h

/-- The object of a topic reference, if it exists. -/
theorem HasTopic.topic? {b : Broker} {ref : TopicRef} (h : b.HasTopic ref) :
    ∃ t, b.topic? ref = some t :=
  ⟨b.topics[ref.index], List.getElem?_eq_getElem h⟩

/-! ## Changing one queue object -/

/-- The last state that a queue object is given counts. -/
theorem setQueue_setQueue (b : Broker) (ref : QueueRef) (q q' : Queue) :
    (b.setQueue ref q).setQueue ref q' = b.setQueue ref q' := by
  unfold setQueue
  rw [List.set_set]

/-- The last state of a queue object counts, and so does the last state of the mint. -/
theorem setQueue_generated (b : Broker) (ref : QueueRef) (q q' : Queue) (mint mint' : Mint) :
    { ({ b.setQueue ref q with mint } : Broker).setQueue ref q' with mint := mint' } =
      { b.setQueue ref q' with mint := mint' } := by
  unfold setQueue
  rw [List.set_set]

/-- Changes to two queue objects commute. -/
theorem setQueue_comm {ref other : QueueRef} (hne : other ≠ ref) (b : Broker) (q q' : Queue) :
    (b.setQueue other q').setQueue ref q = (b.setQueue ref q).setQueue other q' := by
  have hindex : other.index ≠ ref.index := fun hi => hne (congrArg QueueRef.mk hi)
  unfold setQueue
  rw [List.set_comm _ _ hindex]

/-- The state of a queue object does not show in the others. -/
theorem queue?_setQueue_of_ne {ref other : QueueRef} (hne : other ≠ ref) (b : Broker) (q : Queue) :
    (b.setQueue ref q).queue? other = b.queue? other :=
  List.getElem?_set_ne fun hi => hne (congrArg QueueRef.mk hi.symm)

/-- A queue object has the state that it is given. -/
theorem queue?_setQueue_self {b : Broker} {ref : QueueRef} {q : Queue} (hq : b.queue? ref = some q)
    (q' : Queue) : (b.setQueue ref q').queue? ref = some q' := by
  have hlt : ref.index < b.queues.length := hasQueue_of_queue? hq
  unfold Broker.queue? setQueue
  rw [List.getElem?_set_self hlt]

/-- A queue object that is given the state it has stays as it is. -/
theorem setQueue_self {b : Broker} {ref : QueueRef} {q : Queue} (hq : b.queue? ref = some q) :
    b.setQueue ref q = b := by
  obtain ⟨hlt, hget⟩ := List.getElem?_eq_some_iff.mp hq
  unfold setQueue
  rw [← hget, List.set_getElem_self]

/-- One queue object goes from `q` to `q'`, under the options it has, and identifiers may have been
generated; nothing else changes. -/
structure Changes (b b' : Broker) (ref : QueueRef) (q q' : Queue) : Prop where
  before : b.queue? ref = some q
  queues : b'.queues = b.queues.set ref.index q'
  rules : q'.rules = q.rules
  topics : b'.topics = b.topics
  queueNames : b'.queueNames = b.queueNames
  topicNames : b'.topicNames = b.topicNames
  issued : b.mint.issued ≤ b'.mint.issued

namespace Changes

variable {b b' : Broker} {ref : QueueRef} {q q' : Queue} (h : Changes b b' ref q q')
include h

/-- The changed object, and all others as they were. -/
theorem queue? (other : QueueRef) :
    b'.queue? other = if other = ref then some q' else b.queue? other := by
  have hlt : ref.index < b.queues.length := hasQueue_of_queue? h.before
  unfold Broker.queue?
  rw [h.queues, List.getElem?_set]
  by_cases he : other = ref
  · rw [if_pos he, he, if_pos rfl, if_pos hlt]
  · have hne : ¬ ref.index = other.index := fun hi => he (by cases other; cases ref; simp_all)
    rw [if_neg he, if_neg hne]

/-- The contents of the changed object, and all others as they were. -/
theorem contents (other : QueueRef) :
    b'.contents other = if other = ref then q'.messages else b.contents other := by
  unfold Broker.contents
  rw [h.queue?]
  split <;> rfl

/-- The contents of the object before. -/
theorem contents_before : b.contents ref = q.messages := by
  unfold Broker.contents
  rw [h.before]
  rfl

/-- No options change. -/
theorem rules? (other : QueueRef) : b'.rules? other = b.rules? other := by
  unfold Broker.rules?
  rw [h.queue?]
  split
  · rename_i he
    rw [he, h.before, Option.map_some, Option.map_some, h.rules]
  · rfl

/-- Generating identifiers afterwards is part of the change. -/
theorem generate {mint : Mint} (hm : b'.mint.issued ≤ mint.issued) :
    Changes b { b' with mint } ref q q' :=
  ⟨h.before, h.queues, h.rules, h.topics, h.queueNames, h.topicNames, Nat.le_trans h.issued hm⟩

/-- No object comes or goes. -/
theorem hasQueue (other : QueueRef) : b'.HasQueue other ↔ b.HasQueue other := by
  unfold HasQueue
  rw [h.queues, List.length_set]

end Changes

/-! ## Keeping the objects -/

/-- Both states have the same objects under the same options and names; the contents of queues may
differ, and identifiers may have been generated. -/
structure SameObjects (b b' : Broker) : Prop where
  count : b'.queues.length = b.queues.length
  rules : ∀ ref, b'.rules? ref = b.rules? ref
  topics : b'.topics = b.topics
  queueNames : b'.queueNames = b.queueNames
  topicNames : b'.topicNames = b.topicNames
  issued : b.mint.issued ≤ b'.mint.issued

namespace SameObjects

variable {b b' b'' : Broker}

/-- A state has the objects it has. -/
theorem refl (b : Broker) : SameObjects b b :=
  ⟨rfl, fun _ => rfl, rfl, rfl, rfl, Nat.le_refl _⟩

/-- What two steps leave alone, both leave alone. -/
theorem trans (h : SameObjects b b') (h' : SameObjects b' b'') : SameObjects b b'' :=
  ⟨h'.count.trans h.count, fun ref => (h'.rules ref).trans (h.rules ref), h'.topics.trans h.topics,
    h'.queueNames.trans h.queueNames, h'.topicNames.trans h.topicNames,
    Nat.le_trans h.issued h'.issued⟩

/-- The same queue objects exist. -/
theorem hasQueue (h : SameObjects b b') (ref : QueueRef) : b'.HasQueue ref ↔ b.HasQueue ref := by
  unfold HasQueue
  rw [h.count]

/-- A topic name leads to the same subscribers. -/
theorem subscribers (h : SameObjects b b') (topic : String) :
    b'.subscribers topic = b.subscribers topic := by
  unfold Broker.subscribers findTopic? topic?
  rw [h.topics, h.topicNames]

end SameObjects

/-- A change to one queue object leaves the objects the same. -/
theorem Changes.sameObjects {b b' : Broker} {ref : QueueRef} {q q' : Queue}
    (h : Changes b b' ref q q') : SameObjects b b' := by
  refine ⟨?_, h.rules?, h.topics, h.queueNames, h.topicNames, h.issued⟩
  rw [h.queues, List.length_set]

/-! ## Putting messages in -/

section Putting

variable {b : Broker} {ref : QueueRef} {q : Queue} (hq : b.queue? ref = some q)

/-- Giving a message an id changes nothing else about it. -/
theorem identify_fst (b : Broker) (m : Message) : ∃ id, (b.identify m).1 = { m with id } := by
  unfold identify
  split
  · exact ⟨_, rfl⟩
  · exact ⟨m.id, rfl⟩

/-- Whatever is put in has an id. -/
theorem id_identify_ne_blank (b : Broker) (m : Message) : (b.identify m).1.id ≠ .blank := by
  unfold identify
  split
  · rintro ⟨⟩
  · assumption

/-- Giving a message an id uses up at most an identifier. -/
theorem identify_snd (b : Broker) (m : Message) :
    ∃ mint : Mint, b.mint.issued ≤ mint.issued ∧ (b.identify m).2 = { b with mint } := by
  unfold identify
  split
  · exact ⟨b.mint.advance, Nat.le_succ _, rfl⟩
  · exact ⟨b.mint, Nat.le_refl _, rfl⟩

include hq

/-- A queue object is replaced under the same options. -/
theorem changes_setQueue (q' : Queue) (hr : q'.rules = q.rules) :
    Changes b (b.setQueue ref q') ref q q' :=
  ⟨hq, rfl, hr, rfl, rfl, rfl, Nat.le_refl _⟩

/-- Enqueueing puts the message, with an id, behind the others. The identifiers beyond `b.mint` are
those that went into the message. -/
theorem enqueue_changes {mint : Mint} (hm : b.mint.issued ≤ mint.issued) (m : Message) :
    Changes b (({ b with mint } : Broker).enqueue ref m) ref q
      (q.enqueue (({ b with mint } : Broker).identify m).1) := by
  obtain ⟨mint', hm', hb⟩ := identify_snd { b with mint } m
  have hput : ({ b with mint } : Broker).enqueue ref m =
      { b.setQueue ref (q.enqueue (({ b with mint } : Broker).identify m).1) with
        mint := mint' } := by
    unfold enqueue put
    simp only [hb]
    rw [show ({ b with mint := mint' } : Broker).queue? ref = some q from hq]
    rfl
  rw [hput]
  refine (changes_setQueue hq _ ?_).generate (Nat.le_trans hm hm')
  rfl

/-- A delivery puts a marked copy behind the others. -/
theorem deliver_changes (topic : String) (m : Message) :
    ∃ copy, Changes b (b.deliver topic m ref) ref q (q.enqueue copy) := by
  have hm : b.mint.issued ≤ b.mint.advance.advance.issued := Nat.le_add_right _ 2
  exact ⟨_, enqueue_changes hq hm (b.publicationCopy topic m).1⟩

end Putting

/-! ## Leasing and settling -/

section Settling

variable {b : Broker} {ref : QueueRef}

/-- No message of a queue has a property, or its contents split at the first one that has it. -/
theorem first_split (b : Broker) (ref : QueueRef) (p : Message → Prop) [DecidablePred p] :
    (∀ m ∈ b.contents ref, ¬ p m) ∨
      ∃ q before m after, b.queue? ref = some q ∧ q.messages = before ++ m :: after ∧
        (∀ x ∈ before, ¬ p x) ∧ p m := by
  unfold contents
  cases hq : b.queue? ref with
  | none => exact .inl fun m hm => absurd hm List.not_mem_nil
  | some q =>
    rcases Queue.first_cases p q.messages with h | ⟨before, m, after, hs, hbefore, hm⟩
    · exact .inl h
    · exact .inr ⟨q, before, m, after, rfl, hs, hbefore, hm⟩

/-- Nothing is received where no message is visible. -/
theorem receive_eq_none {now : Instant} (h : ∀ m ∈ b.contents ref, ¬ m.VisibleAt now) :
    b.receive ref now = (none, b) := by
  unfold receive
  cases hq : b.queue? ref with
  | none => rfl
  | some q =>
    have hn : q.receive now b.mint.next = none :=
      Queue.receive_eq_none (fun m hm => h m (by rw [contents_of_queue? hq]; exact hm)) _
    simp only [hn]

/-- A handle that no message of the queue carries is refused. -/
theorem acknowledge_eq_error {handle : Ident}
    (h : ∀ m ∈ b.contents ref, m.receipt ≠ some handle) :
    b.acknowledge ref handle = .error (.invalidReceipt handle) := by
  unfold acknowledge
  cases hq : b.queue? ref with
  | none => rfl
  | some q =>
    rw [Option.bind_some,
      Queue.acknowledge_eq_none fun m hm => h m (by rw [contents_of_queue? hq]; exact hm)]

/-- A handle that no message of the queue carries gives nothing back. -/
theorem giveBack_eq_error {handle : Ident}
    (h : ∀ m ∈ b.contents ref, m.receipt ≠ some handle) :
    b.giveBack ref handle = .error (.invalidReceipt handle) := by
  unfold giveBack
  cases hq : b.queue? ref with
  | none => rfl
  | some q =>
    rw [Option.bind_some, Queue.nack_eq_none fun m hm => h m (by rw [contents_of_queue? hq]; exact hm)]

/-- A nack is refused exactly if its first half is. -/
theorem nack_eq_error {handle : Ident} (h : ∀ m ∈ b.contents ref, m.receipt ≠ some handle) :
    b.nack ref handle = .error (.invalidReceipt handle) := by
  unfold nack
  rw [giveBack_eq_error h]
  rfl

variable {q : Queue} {before after : List Message} {m : Message} (hq : b.queue? ref = some q)
  (hs : q.messages = before ++ m :: after)
include hq hs

/-- The first visible message is leased under a new identifier. -/
theorem receive_eq_some {now : Instant} (hbefore : ∀ x ∈ before, ¬ x.VisibleAt now)
    (hm : m.VisibleAt now) : b.receive ref now =
      (some (m.leased b.mint.next (now.deadline q.visibilityTimeout)),
        { b.setQueue ref { q with
            messages := before ++ m.leased b.mint.next (now.deadline q.visibilityTimeout) :: after }
          with mint := b.mint.advance }) := by
  unfold receive
  rw [hq]
  simp only [Queue.receive_eq_some hs hbefore hm]

/-- A lease changes one queue object, by the message that it leases. -/
theorem receive_changes {now : Instant} (hbefore : ∀ x ∈ before, ¬ x.VisibleAt now)
    (hm : m.VisibleAt now) :
    ∃ b', b.receive ref now =
        (some (m.leased b.mint.next (now.deadline q.visibilityTimeout)), b') ∧
      Changes b b' ref q { q with
        messages := before ++
          m.leased b.mint.next (now.deadline q.visibilityTimeout) :: after } := by
  have hset := changes_setQueue hq { q with
    messages := before ++ m.leased b.mint.next (now.deadline q.visibilityTimeout) :: after } rfl
  exact ⟨_, receive_eq_some hq hs hbefore hm, hset.generate (Nat.le_succ b.mint.issued)⟩

variable {handle : Ident} (hbefore : ∀ x ∈ before, x.receipt ≠ some handle)
  (hm : m.receipt = some handle)
include hbefore hm

/-- The first message that carries the handle is removed and counted. -/
theorem acknowledge_eq_ok : b.acknowledge ref handle =
    .ok (b.setQueue ref { q with messages := before ++ after, processed := q.processed + 1 }) := by
  unfold acknowledge
  rw [hq, Option.bind_some, Queue.acknowledge_eq_some hs hbefore hm]

/-- Below the budget, the first message that carries the handle is released. -/
theorem giveBack_eq_release (hlt : m.retryCount < q.maxRetries) : b.giveBack ref handle =
    .ok (b.setQueue ref { q with messages := before ++ m.released :: after }, none) := by
  unfold giveBack
  rw [hq, Option.bind_some, Queue.nack_eq_release hs hbefore hm hlt]
  rfl

/-- At the budget or beyond, the first message that carries the handle is removed and given up. -/
theorem giveBack_eq_giveUp (hge : q.maxRetries ≤ m.retryCount) : b.giveBack ref handle =
    .ok (b.setQueue ref { q with messages := before ++ after, failed := q.failed + 1 },
      some ⟨ref, m⟩) := by
  unfold giveBack
  rw [hq, Option.bind_some, Queue.nack_eq_giveUp hs hbefore hm hge]
  rfl

/-- Below the budget, a nack is its first half. -/
theorem nack_eq_release (hlt : m.retryCount < q.maxRetries) : b.nack ref handle =
    .ok (b.setQueue ref { q with messages := before ++ m.released :: after }) := by
  unfold nack
  rw [giveBack_eq_release hq hs hbefore hm hlt]
  rfl

/-- At the budget or beyond, a nack removes the message and deposits a copy of it. -/
theorem nack_eq_giveUp (hge : q.maxRetries ≤ m.retryCount) : b.nack ref handle =
    .ok ((b.setQueue ref { q with messages := before ++ after, failed := q.failed + 1 }).deposit
      ⟨ref, m⟩) := by
  unfold nack
  rw [giveBack_eq_giveUp hq hs hbefore hm hge]
  rfl

end Settling

/-! ## Dead letters -/

section Deposit

variable {b : Broker} {letter : DeadLetter} {q : Queue} (hq : b.queue? letter.source = some q)
include hq

/-- Without a queue for dead letters nothing is deposited. -/
theorem deposit_eq_self (hd : q.deadLetters = none) : b.deposit letter = b := by
  unfold deposit
  rw [hq]
  simp only [hd]

/-- A copy of the letter's message goes to the queue for dead letters. -/
theorem deposit_eq_enqueue {target : QueueRef} (hd : q.deadLetters = some target) :
    b.deposit letter = ({ b with mint := b.mint.advance } : Broker).enqueue target
      (b.deadLetterCopy q.name letter.message).1 := by
  unfold deposit
  rw [hq]
  simp only [hd]
  rfl

end Deposit

end Broker

end MessageBroker
