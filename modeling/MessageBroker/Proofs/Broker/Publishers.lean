import MessageBroker.Proofs.Broker.Dispatch
import MessageBroker.Proofs.Broker.Registry

/-!
# Publishers and subscribers side by side

Any number of threads publish and subscribe, and their steps come in any order
(`publishers_and_subscribers`). Each publication that is done has returned the length of the list
that it took, and each queue got as many of its copies as it occurs in that list. The list has the
subscriptions from the start, and behind them those made before the moment at which it was taken.
In each queue, the copies of one thread's publications come in the order in which it published.

What is proved of a run is split up by what it is about, the subscriptions (`Registered`), the
queues (`Delivered`), the threads (`Threads`), and each publication for itself (`Progress`). The
moves of others do not touch a publication (`Progress.other`), and its own take it from stage to
stage (`Sound.progress_own`).
-/

namespace MessageBroker

namespace Dispatch

open Broker

/-! ## Subscriptions -/

/-- The queue that the move subscribes to a topic object, by the names in the registry. -/
def Move.subscribed? (b : Broker) (ref : TopicRef) : Move → Option QueueRef
  | .subscribe topic queue => if b.findTopic? topic = some ref then b.findQueue? queue else none
  | .subscribeTo topic queue => if topic = ref then some queue else none
  | _ => none

/-- After these moves, the broker has the names it had at the start, and each topic has its
subscriptions from the start, and the new ones behind them. -/
structure Registered (b : Broker) (moves : List Move) (b' : Broker) : Prop where
  closed : b'.Closed
  queueNames : b'.queueNames = b.queueNames
  topicNames : b'.topicNames = b.topicNames
  names : ∀ ref, b'.nameOf ref = b.nameOf ref
  subscribers : ∀ ref, b'.subscribersOf ref =
    b.subscribersOf ref ++ moves.filterMap (Move.subscribed? b ref)

namespace Registered

variable {b b' b'' : Broker} {moves : List Move} (h : Registered b moves b')
include h

/-- A move that leaves the objects as they are subscribes nothing. -/
theorem of_same (hsame : SameObjects b' b'') {v : Move} (hv : ∀ ref, v.subscribed? b ref = none) :
    Registered b (moves ++ [v]) b'' where
  closed := hsame.closed h.closed
  queueNames := hsame.queueNames.trans h.queueNames
  topicNames := hsame.topicNames.trans h.topicNames
  names := fun ref => (hsame.nameOf ref).trans (h.names ref)
  subscribers := fun ref => by
    have hnone : [v].filterMap (Move.subscribed? b ref) = [] := by
      rw [List.filterMap_cons_none (hv ref), List.filterMap_nil]
    rw [List.filterMap_append, hnone, List.append_nil, ← h.subscribers]
    exact hsame.subscribersOf ref

/-- A subscription adds a queue to one topic. -/
theorem subscribeTo {topic : TopicRef} {queue : QueueRef} (ht : b'.HasTopic topic)
    (hq : b'.HasQueue queue) {v : Move}
    (hv : ∀ ref, v.subscribed? b ref = if topic = ref then some queue else none) :
    Registered b (moves ++ [v]) (b'.subscribeTo topic queue) := by
  obtain ⟨t, htopic⟩ := ht.topic?
  have hlookup := topic?_subscribeTo htopic queue
  obtain ⟨htopics, hqueues⟩ := b'.subscribeTo_names topic queue
  refine ⟨h.closed.subscribeTo topic hq, hqueues.trans h.queueNames, htopics.trans h.topicNames,
    fun ref => ?_, fun ref => ?_⟩
  · exact (b'.nameOf_subscribeTo topic queue ref).trans (h.names ref)
  · rw [List.filterMap_append, ← List.append_assoc, ← h.subscribers, List.filterMap_cons, hv]
    unfold subscribersOf
    rw [hlookup]
    split
    · rename_i he
      rw [← he, htopic]
      rfl
    · rw [List.filterMap_nil, List.append_nil]

end Registered

/-! ## Copies in queues -/

/-- The copies that were delivered to a queue, in order. -/
def sent (deliveries : List Delivery) (ref : QueueRef) : List Message :=
  (deliveries.filter (·.target = ref)).map Delivery.copy

/-- Each queue holds what it held at the start, and behind that the copies that were delivered to
it. Each copy has an id and a delivery id that were generated for it. -/
structure Delivered (b : Broker) (b' : Broker) (deliveries : List Delivery) : Prop where
  queues : ∀ ref, b'.queue? ref = (b.queue? ref).map (·.enqueueAll (sent deliveries ref))
  issued : b'.mint.issued = b.mint.issued + 2 * deliveries.length
  idents : (deliveries.flatMap fun y => [y.copy.id, y.copy.getMetadata deliveryIdKey]) =
    b.mint.upcoming (2 * deliveries.length)

/-- A delivery adds a copy to one queue. -/
theorem Delivered.deliver {b b' : Broker} {deliveries : List Delivery}
    (h : Delivered b b' deliveries) {target : QueueRef} (ht : b'.HasQueue target) (mark : String)
    (m : Message) (p : Nat) : Delivered b (b'.deliver mark m target)
      (deliveries ++ [⟨p, target, (b'.publicationCopy mark m).1⟩]) := by
  obtain ⟨q, hq⟩ := ht.queue?
  have hc := deliver_changes_markedCopy hq mark m
  have hcopy : (b'.publicationCopy mark m).1 = markedCopy b'.mint mark m := rfl
  rw [hcopy]
  refine ⟨fun ref => ?_, ?_, ?_⟩
  · have hold := h.queues ref
    unfold sent at hold ⊢
    rw [hc.queue?, List.filter_append, List.map_append]
    by_cases he : ref = target
    · subst he
      rw [hq] at hold
      obtain ⟨q₀, hq₀, hold⟩ := Option.map_eq_some_iff.mp hold.symm
      rw [if_pos rfl, hq₀, List.filter_cons_of_pos (by simp), Option.map_some, ← hold,
        ← Queue.enqueueAll_enqueueAll]
      rfl
    · rw [if_neg he, hold, List.filter_cons_of_neg (by simpa using Ne.symm he)]
      simp only [List.filter_nil, List.map_nil, List.append_nil]
  · have hmint : (b'.deliver mark m target).mint.issued = b'.mint.issued + 2 := by
      rw [deliver_eq hq]
      rfl
    rw [hmint, h.issued, List.length_append]
    rfl
  · -- The copy takes the two identifiers behind those of the deliveries so far.
    have hmint : b'.mint = ⟨b.mint.issued + 2 * deliveries.length⟩ := congrArg Mint.mk h.issued
    rw [List.flatMap_append, h.idents, List.length_append, List.flatMap_singleton,
      getMetadata_markedCopy, List.length_singleton, Nat.mul_add, Mint.upcoming_add, ← hmint]
    rfl

/-! ## Threads -/

/-- The publication that the move begins. -/
def Move.begins? : Move → Option (Nat × Address × Message)
  | .publish thread address message => some (thread, address, message)
  | _ => none

/-- The thread that began a publication, by its number. -/
def thread? (publications : List Publication) (p : Nat) : Option Nat :=
  publications[p]?.map Publication.thread

/-- A thread has done with all its publications but the last. Its deliveries are in the order of its
publications. -/
structure Threads (publications : List Publication) (deliveries : List Delivery) : Prop where
  numbers : ∀ y ∈ deliveries, y.publication < publications.length
  current : ∀ (i j : Nat) (x y : Publication), i < j → publications[i]? = some x →
    publications[j]? = some y → x.thread = y.thread → x.isDone = true
  ordered : deliveries.Pairwise fun y z =>
    thread? publications y.publication = thread? publications z.publication →
      y.publication ≤ z.publication

namespace Threads

variable {publications : List Publication} {deliveries : List Delivery}
  (h : Threads publications deliveries)
include h

/-- A thread that has done with its publications begins one. -/
theorem begin {x : Publication}
    (hdone : ∀ y ∈ publications, y.thread = x.thread → y.isDone = true) :
    Threads (publications ++ [x]) deliveries := by
  have hold : ∀ p < publications.length, (publications ++ [x])[p]? = publications[p]? :=
    fun p hp => List.getElem?_append_left hp
  refine ⟨fun y hy => ?_, fun i j y z hij hy hz ht => ?_, ?_⟩
  · rw [List.length_append]
    exact Nat.lt_succ_of_lt (h.numbers y hy)
  · have hj := (List.getElem?_eq_some_iff.mp hz).1
    rw [List.length_append, List.length_singleton] at hj
    rw [hold i (by omega)] at hy
    rcases Nat.lt_or_ge j publications.length with hlt | hge
    · rw [hold j hlt] at hz
      exact h.current i j y z hij hy hz ht
    · rw [List.getElem?_append_right hge, show j - publications.length = 0 by omega] at hz
      obtain rfl := Option.some.inj hz
      exact hdone y (List.mem_of_getElem? hy) ht
  · refine h.ordered.imp_of_mem fun hy hz hle ht => hle ?_
    unfold thread? at ht ⊢
    rwa [hold _ (h.numbers _ hy), hold _ (h.numbers _ hz)] at ht

/-- A publication goes to another stage, and stays done if it was so. -/
theorem set {p : Nat} {x : Publication} (hx : publications[p]? = some x)
    {stage : Publication.Stage}
    (hdone : x.isDone = true → ({ x with stage } : Publication).isDone = true) :
    Threads (publications.set p { x with stage }) deliveries := by
  have hlt := (List.getElem?_eq_some_iff.mp hx).1
  -- Of every publication, the thread is the same, and it is done if it was.
  have hsame : ∀ (i : Nat) (y : Publication), (publications.set p { x with stage })[i]? = some y →
      ∃ z, publications[i]? = some z ∧ y.thread = z.thread ∧
        (z.isDone = true → y.isDone = true) := by
    intro i y hy
    by_cases hi : p = i
    · subst hi
      rw [List.getElem?_set_self hlt] at hy
      obtain rfl := Option.some.inj hy
      exact ⟨x, hx, rfl, hdone⟩
    · rw [List.getElem?_set_ne hi] at hy
      exact ⟨y, hy, rfl, id⟩
  have hthread : ∀ i, thread? (publications.set p { x with stage }) i = thread? publications i := by
    intro i
    unfold thread?
    by_cases hi : p = i
    · subst hi
      rw [List.getElem?_set_self hlt, hx]
      rfl
    · rw [List.getElem?_set_ne hi]
  refine ⟨fun y hy => ?_, fun i j y z hij hy hz ht => ?_, ?_⟩
  · rw [List.length_set]
    exact h.numbers y hy
  · obtain ⟨y₀, hy₀, hty, hkeep⟩ := hsame i y hy
    obtain ⟨z₀, hz₀, htz, -⟩ := hsame j z hz
    exact hkeep (h.current i j y₀ z₀ hij hy₀ hz₀ (by rw [← hty, ht, htz]))
  · simp only [hthread]
    exact h.ordered

/-- A publication that is not done delivers a copy: what its thread delivered so far came from this
publication or from earlier ones. -/
theorem deliver {p : Nat} {x : Publication} (hx : publications[p]? = some x)
    (hopen : x.isDone = false) (target : QueueRef) (copy : Message) :
    Threads publications (deliveries ++ [⟨p, target, copy⟩]) := by
  refine ⟨fun y hy => ?_, h.current, ?_⟩
  · rcases List.mem_append.mp hy with hy | hy
    · exact h.numbers y hy
    · rw [List.mem_singleton.mp hy]
      exact (List.getElem?_eq_some_iff.mp hx).1
  · refine List.pairwise_append.mpr ⟨h.ordered, List.pairwise_singleton _ _, fun y hy z hz ht => ?_⟩
    rw [List.mem_singleton.mp hz] at ht ⊢
    -- Had the thread begun a later publication, this one would be done.
    apply Nat.le_of_not_lt
    intro hlt
    have hz₀ := List.getElem?_eq_getElem (h.numbers y hy)
    unfold thread? at ht
    rw [hx, hz₀] at ht
    have hdone := h.current p y.publication x _ hlt hx hz₀ (Option.some.inj ht).symm
    rw [hopen] at hdone
    cases hdone

end Threads

/-! ## Where a publication stands -/

/-- The deliveries of a publication, in order. -/
def madeBy (deliveries : List Delivery) (p : Nat) : List Delivery :=
  deliveries.filter (·.publication = p)

/-- After the moves `before`, the publication took the list of the subscribers of its topic. With
each step since, it has delivered to one place of that list, and with one more it has returned the
length of the list. -/
structure Served (b : Broker) (moves : List Move) (deliveries : List Delivery) (p : Nat)
    (x : Publication) (before after : List Move) (ref : TopicRef) (list : List QueueRef) :
    Prop where
  split : moves = before ++ .advance p :: after
  topic : b.lookUp x.address = .ok ref
  instant : ∃ y, ((start b).run before).publications[p]? = some y ∧ y.stage = .found ref
  taken : list = ((start b).run before).broker.subscribersOf ref
  stage : x.stage = if after.count (.advance p) ≤ list.length then
    .serving (b.nameOf ref) list (after.count (.advance p)) else .done (.ok list.length)
  targets : (madeBy deliveries p).map Delivery.target = list.take (after.count (.advance p))
  copies : ∀ y ∈ madeBy deliveries p, IsCopyFor y.copy (b.nameOf ref) x.message

/-- A publication that serves its list goes on to the next place, or returns. -/
theorem Served.own {b : Broker} {moves before after : List Move} {d : Dispatch} {p : Nat}
    {x : Publication} {ref : TopicRef} {list : List QueueRef}
    (hs : Served b moves d.deliveries p x before after ref list)
    (hx : d.publications[p]? = some x) :
    Served b (moves ++ [.advance p]) (d.advance p).deliveries p
      { x with stage := x.next d.broker } before (after ++ [.advance p]) ref list := by
  have hcount : (after ++ [Move.advance p]).count (.advance p) =
      after.count (.advance p) + 1 := by
    rw [List.count_append, List.count_singleton_self]
  have hsplit : moves ++ [.advance p] = before ++ .advance p :: (after ++ [.advance p]) := by
    rw [hs.split, List.append_assoc, List.cons_append]
  generalize hn : after.count (.advance p) = n at hcount
  have hstage := hs.stage
  have htargets := hs.targets
  rw [hn] at hstage htargets
  rcases Nat.lt_or_ge n list.length with hlt | hge
  · -- There is a place left.
    rw [if_pos (Nat.le_of_lt hlt)] at hstage
    have htarget : x.target? = some (b.nameOf ref, list[n]) := by
      simp [Publication.target?, hstage, hlt]
    rcases advance_cases hx with ⟨hnone, -⟩ | ⟨mark, target, ht, hadvance⟩
    · rw [htarget] at hnone
      cases hnone
    · obtain ⟨rfl, rfl⟩ := Prod.mk.inj (Option.some.inj (htarget.symm.trans ht))
      have hmade : madeBy (d.advance p).deliveries p = madeBy d.deliveries p ++
          [⟨p, list[n], (d.broker.publicationCopy (b.nameOf ref) x.message).1⟩] := by
        rw [hadvance]
        unfold madeBy
        rw [List.filter_append, List.filter_cons_of_pos (by simp), List.filter_nil]
      refine ⟨hsplit, hs.topic, hs.instant, hs.taken, ?_, ?_, fun y hy => ?_⟩
      · show x.next d.broker = _
        rw [hcount, if_pos (Nat.succ_le_of_lt hlt)]
        simp [Publication.next, hstage, hlt]
      · rw [hcount, hmade, List.map_append, htargets, List.take_succ_eq_append_getElem hlt]
        rfl
      · rw [hmade] at hy
        rcases List.mem_append.mp hy with hy | hy
        · exact hs.copies y hy
        · rw [List.mem_singleton.mp hy]
          exact markedCopy_isCopyFor _ _ _
  · -- There is none, so it returns, if it has not done so.
    have hsilent : x.target? = none ∧ x.next d.broker = .done (.ok list.length) := by
      rcases Nat.lt_or_eq_of_le hge with hgt | rfl
      · rw [if_neg (Nat.not_le.mpr hgt)] at hstage
        simp [Publication.target?, Publication.next, hstage]
      · rw [if_pos (Nat.le_refl _)] at hstage
        simp [Publication.target?, Publication.next, hstage]
    rw [advance_of_silent hx hsilent.1]
    refine ⟨hsplit, hs.topic, hs.instant, hs.taken, ?_, ?_, hs.copies⟩
    · show x.next d.broker = _
      rw [hcount, if_neg (by omega), hsilent.2]
    · rw [hcount, htargets, List.take_of_length_le hge, List.take_of_length_le (by omega)]

/-- Where a publication stands after a run. -/
inductive Progress (b : Broker) (moves : List Move) (deliveries : List Delivery) (p : Nat)
    (x : Publication) : Prop where
  | looking (hstage : x.stage = .looking) (hnone : madeBy deliveries p = [])
  | refused (e : BrokerError) (hlook : b.lookUp x.address = .error e)
      (hstage : x.stage = .done (.error e)) (hnone : madeBy deliveries p = [])
  | found (ref : TopicRef) (hlook : b.lookUp x.address = .ok ref) (hstage : x.stage = .found ref)
      (hnone : madeBy deliveries p = [])
  | served (before after : List Move) (ref : TopicRef) (list : List QueueRef)
      (h : Served b moves deliveries p x before after ref list)

/-- The moves of others leave a publication where it stands. -/
theorem Progress.other {b : Broker} {moves : List Move} {deliveries deliveries' : List Delivery}
    {p : Nat} {x : Publication} (h : Progress b moves deliveries p x) {v : Move}
    (hv : v ≠ .advance p) (hmade : madeBy deliveries' p = madeBy deliveries p) :
    Progress b (moves ++ [v]) deliveries' p x := by
  cases h with
  | looking hstage hnone => exact .looking hstage (hmade.trans hnone)
  | refused e hlook hstage hnone => exact .refused e hlook hstage (hmade.trans hnone)
  | found ref hlook hstage hnone => exact .found ref hlook hstage (hmade.trans hnone)
  | served before after ref list h =>
    have hcount : (after ++ [v]).count (.advance p) = after.count (.advance p) := by
      rw [List.count_append, List.count_singleton, if_neg (by simpa using hv), Nat.add_zero]
    refine .served before (after ++ [v]) ref list ?_
    constructor
    case split => rw [h.split, List.append_assoc, List.cons_append]
    case topic => exact h.topic
    case instant => exact h.instant
    case taken => exact h.taken
    case stage => rw [hcount, h.stage]
    case targets => rw [hcount, hmade, h.targets]
    case copies => exact hmade ▸ h.copies

/-! ## Whole runs -/

/-- What holds after a run from the broker `b`. -/
structure Sound (b : Broker) (moves : List Move) (d : Dispatch) : Prop where
  run : d = (start b).run moves
  registered : Registered b moves d.broker
  delivered : Delivered b d.broker d.deliveries
  threads : Threads d.publications d.deliveries
  /-- The lists that are being served consist of queues that exist. -/
  alive : ∀ x ∈ d.publications, ∀ mark list k, x.stage = .serving mark list k →
    ∀ target ∈ list, d.broker.HasQueue target
  progress : ∀ p x, d.publications[p]? = some x → Progress b moves d.deliveries p x

/-- Before the first move nothing was published. -/
theorem sound_start {b : Broker} (hb : b.Closed) : Sound b [] (start b) where
  run := rfl
  registered := ⟨hb, rfl, rfl, fun _ => rfl, fun _ => (List.append_nil _).symm⟩
  delivered := ⟨fun _ => (Queue.map_enqueueAll_nil _).symm, rfl, rfl⟩
  threads := by
    refine ⟨fun y hy => absurd hy List.not_mem_nil, fun i j x y _ hx => ?_, .nil⟩
    cases hx
  alive := fun x hx => absurd hx List.not_mem_nil
  progress := fun p x hx => by cases hx

namespace Sound

variable {b : Broker} {moves : List Move} {d : Dispatch} (h : Sound b moves d)
include h

/-- After one more move. -/
theorem run_append (v : Move) : d.apply v = (start b).run (moves ++ [v]) := by
  unfold Dispatch.run
  rw [List.foldl_append, h.run]
  rfl

/-- A look-up finds what it would have found at the start. -/
theorem lookUp (address : Address) : d.broker.lookUp address = b.lookUp address := by
  cases address with
  | object ref => rfl
  | named topic =>
    unfold Broker.lookUp findTopic?
    rw [h.registered.topicNames]

/-- A thread begins a publication. -/
theorem publishes {thread : Nat} {address : Address} {m : Message}
    (hv : (Move.publish thread address m).Valid d) :
    Sound b (moves ++ [.publish thread address m]) (d.apply (.publish thread address m)) where
  run := h.run_append _
  registered := h.registered.of_same (.refl _) fun _ => rfl
  delivered := h.delivered
  threads := h.threads.begin hv.1
  alive := by
    intro x hx mark list k hstage
    rcases List.mem_append.mp hx with hx | hx
    · exact h.alive x hx mark list k hstage
    · rw [List.mem_singleton.mp hx] at hstage
      cases hstage
  progress := by
    intro p x hx
    change (d.publications ++ [_])[p]? = some x at hx
    rcases Nat.lt_or_ge p d.publications.length with hlt | hge
    · rw [List.getElem?_append_left hlt] at hx
      exact (h.progress p x hx).other (by rintro ⟨⟩) rfl
    · rw [List.getElem?_append_right hge] at hx
      have hnone : madeBy d.deliveries p = [] := List.filter_eq_nil_iff.mpr fun y hy he => by
        have hnumber := h.threads.numbers y hy
        rw [of_decide_eq_true he] at hnumber
        omega
      refine .looking ?_ hnone
      rw [List.mem_singleton.mp (List.mem_of_getElem? hx)]

/-- A subscription changes the list of a topic. -/
theorem subscribes {v : Move} {topic : TopicRef} {queue : QueueRef} (ht : d.broker.HasTopic topic)
    (hq : d.broker.HasQueue queue) (hpub : ∀ p, v ≠ .advance p)
    (hv : ∀ ref, v.subscribed? b ref = if topic = ref then some queue else none)
    (hd : d.apply v = { d with broker := d.broker.subscribeTo topic queue }) :
    Sound b (moves ++ [v]) (d.apply v) := by
  obtain ⟨hqueues, hmint⟩ := d.broker.subscribeTo_queues topic queue
  have hrun := h.run_append v
  rw [hd] at hrun ⊢
  refine ⟨hrun, h.registered.subscribeTo ht hq hv, ⟨fun ref => ?_, ?_, h.delivered.idents⟩,
    h.threads, fun x hx mark list k hstage target hmem => ?_,
    fun p x hx => (h.progress p x hx).other (hpub p) rfl⟩
  · rw [← h.delivered.queues]
    unfold queue?
    rw [hqueues]
  · rw [← h.delivered.issued, hmint]
  · have hhas := h.alive x hx mark list k hstage target hmem
    unfold HasQueue at hhas ⊢
    rwa [hqueues]

/-- A subscription by names that are not both registered changes nothing. -/
theorem refuses {v : Move} (hpub : ∀ p, v ≠ .advance p)
    (hv : ∀ ref, v.subscribed? b ref = none) (hd : d.apply v = d) :
    Sound b (moves ++ [v]) (d.apply v) := by
  have hrun := h.run_append v
  rw [hd] at hrun ⊢
  exact ⟨hrun, h.registered.of_same (.refl _) hv, h.delivered, h.threads, h.alive,
    fun p x hx => (h.progress p x hx).other (hpub p) rfl⟩

section Advance

variable {p : Nat} {x : Publication} (hx : d.publications[p]? = some x)
include hx

/-- After its own step, a publication stands where its next stage is. -/
theorem progress_own : Progress b (moves ++ [.advance p]) (d.advance p).deliveries p
    { x with stage := x.next d.broker } := by
  cases h.progress p x hx with
  | looking hstage hnone =>
    rw [advance_of_silent hx (by simp [Publication.target?, hstage])]
    cases hlook : b.lookUp x.address with
    | ok ref =>
      exact .found ref hlook (by simp [Publication.next, hstage, h.lookUp, hlook]) hnone
    | error e =>
      exact .refused e hlook (by simp [Publication.next, hstage, h.lookUp, hlook]) hnone
  | refused e hlook hstage hnone =>
    rw [advance_of_silent hx (by simp [Publication.target?, hstage])]
    exact .refused e hlook (by simp [Publication.next, hstage]) hnone
  | found ref hlook hstage hnone =>
    rw [advance_of_silent hx (by simp [Publication.target?, hstage])]
    refine .served moves [] ref (d.broker.subscribersOf ref) ?_
    refine ⟨rfl, hlook, ?_, ?_, ?_, ?_, fun y hy => ?_⟩
    · rw [← h.run]
      exact ⟨x, hx, hstage⟩
    · rw [← h.run]
    · simp [Publication.next, hstage, h.registered.names]
    · rw [show madeBy _ p = [] from hnone]
      rfl
    · rw [show madeBy _ p = [] from hnone] at hy
      exact absurd hy List.not_mem_nil
  | served before after ref list hs =>
    exact .served before (after ++ [.advance p]) ref list (hs.own hx)

/-- The lists that are served consist of queues that exist. -/
theorem alive_next {mark : String} {list : List QueueRef} {k : Nat}
    (hstage : x.next d.broker = .serving mark list k) :
    ∀ target ∈ list, d.broker.HasQueue target := by
  have hmem := List.mem_of_getElem? hx
  unfold Publication.next at hstage
  cases hs : x.stage with
  | looking =>
    rw [hs] at hstage
    cases hlook : d.broker.lookUp x.address <;> simp [hlook] at hstage
  | found ref =>
    rw [hs] at hstage
    obtain ⟨-, rfl, -⟩ := Publication.Stage.serving.inj hstage
    exact h.registered.closed.subscribers ref
  | serving mark' list' k' =>
    simp only [hs] at hstage
    split at hstage
    · obtain ⟨-, rfl, -⟩ := Publication.Stage.serving.inj hstage
      exact h.alive x hmem mark' list' k' hs
    · cases hstage
  | done r =>
    rw [hs] at hstage
    cases hstage

/-- A publication makes a step. -/
theorem advances : Sound b (moves ++ [.advance p]) (d.apply (.advance p)) := by
  have hlt := (List.getElem?_eq_some_iff.mp hx).1
  have hmem := List.mem_of_getElem? hx
  have hdone := fun hd : x.isDone = true => Publication.isDone_next hd d.broker
  have hown := h.progress_own hx
  have hpublications := publications_advance hx
  -- What is needed of the broker and the deliveries after the step.
  obtain ⟨hsame, hdelivered, hthreads, hmade⟩ :
      SameObjects d.broker (d.advance p).broker ∧
      Delivered b (d.advance p).broker (d.advance p).deliveries ∧
      Threads d.publications (d.advance p).deliveries ∧
      ∀ i ≠ p, madeBy (d.advance p).deliveries i = madeBy d.deliveries i := by
    rcases advance_cases hx with ⟨-, hadvance⟩ | ⟨mark, target, ht, hadvance⟩
    · rw [hadvance]
      exact ⟨.refl _, h.delivered, h.threads, fun _ _ => rfl⟩
    · obtain ⟨list, k, hstage, htarget⟩ := Publication.serving_of_target? ht
      have hhas := h.alive x hmem mark list k hstage target htarget
      obtain ⟨q, hq⟩ := hhas.queue?
      have hopen : x.isDone = false := by simp [Publication.isDone, hstage]
      rw [hadvance]
      refine ⟨(deliver_changes_markedCopy hq mark x.message).sameObjects,
        h.delivered.deliver hhas mark x.message p, h.threads.deliver hx hopen _ _, fun i hi => ?_⟩
      unfold madeBy
      rw [List.filter_append, List.filter_cons_of_neg (by simpa using Ne.symm hi)]
      exact List.append_nil _
  refine ⟨h.run_append _, h.registered.of_same hsame fun _ => rfl, hdelivered, ?_, ?_, ?_⟩
  · show Threads (d.advance p).publications _
    rw [hpublications]
    exact hthreads.set hx hdone
  · intro y hy mark list k hstage target htarget
    change y ∈ (d.advance p).publications at hy
    rw [hpublications] at hy
    refine (hsame.hasQueue target).mpr ?_
    rcases List.mem_or_eq_of_mem_set hy with hy | rfl
    · exact h.alive y hy mark list k hstage target htarget
    · exact h.alive_next hx hstage target htarget
  · intro i y hy
    change (d.advance p).publications[i]? = some y at hy
    rw [hpublications] at hy
    by_cases hi : p = i
    · subst hi
      rw [List.getElem?_set_self hlt] at hy
      obtain rfl := Option.some.inj hy
      exact hown
    · rw [List.getElem?_set_ne hi] at hy
      exact (h.progress i y hy).other (fun he => hi (Move.advance.inj he)) (hmade i (Ne.symm hi))

end Advance

/-- After one more move. -/
theorem apply {v : Move} (hv : v.Valid d) : Sound b (moves ++ [v]) (d.apply v) := by
  cases v with
  | publish thread address m => exact h.publishes hv
  | advance p => exact h.advances (List.getElem?_eq_getElem hv)
  | subscribeTo topic queue =>
    exact h.subscribes hv.1 hv.2 (by rintro p ⟨⟩) (fun _ => rfl) rfl
  | subscribe topic queue =>
    have htopic : d.broker.findTopic? topic = b.findTopic? topic := by
      unfold findTopic?
      rw [h.registered.topicNames]
    have hqueue : d.broker.findQueue? queue = b.findQueue? queue := by
      unfold findQueue?
      rw [h.registered.queueNames]
    have hpub : ∀ p, Move.subscribe topic queue ≠ .advance p := by rintro p ⟨⟩
    have happly : d.apply (.subscribe topic queue) =
        { d with broker := d.broker.orUnchanged (d.broker.subscribe topic queue) } := rfl
    cases ht : b.findTopic? topic with
    | none =>
      refine h.refuses hpub (fun ref => ?_) ?_
      · simp [Move.subscribed?, ht]
      · rw [happly, Broker.subscribe, htopic, ht]
        rfl
    | some t =>
      cases hq : b.findQueue? queue with
      | none =>
        refine h.refuses hpub (fun ref => ?_) ?_
        · simp [Move.subscribed?, hq]
        · rw [happly, Broker.subscribe, htopic, hqueue, ht, hq]
          rfl
      | some q =>
        rw [ht] at htopic
        rw [hq] at hqueue
        refine h.subscribes (h.registered.closed.topicNames topic t htopic)
          (h.registered.closed.queueNames queue q hqueue) hpub (fun ref => ?_) ?_
        · simp [Move.subscribed?, ht, hq]
        · rw [happly, Broker.subscribe, htopic, hqueue]
          rfl

/-- After several more moves. -/
theorem run_sound {more : List Move} (hv : d.Admits more) :
    Sound b (moves ++ more) (d.run more) := by
  induction more generalizing moves d with
  | nil =>
    rw [List.append_nil]
    exact h
  | cons v rest ih =>
    have hrest := ih (h.apply hv.1) hv.2
    rw [List.append_assoc] at hrest
    exact hrest

end Sound

/-- A publication that is done has returned the length of the list that it took, and each queue got
as many of its copies as it occurs in that list; or its topic was not found, and there are none. -/
theorem Progress.result {b : Broker} {moves : List Move} {deliveries : List Delivery} {p : Nat}
    {x : Publication} (h : Progress b moves deliveries p x) {r : Except BrokerError Nat}
    (hdone : x.stage = .done r) :
    (∃ e, b.lookUp x.address = .error e ∧ r = .error e ∧ madeBy deliveries p = []) ∨
      ∃ before after ref list, Served b moves deliveries p x before after ref list ∧
        r = .ok list.length ∧ ∀ queue,
          ((madeBy deliveries p).map Delivery.target).count queue = list.count queue := by
  cases h with
  | looking hstage hnone =>
    rw [hdone] at hstage
    cases hstage
  | found ref hlook hstage hnone =>
    rw [hdone] at hstage
    cases hstage
  | refused e hlook hstage hnone =>
    rw [hdone] at hstage
    exact .inl ⟨e, hlook, Publication.Stage.done.inj hstage, hnone⟩
  | served before after ref list hs =>
    refine .inr ⟨before, after, ref, list, hs, ?_⟩
    have hstage := hs.stage
    rw [hdone] at hstage
    split at hstage
    · cases hstage
    · rename_i hlt
      refine ⟨Publication.Stage.done.inj hstage, fun queue => ?_⟩
      rw [hs.targets, List.take_of_length_le (by omega)]

/-- The publications are those that the moves begin, in that order. -/
theorem begun_run (d : Dispatch) (moves : List Move) :
    (d.run moves).publications.map (fun x => (x.thread, x.address, x.message)) =
      d.publications.map (fun x => (x.thread, x.address, x.message)) ++
        moves.filterMap Move.begins? := by
  induction moves generalizing d with
  | nil => exact (List.append_nil _).symm
  | cons v rest ih =>
    refine (ih (d.apply v)).trans ?_
    cases v with
    | publish thread address m =>
      show (d.publications ++ [_]).map _ ++ _ = _
      rw [List.map_append, List.append_assoc]
      rfl
    | advance p =>
      -- A step changes the stage alone.
      have hsame : (d.advance p).publications.map (fun x => (x.thread, x.address, x.message)) =
          d.publications.map (fun x => (x.thread, x.address, x.message)) := by
        cases hx : d.publications[p]? with
        | none =>
          unfold advance
          rw [hx]
        | some x =>
          have hlt := (List.getElem?_eq_some_iff.mp hx).1
          rw [publications_advance hx]
          apply List.ext_getElem?
          intro i
          rw [List.getElem?_map, List.getElem?_map]
          by_cases hi : p = i
          · rw [← hi, List.getElem?_set_self hlt, hx]
            rfl
          · rw [List.getElem?_set_ne hi]
      show (d.advance p).publications.map _ ++ _ = _
      rw [hsame]
      rfl
    | subscribe | subscribeTo => rfl

/-- Threads publish and subscribe in any order, from any broker whose references are alive. The
publications are those that the threads have begun. Each of them stands where `Progress` says. If it
is done, either its topic was not found, which it has reported, and it has delivered nothing; or
else it has returned the length of the list that it took, each queue got as many of its copies as it
occurs in that list, and no other.

A queue holds what it held at the start, and behind that the copies that were delivered to it. Each
delivery is one of a publication that was begun, and all copies have ids and delivery ids of their
own. In each queue, the copies of one thread come in the order of its publications. A topic has the
subscriptions from the start and then those that were made, and that is so at each moment of a run,
since what comes before it is a run as well. And whatever is under way, a publication with which
nobody interferes has the effect and the result of one in one piece. -/
theorem publishers_and_subscribers {b : Broker} (hb : b.Closed) {moves : List Move}
    (hv : (start b).Admits moves) {d : Dispatch} (hd : d = (start b).run moves) :
    d.publications.map (fun x => (x.thread, x.address, x.message)) =
      moves.filterMap Move.begins? ∧
    (∀ p x, d.publications[p]? = some x → Progress b moves d.deliveries p x ∧
      ∀ r, x.stage = .done r →
        (∃ e, b.lookUp x.address = .error e ∧ r = .error e ∧ madeBy d.deliveries p = []) ∨
        ∃ before after ref list, Served b moves d.deliveries p x before after ref list ∧
          r = .ok list.length ∧ ∀ queue,
            ((madeBy d.deliveries p).map Delivery.target).count queue = list.count queue) ∧
    (∀ queue, d.broker.queue? queue =
      (b.queue? queue).map (·.enqueueAll (sent d.deliveries queue))) ∧
    (∀ y ∈ d.deliveries, y.publication < d.publications.length) ∧
    (d.deliveries.flatMap fun y => [y.copy.id, y.copy.getMetadata deliveryIdKey]).Nodup ∧
    (∀ queue, (d.deliveries.filter (·.target = queue)).Pairwise fun y z =>
      thread? d.publications y.publication = thread? d.publications z.publication →
        y.publication ≤ z.publication) ∧
    (∀ ref, d.broker.subscribersOf ref =
      b.subscribersOf ref ++ moves.filterMap (Move.subscribed? b ref)) ∧
    ∀ thread address m, ∃ n,
      let alone := .publish thread address m ::
        List.replicate n (.advance d.publications.length)
      (d.run alone).broker = (d.broker.publishAt m address).2 ∧
        (d.run alone).publications = d.publications ++
          [⟨thread, address, m, .done (d.broker.publishAt m address).1⟩] := by
  have hs := (sound_start hb).run_sound hv
  rw [List.nil_append, ← hd] at hs
  refine ⟨?_, fun p x hx => ?_, hs.delivered.queues, hs.threads.numbers, ?_, fun queue => ?_,
    hs.registered.subscribers, run_alone d⟩
  · rw [hd]
    exact begun_run _ _
  · have hprogress := hs.progress p x hx
    exact ⟨hprogress, fun r hr => hprogress.result hr⟩
  · rw [hs.delivered.idents]
    exact Mint.nodup_upcoming _ _
  · exact hs.threads.ordered.sublist List.filter_sublist

/-- A broker with a topic, to which one of two queues is subscribed. -/
def oneSubscriber : Broker := (create .standard).performAll
  [.createTopic "orders", .createQueue "work" {}, .createQueue "audit" {},
    .subscribe "orders" "work"]

/-- Two threads publish to the topic. The other queue is subscribed when one of them has taken the
list of the subscribers, but not the other. -/
def lateSubscription : List Move :=
  [.publish 0 (.named "orders") (.create (.text "m") "first" [] .first),
    .publish 1 (.named "orders") (.create (.text "n") "second" [] .first),
    .advance 0, .advance 0,
    .subscribe "orders" "audit",
    .advance 1, .advance 1, .advance 1, .advance 0, .advance 0, .advance 1, .advance 1]

/-- The first publication has returned one, the second two; the queue subscribed late got a copy of
the second alone, and the other one the copies in the order of their deliveries. -/
theorem publishers_and_subscribers_lateSubscription :
    let d := (start oneSubscriber).run lateSubscription
    d.publications.map Publication.stage = [.done (.ok 1), .done (.ok 2)] ∧
      (∃ list : List QueueRef, list.length = 1 ∧
        ∀ queue, ((madeBy d.deliveries 0).map Delivery.target).count queue = list.count queue) ∧
      (d.broker.contents ⟨0⟩).map Message.kind = ["second", "first"] ∧
      (d.broker.contents ⟨1⟩).map Message.kind = ["second"] ∧
      (d.deliveries.flatMap fun y => [y.copy.id, y.copy.getMetadata deliveryIdKey]).Nodup := by
  intro d
  have hb : oneSubscriber.Closed := closed_performAll (closed_create .standard) (by decide)
  have hv : (start oneSubscriber).Admits lateSubscription := by decide
  obtain ⟨-, hprogress, hqueues, -, hnodup, -⟩ := publishers_and_subscribers hb hv (d := d) rfl
  refine ⟨rfl, ?_, ?_, ?_, hnodup⟩
  · rcases (hprogress 0 _ rfl).2 (.ok 1) rfl with ⟨e, -, he, -⟩ | ⟨_, _, _, list, -, hr, hcount⟩
    · cases he
    · exact ⟨list, (Except.ok.inj hr).symm, hcount⟩
  · rw [contents_of_queue? (hqueues ⟨0⟩)]
    rfl
  · rw [contents_of_queue? (hqueues ⟨1⟩)]
    rfl

end Dispatch

end MessageBroker
