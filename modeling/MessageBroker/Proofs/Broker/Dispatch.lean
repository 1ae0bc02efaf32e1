import MessageBroker.Proofs.Broker.Copies

/-!
# Publications under way

Several threads publish and subscribe at once. A publication is not one step: it looks its topic up,
takes the list of the topic's subscribers, and then delivers one copy after the other to the queues
of that list. Between two of its steps other threads do theirs. A subscription is one step. Here a
`Dispatch` is the broker together with the publications that were begun, each at its stage, and with
all deliveries so far. A run is any sequence of moves in which a thread begins a publication only
when those it began before are done.

When nobody interferes, the steps of a publication do what a publication in one piece does
(`run_alone`).
-/

namespace MessageBroker

/-- A topic by its registered name, or the topic object. -/
inductive Address where
  | named (topic : String)
  | object (topic : TopicRef)
deriving DecidableEq

namespace Publication

/-- What a publication does next. -/
inductive Stage where
  /-- It looks its topic up. -/
  | looking
  /-- It takes the list of the topic's subscribers. -/
  | found (topic : TopicRef)
  /-- It goes through the list that it took, of which it has served so many places. -/
  | serving (mark : String) (targets : List QueueRef) (delivered : Nat)
  | done (result : Except BrokerError Nat)

end Publication

/-- A publication that a thread has begun. -/
structure Publication where
  thread : Nat
  address : Address
  message : Message
  stage : Publication.Stage

/-- A copy that a publication, by its number, has put in a queue. -/
structure Delivery where
  publication : Nat
  target : QueueRef
  copy : Message

/-- A broker and the publications under way. These are listed in the order in which they were begun,
and the deliveries in the order in which they were made. -/
structure Dispatch where
  broker : Broker
  publications : List Publication
  deliveries : List Delivery

namespace Broker

/-- If the address is a topic object, that exists. -/
def HasAddress (b : Broker) : Address → Prop
  | .named _ => True
  | .object ref => b.HasTopic ref

instance (b : Broker) : (address : Address) → Decidable (b.HasAddress address)
  | .named _ => inferInstanceAs (Decidable True)
  | .object ref => inferInstanceAs (Decidable (b.HasTopic ref))

/-- The topic object of an address, at this moment. -/
def lookUp (b : Broker) : Address → Except BrokerError TopicRef
  | .named topic =>
    match b.findTopic? topic with
    | some ref => .ok ref
    | none => .error (.topicNotFound topic)
  | .object ref => .ok ref

end Broker

namespace Publication

/-- The publication is over. -/
def isDone (x : Publication) : Bool :=
  match x.stage with
  | .done _ => true
  | _ => false

/-- The stage after the next step. -/
def next (x : Publication) (b : Broker) : Stage :=
  match x.stage with
  | .looking =>
    match b.lookUp x.address with
    | .ok ref => .found ref
    | .error e => .done (.error e)
  | .found ref => .serving (b.nameOf ref) (b.subscribersOf ref) 0
  | .serving mark targets delivered =>
    if delivered < targets.length then .serving mark targets (delivered + 1)
    else .done (.ok delivered)
  | .done result => .done result

/-- The queue to which the next step delivers, if it does, and the topic's name for the copy. -/
def target? (x : Publication) : Option (String × QueueRef) :=
  match x.stage with
  | .serving mark targets delivered => targets[delivered]?.map (mark, ·)
  | _ => none

/-- A publication that delivers with its next step serves a list that has the queue in it. -/
theorem serving_of_target? {x : Publication} {mark : String} {target : QueueRef}
    (h : x.target? = some (mark, target)) :
    ∃ targets k, x.stage = .serving mark targets k ∧ target ∈ targets := by
  unfold target? at h
  cases hs : x.stage with
  | serving mark' targets k =>
    rw [hs] at h
    obtain ⟨target', hget, he⟩ := Option.map_eq_some_iff.mp h
    obtain ⟨rfl, rfl⟩ := Prod.mk.inj he
    exact ⟨targets, k, rfl, List.mem_of_getElem? hget⟩
  | looking | found | done =>
    rw [hs] at h
    cases h

/-- A publication that is over stays so. -/
theorem isDone_next {x : Publication} (h : x.isDone = true) (b : Broker) :
    ({ x with stage := x.next b } : Publication).isDone = true := by
  unfold isDone next at *
  cases hs : x.stage with
  | done r => rfl
  | looking | found | serving =>
    rw [hs] at h
    cases h

end Publication

namespace Dispatch

/-- A broker without publications. -/
def start (b : Broker) : Dispatch := ⟨b, [], []⟩

/-- The next step of a publication. -/
def advance (d : Dispatch) (p : Nat) : Dispatch :=
  match d.publications[p]? with
  | none => d
  | some x =>
    let publications := d.publications.set p { x with stage := x.next d.broker }
    match x.target? with
    | none => { d with publications }
    | some (mark, target) =>
      ⟨d.broker.deliver mark x.message target, publications,
        d.deliveries ++ [⟨p, target, (d.broker.publicationCopy mark x.message).1⟩]⟩

/-- What the threads can do. -/
inductive Move where
  | publish (thread : Nat) (address : Address) (message : Message)
  /-- The next step of a publication. -/
  | advance (p : Nat)
  | subscribe (topic queue : String)
  | subscribeTo (topic : TopicRef) (queue : QueueRef)
deriving DecidableEq

/-- A thread publishes when it has done with what it published before. References lead to
objects. -/
def Move.Valid (d : Dispatch) : Move → Prop
  | .publish thread address _ =>
    (∀ x ∈ d.publications, x.thread = thread → x.isDone = true) ∧ d.broker.HasAddress address
  | .advance p => p < d.publications.length
  | .subscribe _ _ => True
  | .subscribeTo topic queue => d.broker.HasTopic topic ∧ d.broker.HasQueue queue

instance (d : Dispatch) : (v : Move) → Decidable (v.Valid d)
  | .publish _ _ _ => inferInstanceAs (Decidable (_ ∧ _))
  | .advance _ => inferInstanceAs (Decidable (_ < _))
  | .subscribe _ _ => inferInstanceAs (Decidable True)
  | .subscribeTo _ _ => inferInstanceAs (Decidable (_ ∧ _))

/-- The state after a move. -/
def apply (d : Dispatch) : Move → Dispatch
  | .publish thread address message =>
    { d with publications := d.publications ++ [⟨thread, address, message, .looking⟩] }
  | .advance p => d.advance p
  | .subscribe topic queue => { d with broker := d.broker.perform (.subscribe topic queue) }
  | .subscribeTo topic queue => { d with broker := d.broker.subscribeTo topic queue }

/-- The state after several moves. -/
def run (d : Dispatch) (moves : List Move) : Dispatch := moves.foldl apply d

/-- Each of the moves is valid when it is made. -/
def Admits (d : Dispatch) : List Move → Prop
  | [] => True
  | v :: rest => v.Valid d ∧ (d.apply v).Admits rest

instance decidableAdmits (d : Dispatch) : (moves : List Move) → Decidable (d.Admits moves)
  | [] => .isTrue trivial
  | v :: rest =>
    have := decidableAdmits (d.apply v) rest
    inferInstanceAs (Decidable (_ ∧ _))

/-! ## One step -/

section Steps

variable {d : Dispatch} {p : Nat} {x : Publication} (hx : d.publications[p]? = some x)
include hx

/-- A step takes the publication to its next stage, and nothing more, or it delivers a copy. -/
theorem advance_cases :
    x.target? = none ∧ d.advance p = { d with
      publications := d.publications.set p { x with stage := x.next d.broker } } ∨
    ∃ mark target, x.target? = some (mark, target) ∧ d.advance p =
      ⟨d.broker.deliver mark x.message target,
        d.publications.set p { x with stage := x.next d.broker },
        d.deliveries ++ [⟨p, target, (d.broker.publicationCopy mark x.message).1⟩]⟩ := by
  unfold advance
  rw [hx]
  cases ht : x.target? with
  | none => exact .inl ⟨rfl, by simp only [ht]⟩
  | some address => exact .inr ⟨address.1, address.2, rfl, by simp only [ht]⟩

/-- A step without a delivery takes the publication to its next stage. -/
theorem advance_of_silent (ht : x.target? = none) : d.advance p = { d with
    publications := d.publications.set p { x with stage := x.next d.broker } } := by
  rcases advance_cases hx with ⟨-, h⟩ | ⟨mark, target, hsome, -⟩
  · exact h
  · rw [ht] at hsome
    cases hsome

/-- A step of a publication changes its stage, and no other publication. -/
theorem publications_advance :
    (d.advance p).publications = d.publications.set p { x with stage := x.next d.broker } := by
  rcases advance_cases hx with ⟨-, h⟩ | ⟨_, _, -, h⟩ <;> rw [h]

end Steps

/-! ## Nobody interferes -/

/-- With nobody interfering, a publication serves the rest of its list and is done. -/
theorem serve_alone {d : Dispatch} {p : Nat} {x : Publication}
    (hx : d.publications[p]? = some x) {mark : String} {targets : List QueueRef} {k : Nat}
    (hk : k ≤ targets.length) (hstage : x.stage = .serving mark targets k) :
    ∃ n, (d.run (List.replicate n (.advance p))).broker =
        Broker.deliverAll mark x.message (targets.drop k) d.broker ∧
      (d.run (List.replicate n (.advance p))).publications =
        d.publications.set p { x with stage := .done (.ok targets.length) } := by
  induction hn : targets.length - k generalizing d x k with
  | zero =>
    obtain rfl : k = targets.length := by omega
    have hnext : x.next d.broker = .done (.ok targets.length) := by
      simp [Publication.next, hstage]
    have hnone : x.target? = none := by simp [Publication.target?, hstage]
    refine ⟨1, ?_⟩
    show (d.advance p).broker = _ ∧ (d.advance p).publications = _
    rw [advance_of_silent hx hnone, hnext, List.drop_length]
    exact ⟨rfl, rfl⟩
  | succ n ih =>
    have hlt : k < targets.length := by omega
    have hnext : x.next d.broker = .serving mark targets (k + 1) := by
      simp [Publication.next, hstage, hlt]
    have htarget : x.target? = some (mark, targets[k]) := by
      simp [Publication.target?, hstage, hlt]
    rcases advance_cases hx with ⟨hnone, -⟩ | ⟨mark', target, ht, h⟩
    · rw [htarget] at hnone
      cases hnone
    · obtain ⟨rfl, rfl⟩ := Prod.mk.inj (Option.some.inj (htarget.symm.trans ht))
      have hmoved : (d.advance p).publications[p]? =
          some { x with stage := .serving mark targets (k + 1) } := by
        rw [publications_advance hx, hnext]
        exact List.getElem?_set_self (List.getElem?_eq_some_iff.mp hx).1
      obtain ⟨n, hbroker, hpublications⟩ := ih hmoved hlt rfl (by omega)
      refine ⟨n + 1, ?_⟩
      show ((d.advance p).run (List.replicate n (.advance p))).broker = _ ∧
        ((d.advance p).run (List.replicate n (.advance p))).publications = _
      rw [hbroker, hpublications, publications_advance hx, List.set_set, h,
        List.drop_eq_getElem_cons hlt]
      exact ⟨rfl, rfl⟩

end Dispatch

namespace Broker

/-- A publication in one piece, without a deadline. -/
def publishAt (b : Broker) (m : Message) : Address → Except BrokerError Nat × Broker
  | .named topic => b.publish topic m none fun _ => .zero
  | .object ref => b.publishTo ref m none fun _ => .zero

/-- A publication in one piece delivers to all subscribers of the topic, if that is found. -/
theorem publishAt_eq (b : Broker) (m : Message) (address : Address) : b.publishAt m address =
    match b.lookUp address with
    | .ok ref => (.ok (b.subscribersOf ref).length,
        deliverAll (b.nameOf ref) m (b.subscribersOf ref) b)
    | .error e => (.error e, b) := by
  have hobject : ∀ ref, b.publishTo ref m none (fun _ => .zero) =
      (.ok (b.subscribersOf ref).length,
        deliverAll (b.nameOf ref) m (b.subscribersOf ref) b) := by
    intro ref
    unfold subscribersOf nameOf
    cases ht : b.topic? ref with
    | none =>
      unfold publishTo
      rw [ht]
      rfl
    | some t => exact publishTo_of_early ht m fun _ _ => rfl
  cases address with
  | object ref => exact hobject ref
  | named topic =>
    cases hf : b.findTopic? topic with
    | none => simp only [publishAt, publish, lookUp, hf]
    | some ref => simp only [publishAt, publish, lookUp, hf, hobject]

end Broker

namespace Dispatch

/-- With nobody interfering, the steps of a publication do what it does in one piece: the effect is
the same, and so is the result. -/
theorem run_alone (d : Dispatch) (thread : Nat) (address : Address) (m : Message) :
    ∃ n, let moves := .publish thread address m :: List.replicate n (.advance d.publications.length)
      (d.run moves).broker = (d.broker.publishAt m address).2 ∧
      (d.run moves).publications = d.publications ++
        [⟨thread, address, m, .done (d.broker.publishAt m address).1⟩] := by
  generalize hp : d.publications.length = p
  have hset : ∀ x y, (d.publications ++ [x]).set p y = d.publications ++ [y] := fun x y => by
    rw [List.set_append_right _ _ (Nat.le_of_eq hp), hp, Nat.sub_self]
    rfl
  have hlast : ∀ x, (d.publications ++ [x])[p]? = some x := fun x => by
    rw [List.getElem?_append_right (Nat.le_of_eq hp), hp, Nat.sub_self]
    rfl
  -- A step that delivers nothing, while the publication is the last one.
  have hstep : ∀ x, x.target? = none →
      advance ⟨d.broker, d.publications ++ [x], d.deliveries⟩ p =
        ⟨d.broker, d.publications ++ [{ x with stage := x.next d.broker }], d.deliveries⟩ := by
    intro x ht
    rw [advance_of_silent (hlast x) ht, hset]
  have hbegin : d.apply (.publish thread address m) =
      ⟨d.broker, d.publications ++ [⟨thread, address, m, .looking⟩], d.deliveries⟩ := rfl
  have hlooked := hstep ⟨thread, address, m, .looking⟩ rfl
  rw [Broker.publishAt_eq]
  cases hlook : d.broker.lookUp address with
  | error e =>
    have hnext : Publication.next ⟨thread, address, m, .looking⟩ d.broker =
        .done (.error e) := by
      simp only [Publication.next, hlook]
    rw [hnext] at hlooked
    refine ⟨1, ?_⟩
    show (run (advance _ p) []).broker = _ ∧ (run (advance _ p) []).publications = _
    rw [hbegin, hlooked]
    exact ⟨rfl, rfl⟩
  | ok ref =>
    have hnext : Publication.next ⟨thread, address, m, .looking⟩ d.broker = .found ref := by
      simp only [Publication.next, hlook]
    rw [hnext] at hlooked
    have htaken := hstep ⟨thread, address, m, .found ref⟩ rfl
    obtain ⟨n, hbroker, hpublications⟩ := serve_alone (d := ⟨d.broker, d.publications ++
      [⟨thread, address, m, .serving (d.broker.nameOf ref) (d.broker.subscribersOf ref) 0⟩],
      d.deliveries⟩) (hlast _) (Nat.zero_le _) rfl
    refine ⟨n + 2, ?_⟩
    show (run (advance (advance _ p) p) (List.replicate n (.advance p))).broker = _ ∧
      (run (advance (advance _ p) p) (List.replicate n (.advance p))).publications = _
    rw [hbegin, hlooked, htaken]
    exact ⟨hbroker, hpublications.trans (hset _ _)⟩

end Dispatch

end MessageBroker
