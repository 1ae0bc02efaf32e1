import MessageBroker.Proofs.Broker.Operation

/-!
# Calls that are refused

A refused call leaves no trace if it had changed nothing by the time it was refused. A function
whose errors come without a state cannot show that, so the calls that may be refused are written
here as procedures: they read and change the broker one step after the other, and an error ends them
where they are, with whatever was changed by then. `Broker.answer` is what a call returns together
with the state it leaves behind.

The procedures do what the calls on the broker do (`Procedure.answer_subscribe`,
`Procedure.answer_acknowledge`, `Procedure.answer_nack`), and the state they leave is that of
`perform` (`answer_snd`). When a name or a handle leads nowhere, that is the state before the call
(`answer_of_refusal`). A publication that comes too late is refused as well, but not without a
trace.
-/

namespace MessageBroker

/-- A call in steps. A step reads or changes the broker, or ends the call with an error; what was
changed before stays changed. -/
abbrev Procedure (α : Type) := ExceptT BrokerError (StateM Broker) α

namespace Procedure

open Broker

/-- What a procedure returns, or the error that ends it, and the state it leaves behind. -/
def answer {α : Type} (p : Procedure α) (b : Broker) : Except BrokerError α × Broker := p.run.run b

/-! ## The steps of the calls -/

/-- Changes the state of a queue object. -/
def modifyQueue (ref : QueueRef) (change : Queue → Queue) : Procedure Unit :=
  modify fun b =>
    match b.queue? ref with
    | some q => b.setQueue ref (change q)
    | none => b

/-- Finds the first message that carries a handle: its queue, the message, and its place. -/
def locate (ref : QueueRef) (handle : Ident) : Procedure (Queue × Message × Nat) := do
  match (← get).queue? ref with
  | none => throw (.invalidReceipt handle)
  | some q =>
    match q.messages.zipIdx.find? fun x => Queue.carries handle x.1 with
    | none => throw (.invalidReceipt handle)
    | some (m, i) => return (q, m, i)

/-- Takes the message that carries the handle out of its queue, and then counts it. -/
def acknowledge (ref : QueueRef) (handle : Ident) : Procedure Unit := do
  let (_, _, i) ← locate ref handle
  modifyQueue ref fun q => { q with messages := q.messages.eraseIdx i }
  modifyQueue ref fun q => { q with processed := q.processed + 1 }

/-- Clears the lease of the message that carries the handle, one field after the other; or, if the
budget is used up, takes the message out, counts it, and deposits a copy. -/
def nack (ref : QueueRef) (handle : Ident) : Procedure Unit := do
  let (q, m, i) ← locate ref handle
  if m.retryCount < q.maxRetries then
    modifyQueue ref fun q => { q with messages := q.messages.set i { m with hiddenUntil := none } }
    modifyQueue ref fun q => { q with messages := q.messages.set i m.released }
  else
    modifyQueue ref fun q => { q with messages := q.messages.eraseIdx i }
    modifyQueue ref fun q => { q with failed := q.failed + 1 }
    modify fun b => b.deposit ⟨ref, m⟩

/-- Looks the topic up, then the queue, and then adds the subscription. -/
def subscribe (topic queue : String) : Procedure Unit := do
  match (← get).findTopic? topic with
  | none => throw (.topicNotFound topic)
  | some t =>
    match (← get).findQueue? queue with
    | none => throw (.queueNotFound queue)
    | some q => modify fun b => b.subscribeTo t q

/-! ## The steps do what the calls do -/

section Steps

variable {α β : Type} {p : Procedure α} {b b' : Broker}

/-- Where its first part returns, a procedure goes on from the state that part leaves. -/
theorem answer_bind_ok {a : α} (h : p.answer b = (.ok a, b')) (next : α → Procedure β) :
    (p >>= next).answer b = (next a).answer b' := by
  show ExceptT.bindCont next (p.answer b).1 (p.answer b).2 = _
  rw [h]
  rfl

/-- Where its first part is ended by an error, so is a procedure. -/
theorem answer_bind_error {e : BrokerError} (h : p.answer b = (.error e, b'))
    (next : α → Procedure β) : (p >>= next).answer b = (.error e, b') := by
  show ExceptT.bindCont next (p.answer b).1 (p.answer b).2 = _
  rw [h]
  rfl

end Steps

/-- A subscription in steps is the subscription. -/
theorem answer_subscribe (topic queue : String) (b : Broker) :
    (subscribe topic queue).answer b =
      ((b.subscribe topic queue).map fun _ => (), b.orUnchanged (b.subscribe topic queue)) := by
  have hget : (get : Procedure Broker).answer b = (.ok b, b) := rfl
  unfold subscribe Broker.subscribe
  rw [answer_bind_ok hget]
  cases b.findTopic? topic with
  | none => rfl
  | some t =>
    simp only
    rw [answer_bind_ok hget]
    cases b.findQueue? queue with
    | none => rfl
    | some q => rfl

section Locate

variable {b : Broker} {ref : QueueRef} {handle : Ident}

/-- A handle that no message of the queue carries is not found. -/
theorem answer_locate_error (h : ∀ m ∈ b.contents ref, m.receipt ≠ some handle) :
    (locate ref handle).answer b = (.error (.invalidReceipt handle), b) := by
  have hget : (get : Procedure Broker).answer b = (.ok b, b) := rfl
  unfold locate
  rw [answer_bind_ok hget]
  unfold contents at h
  cases hq : b.queue? ref with
  | none => rfl
  | some q =>
    rw [hq] at h
    have hfind : q.messages.zipIdx.find? (fun x => Queue.carries handle x.1) = none := by
      rw [List.find?_eq_none]
      intro x hx hc
      exact h x.1 (List.fst_mem_of_mem_zipIdx hx) (Queue.carries_iff.mp hc)
    simp only [hfind]
    rfl

variable {q : Queue} {before after : List Message} {m : Message} (hq : b.queue? ref = some q)
  (hs : q.messages = before ++ m :: after) (hbefore : ∀ x ∈ before, x.receipt ≠ some handle)
  (hm : m.receipt = some handle)
include hq

/-- A queue object that exists is changed. -/
theorem answer_modifyQueue (change : Queue → Queue) :
    (modifyQueue ref change).answer b = (.ok (), b.setQueue ref (change q)) := by
  show (Except.ok (), match b.queue? ref with
    | some q => b.setQueue ref (change q)
    | none => b) = _
  rw [hq]

include hs hbefore hm

/-- The first message that carries the handle is found in its place. -/
theorem answer_locate_ok : (locate ref handle).answer b = (.ok (q, m, before.length), b) := by
  have hget : (get : Procedure Broker).answer b = (.ok b, b) := rfl
  have hfind : q.messages.zipIdx.find? (fun x => Queue.carries handle x.1) =
      some (m, before.length) := by
    have hnone : before.zipIdx.find? (fun x => Queue.carries handle x.1) = none := by
      rw [List.find?_eq_none]
      intro x hx hc
      exact hbefore x.1 (List.fst_mem_of_mem_zipIdx hx) (Queue.carries_iff.mp hc)
    have hhead := List.find?_cons_of_pos (p := fun x : Message × Nat => Queue.carries handle x.1)
      (a := (m, before.length)) (l := after.zipIdx (before.length + 1)) (Queue.carries_iff.mpr hm)
    rw [hs, List.zipIdx_append, List.find?_append, hnone, Nat.zero_add, List.zipIdx_cons, hhead]
    rfl
  unfold locate
  rw [answer_bind_ok hget]
  simp only [hq, hfind]
  rfl

end Locate

/-- An acknowledgement in steps is the acknowledgement. -/
theorem answer_acknowledge (ref : QueueRef) (handle : Ident) (b : Broker) :
    (acknowledge ref handle).answer b =
      ((b.acknowledge ref handle).map fun _ => (),
        b.orUnchanged (b.acknowledge ref handle)) := by
  unfold acknowledge
  rcases b.first_split ref (·.receipt = some handle) with
    h | ⟨q, before, m, after, hq, hs, hbefore, hm⟩
  · rw [answer_bind_error (answer_locate_error h), acknowledge_eq_error h]
    rfl
  · have herase : q.messages.eraseIdx before.length = before ++ after := by
      rw [hs, List.eraseIdx_append_of_length_le (Nat.le_refl _), Nat.sub_self]
      rfl
    have htaken := queue?_setQueue_self hq { q with messages := before ++ after }
    rw [answer_bind_ok (answer_locate_ok hq hs hbefore hm), acknowledge_eq_ok hq hs hbefore hm]
    simp only
    rw [answer_bind_ok (answer_modifyQueue hq _), herase, answer_modifyQueue htaken,
      setQueue_setQueue]
    rfl

/-- A nack in steps is the nack. -/
theorem answer_nack (ref : QueueRef) (handle : Ident) (b : Broker) :
    (nack ref handle).answer b =
      ((b.nack ref handle).map fun _ => (), b.orUnchanged (b.nack ref handle)) := by
  unfold nack
  rcases b.first_split ref (·.receipt = some handle) with
    h | ⟨q, before, m, after, hq, hs, hbefore, hm⟩
  · rw [answer_bind_error (answer_locate_error h), nack_eq_error h]
    rfl
  · rw [answer_bind_ok (answer_locate_ok hq hs hbefore hm)]
    rcases Nat.lt_or_ge m.retryCount q.maxRetries with hlt | hge
    · have hshown := queue?_setQueue_self hq
        { q with messages := q.messages.set before.length { m with hiddenUntil := none } }
      have hreleased : (q.messages.set before.length { m with hiddenUntil := none }).set
          before.length m.released = before ++ m.released :: after := by
        rw [List.set_set, hs, List.set_append_right _ _ (Nat.le_refl _), Nat.sub_self]
        rfl
      rw [nack_eq_release hq hs hbefore hm hlt]
      simp only [if_pos hlt]
      rw [answer_bind_ok (answer_modifyQueue hq _), answer_modifyQueue hshown, setQueue_setQueue,
        hreleased]
      rfl
    · have herase : q.messages.eraseIdx before.length = before ++ after := by
        rw [hs, List.eraseIdx_append_of_length_le (Nat.le_refl _), Nat.sub_self]
        rfl
      have htaken := queue?_setQueue_self hq { q with messages := before ++ after }
      rw [nack_eq_giveUp hq hs hbefore hm hge]
      simp only [if_neg (Nat.not_lt.mpr hge)]
      rw [answer_bind_ok (answer_modifyQueue hq _), herase,
        answer_bind_ok (answer_modifyQueue htaken _), setQueue_setQueue]
      rfl

end Procedure

/-- The error means that a name or a handle leads nowhere. -/
def BrokerError.LeadsNowhere : BrokerError → Prop
  | .topicNotFound _ | .queueNotFound _ | .invalidReceipt _ => True
  | _ => False

namespace Broker

/-! ## What calls return and leave behind -/

/-- Whether a call succeeds, and the state it leaves behind in both cases. -/
def answer (b : Broker) : Operation → Except BrokerError Unit × Broker
  | .subscribe topic queue => (Procedure.subscribe topic queue).answer b
  | .publish topic m deadline clock =>
    let result := b.publish topic m deadline clock
    (result.1.map fun _ => (), result.2)
  | .publishTo topic m deadline clock =>
    let result := b.publishTo topic m deadline clock
    (result.1.map fun _ => (), result.2)
  | .acknowledge ref handle => (Procedure.acknowledge ref handle).answer b
  | .nack ref handle => (Procedure.nack ref handle).answer b
  | op => (.ok (), b.perform op)

variable {b : Broker}

/-- The state that a call leaves behind is its effect. -/
theorem answer_snd (op : Operation) : (b.answer op).2 = b.perform op := by
  cases op with
  | subscribe topic queue => exact congrArg Prod.snd (Procedure.answer_subscribe topic queue b)
  | acknowledge ref handle => exact congrArg Prod.snd (Procedure.answer_acknowledge ref handle b)
  | nack ref handle => exact congrArg Prod.snd (Procedure.answer_nack ref handle b)
  | _ => rfl

/-- Forgetting what a call returns keeps its errors. -/
theorem map_unit_eq_error {α : Type} {r : Except BrokerError α} {e : BrokerError} :
    (r.map fun _ => ()) = .error e ↔ r = .error e := by
  cases r with
  | ok a => exact ⟨nofun, nofun⟩
  | error e' => exact ⟨fun h => by rw [Except.error.inj h], fun h => by rw [Except.error.inj h]; rfl⟩

/-- A subscription is refused for its topic, whatever its queue, or else for its queue. -/
theorem answer_subscribe_error_iff {topic queue : String} {e : BrokerError} :
    (b.answer (.subscribe topic queue)).1 = .error e ↔
      e = .topicNotFound topic ∧ b.findTopic? topic = none ∨
      e = .queueNotFound queue ∧ b.findTopic? topic ≠ none ∧ b.findQueue? queue = none := by
  show ((Procedure.subscribe topic queue).answer b).1 = _ ↔ _
  rw [Procedure.answer_subscribe, map_unit_eq_error]
  unfold Broker.subscribe
  cases b.findTopic? topic with
  | none => simp [eq_comm]
  | some t =>
    cases b.findQueue? queue with
    | none => simp [eq_comm]
    | some q => simp

/-- An acknowledgement is refused exactly if no message of the queue carries the handle. -/
theorem answer_acknowledge_error_iff {ref : QueueRef} {handle : Ident} {e : BrokerError} :
    (b.answer (.acknowledge ref handle)).1 = .error e ↔
      e = .invalidReceipt handle ∧ ∀ m ∈ b.contents ref, m.receipt ≠ some handle := by
  show ((Procedure.acknowledge ref handle).answer b).1 = _ ↔ _
  rw [Procedure.answer_acknowledge, map_unit_eq_error]
  rcases b.first_split ref (·.receipt = some handle) with
    h | ⟨q, before, m, after, hq, hs, hbefore, hm⟩
  · rw [acknowledge_eq_error h]
    exact ⟨fun he => ⟨(Except.error.inj he).symm, h⟩, fun he => by rw [he.1]⟩
  · have hmem : m ∈ b.contents ref := by
      rw [contents_of_queue? hq, hs]
      exact List.mem_append_right _ List.mem_cons_self
    rw [acknowledge_eq_ok hq hs hbefore hm]
    exact ⟨nofun, fun he => absurd hm (he.2 m hmem)⟩

/-- A nack is refused exactly if no message of the queue carries the handle. -/
theorem answer_nack_error_iff {ref : QueueRef} {handle : Ident} {e : BrokerError} :
    (b.answer (.nack ref handle)).1 = .error e ↔
      e = .invalidReceipt handle ∧ ∀ m ∈ b.contents ref, m.receipt ≠ some handle := by
  show ((Procedure.nack ref handle).answer b).1 = _ ↔ _
  rw [Procedure.answer_nack, map_unit_eq_error]
  rcases b.first_split ref (·.receipt = some handle) with
    h | ⟨q, before, m, after, hq, hs, hbefore, hm⟩
  · rw [nack_eq_error h]
    exact ⟨fun he => ⟨(Except.error.inj he).symm, h⟩, fun he => by rw [he.1]⟩
  · have hmem : m ∈ b.contents ref := by
      rw [contents_of_queue? hq, hs]
      exact List.mem_append_right _ List.mem_cons_self
    -- Whether it is released or given up, it is accepted.
    obtain ⟨b', hok⟩ : ∃ b', b.nack ref handle = .ok b' := by
      rcases Nat.lt_or_ge m.retryCount q.maxRetries with hlt | hge
      · exact ⟨_, nack_eq_release hq hs hbefore hm hlt⟩
      · exact ⟨_, nack_eq_giveUp hq hs hbefore hm hge⟩
    rw [hok]
    exact ⟨nofun, fun he => absurd hm (he.2 m hmem)⟩

/-- A publication to a topic object is refused only if it comes too late. -/
theorem publishTo_error {topic : TopicRef} {m : Message} {deadline : Option Span}
    {clock : Nat → Span} {e : BrokerError}
    (h : (b.publishTo topic m deadline clock).1 = .error e) :
    ∃ name delivered remaining, e = .deadlineExceeded name delivered remaining := by
  unfold publishTo at h
  cases ht : b.topic? topic with
  | none =>
    rw [ht] at h
    cases h
  | some t =>
    rw [ht] at h
    obtain ⟨r, -, -, -, ⟨-, hok⟩ | ⟨-, -, herr⟩⟩ :=
      fanOut_spec t.name m deadline clock t.subscribers 0 b
    · rw [hok] at h
      cases h
    · rw [herr] at h
      exact ⟨_, _, _, (Except.error.inj h).symm⟩

/-- A publication to an unregistered topic is refused at once, whatever its deadline. -/
theorem publish_of_unregistered {topic : String} (h : b.findTopic? topic = none) (m : Message)
    (deadline : Option Span) (clock : Nat → Span) :
    b.publish topic m deadline clock = (.error (.topicNotFound topic), b) := by
  unfold publish
  rw [h]

/-- But for coming too late, a publication is refused exactly if its topic is unregistered. -/
theorem answer_publish_error_iff {topic : String} {m : Message} {deadline : Option Span}
    {clock : Nat → Span} {e : BrokerError} (he : e.LeadsNowhere) :
    (b.answer (.publish topic m deadline clock)).1 = .error e ↔
      e = .topicNotFound topic ∧ b.findTopic? topic = none := by
  refine map_unit_eq_error.trans ?_
  cases hf : b.findTopic? topic with
  | none =>
    rw [publish_of_unregistered hf]
    exact ⟨fun h => ⟨(Except.error.inj h).symm, rfl⟩, fun h => by rw [h.1]⟩
  | some ref =>
    refine ⟨fun h => ?_, nofun⟩
    unfold publish at h
    rw [hf] at h
    obtain ⟨name, delivered, remaining, rfl⟩ := publishTo_error h
    exact he.elim

/-- A call for which a name or a handle leads nowhere leaves the state as it was. -/
theorem answer_of_refusal {op : Operation} {e : BrokerError} (h : (b.answer op).1 = .error e)
    (he : e.LeadsNowhere) : (b.answer op).2 = b := by
  -- The procedures do what the calls do, and those give no state with an error.
  have hsame : ∀ {r : Except BrokerError Broker},
      b.answer op = (r.map fun _ => (), b.orUnchanged r) → (b.answer op).2 = b := by
    intro r hanswer
    have hrefused : r = .error e := map_unit_eq_error.mp ((congrArg Prod.fst hanswer).symm.trans h)
    rw [hanswer, hrefused]
    rfl
  cases op with
  | subscribe topic queue => exact hsame (Procedure.answer_subscribe topic queue b)
  | acknowledge ref handle => exact hsame (Procedure.answer_acknowledge ref handle b)
  | nack ref handle => exact hsame (Procedure.answer_nack ref handle b)
  | publish topic m deadline clock =>
    obtain ⟨-, hf⟩ := (answer_publish_error_iff he).mp h
    exact congrArg Prod.snd (publish_of_unregistered hf m deadline clock)
  | publishTo topic m deadline clock =>
    obtain ⟨name, delivered, remaining, rfl⟩ := publishTo_error (map_unit_eq_error.mp h)
    exact he.elim
  | _ => cases h

end Broker

end MessageBroker
