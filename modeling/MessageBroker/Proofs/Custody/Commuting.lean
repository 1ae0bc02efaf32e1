import MessageBroker.Proofs.Broker.Answer
import MessageBroker.Proofs.Broker.DeadLetters
import MessageBroker.Proofs.Consumer.Effect
import MessageBroker.Proofs.Custody.Sound

/-!
# Settlements under different handles commute

A settlement looks for the first message that carries its handle, and removes or releases it.
Another settlement, under another handle, does not change what it finds, nor what becomes of it: the
verdict depends on the message and the options of the queue only (`Queue.outcome_settled`). So two
settlements lead to the same queue in either order (`Queue.settled_comm`), although the places of
the messages differ in between.

What they send to the dead letters does not touch their own queue, which is younger than that of its
dead letters. If both messages are given up, their copies arrive in the order of the settlements,
and that is the only difference (`Broker.LettersReordered`).
-/

namespace MessageBroker

open Custody (Verdict)

/-- The verdict on a message of a queue that a settlement has found. -/
def Settlement.verdict (how : Settlement) (q : Queue) (m : Message) : Verdict :=
  match how with
  | .acknowledge => .acknowledged
  | .nack => if m.retryCount < q.maxRetries then .released else .givenUp

/-- What a verdict leaves of a message in its queue. -/
def Custody.Verdict.leaves (v : Verdict) (m : Message) : List Message :=
  match v with
  | .released => [m.released]
  | .acknowledged | .givenUp => []

/-- What a verdict leaves carries no handle. -/
theorem Custody.Verdict.receipt_of_mem_leaves {v : Verdict} {m x : Message} (h : x ∈ v.leaves m) :
    x.receipt = none := by
  cases v with
  | released =>
    rw [List.mem_singleton.mp h]
    rfl
  | acknowledged | givenUp => exact absurd h List.not_mem_nil

namespace Queue

/-! ## Replacing one message -/

/-- Puts other messages in the place of the first one that carries the handle. -/
def replaceFirst (handle : Ident) (f : Message → List Message) : List Message → List Message
  | [] => []
  | m :: rest => if carries handle m then f m ++ rest else m :: replaceFirst handle f rest

section Replace

variable {handle : Ident} {f : Message → List Message}

theorem replaceFirst_cons_of_carries {m : Message} (h : carries handle m = true)
    (rest : List Message) : replaceFirst handle f (m :: rest) = f m ++ rest := if_pos h

theorem replaceFirst_cons_of_not {m : Message} (h : ¬ carries handle m = true)
    (rest : List Message) :
    replaceFirst handle f (m :: rest) = m :: replaceFirst handle f rest := if_neg h

/-- Removing is putting nothing in the place. -/
theorem removeFirst_eq (handle : Ident) (messages : List Message) :
    removeFirst handle messages = replaceFirst handle (fun _ => []) messages := by
  unfold removeFirst
  induction messages with
  | nil => rfl
  | cons m rest ih =>
    by_cases h : carries handle m = true
    · rw [List.eraseP_cons_of_pos h, replaceFirst_cons_of_carries h, List.nil_append]
    · rw [List.eraseP_cons_of_neg h, replaceFirst_cons_of_not h, ih]

/-- Releasing is putting the released message in the place. -/
theorem releaseFirst_eq (handle : Ident) (messages : List Message) :
    releaseFirst handle messages = replaceFirst handle (fun m => [m.released]) messages := by
  induction messages with
  | nil => rfl
  | cons m rest ih => rw [releaseFirst, replaceFirst, ih, List.singleton_append]

/-- Messages in front that do not carry the handle stay. -/
theorem replaceFirst_append_of_not {front : List Message}
    (h : ∀ x ∈ front, ¬ carries handle x = true) (rest : List Message) :
    replaceFirst handle f (front ++ rest) = front ++ replaceFirst handle f rest := by
  induction front with
  | nil => rfl
  | cons x front ih =>
    obtain ⟨hx, hfront⟩ := List.forall_mem_cons.mp h
    rw [List.cons_append, replaceFirst_cons_of_not hx, ih hfront, List.cons_append]

/-- A message at the end that does not carry the handle stays. -/
theorem replaceFirst_concat_of_not {m : Message} (h : ¬ carries handle m = true)
    (messages : List Message) :
    replaceFirst handle f (messages ++ [m]) = replaceFirst handle f messages ++ [m] := by
  induction messages with
  | nil => rw [List.nil_append, replaceFirst_cons_of_not h, replaceFirst, List.nil_append]
  | cons x rest ih =>
    rw [List.cons_append]
    by_cases hx : carries handle x = true
    · rw [replaceFirst_cons_of_carries hx, replaceFirst_cons_of_carries hx, List.append_assoc]
    · rw [replaceFirst_cons_of_not hx, replaceFirst_cons_of_not hx, ih, List.cons_append]

/-- A message without a handle carries none. -/
theorem not_carries_of_receipt {m : Message} (h : m.receipt = none) :
    ¬ carries handle m = true := by
  rw [carries_iff, h]
  exact nofun

/-- No message carries two handles. -/
theorem not_carries_of_carries {handle' : Ident} {m : Message} (hne : handle ≠ handle')
    (h : carries handle m = true) : ¬ carries handle' m = true := by
  rw [carries_iff] at h ⊢
  intro h'
  exact hne (Option.some.inj (h.symm.trans h'))

variable {handle' : Ident} {f' : Message → List Message} (hne : handle ≠ handle')
  (hf : ∀ m, ∀ x ∈ f m, x.receipt = none)
include hne hf

/-- What carries one handle is found whatever takes the place of what carries another. -/
theorem find?_replaceFirst (messages : List Message) :
    (replaceFirst handle f messages).find? (carries handle') =
      messages.find? (carries handle') := by
  induction messages with
  | nil => rfl
  | cons m rest ih =>
    by_cases h : carries handle m = true
    · have hplace : (f m).find? (carries handle') = none :=
        List.find?_eq_none.mpr fun x hx => not_carries_of_receipt (hf m x hx)
      rw [replaceFirst_cons_of_carries h, List.find?_append, hplace, Option.none_or,
        List.find?_cons_of_neg (not_carries_of_carries hne h)]
    · rw [replaceFirst_cons_of_not h]
      by_cases h' : carries handle' m = true
      · rw [List.find?_cons_of_pos h', List.find?_cons_of_pos h']
      · rw [List.find?_cons_of_neg h', List.find?_cons_of_neg h', ih]

/-- Replacements under two handles commute, wherever the messages stand. -/
theorem replaceFirst_comm (hf' : ∀ m, ∀ x ∈ f' m, x.receipt = none) (messages : List Message) :
    replaceFirst handle f (replaceFirst handle' f' messages) =
      replaceFirst handle' f' (replaceFirst handle f messages) := by
  induction messages with
  | nil => rfl
  | cons m rest ih =>
    by_cases h : carries handle m = true
    · have h' : ¬ carries handle' m = true := not_carries_of_carries hne h
      rw [replaceFirst_cons_of_not h', replaceFirst_cons_of_carries h,
        replaceFirst_cons_of_carries h,
        replaceFirst_append_of_not fun x hx => not_carries_of_receipt (hf m x hx)]
    · rw [replaceFirst_cons_of_not h]
      by_cases h' : carries handle' m = true
      · rw [replaceFirst_cons_of_carries h', replaceFirst_cons_of_carries h',
          replaceFirst_append_of_not fun x hx => not_carries_of_receipt (hf' m x hx)]
      · rw [replaceFirst_cons_of_not h', replaceFirst_cons_of_not h', replaceFirst_cons_of_not h,
          ih]

end Replace

/-! ## One settlement on a queue -/

/-- The message that a settlement finds, and the verdict on it. -/
def outcome (q : Queue) (handle : Ident) (how : Settlement) : Option (Message × Verdict) :=
  (q.held? handle).map fun m => (m, how.verdict q m)

/-- The queue after a settlement with that outcome. -/
def settled (q : Queue) (handle : Ident) : Option (Message × Verdict) → Queue
  | none => q
  | some (_, v) =>
    { q with
      messages := replaceFirst handle v.leaves q.messages
      processed := q.processed + if v = .acknowledged then 1 else 0
      failed := q.failed + if v = .givenUp then 1 else 0 }

/-- A settlement leaves the options of the queue as they are. -/
theorem rules_settled (q : Queue) (handle : Ident) (o : Option (Message × Verdict)) :
    (q.settled handle o).rules = q.rules := by
  cases o <;> rfl

/-- A settlement leaves what another one finds, and its verdict. -/
theorem outcome_settled {handle handle' : Ident} (hne : handle ≠ handle') (q : Queue)
    (o : Option (Message × Verdict)) (how : Settlement) :
    (q.settled handle o).outcome handle' how = q.outcome handle' how := by
  cases o with
  | none => rfl
  | some x =>
    have hfound : (q.settled handle (some x)).held? handle' = q.held? handle' :=
      find?_replaceFirst hne (fun _ _ => Verdict.receipt_of_mem_leaves) q.messages
    unfold outcome
    rw [hfound]
    rfl

/-- Settlements under two handles lead to the same queue in either order. -/
theorem settled_comm {handle handle' : Ident} (hne : handle ≠ handle') (q : Queue)
    (o o' : Option (Message × Verdict)) :
    (q.settled handle o).settled handle' o' = (q.settled handle' o').settled handle o := by
  cases o with
  | none => rfl
  | some x =>
    cases o' with
    | none => rfl
    | some x' =>
      have hbare : ∀ v : Verdict, ∀ m, ∀ y ∈ v.leaves m, y.receipt = none :=
        fun _ _ _ => Verdict.receipt_of_mem_leaves
      have hmessages := replaceFirst_comm hne (hbare x.2) (hbare x'.2) q.messages
      unfold settled
      simp only [hmessages, Nat.add_right_comm]

/-- A message that comes in without a handle leaves what a settlement finds, and its verdict. -/
theorem outcome_enqueue (q : Queue) {m : Message} (hm : m.receipt = none) (handle : Ident)
    (how : Settlement) : (q.enqueue m).outcome handle how = q.outcome handle how := by
  have hfound : (q.enqueue m).held? handle = q.held? handle := by
    unfold held? enqueue
    rw [List.find?_append, List.find?_cons_of_neg (not_carries_of_receipt hm), List.find?_nil,
      Option.or_none]
  unfold outcome
  rw [hfound]
  rfl

/-- A settlement and a message that comes in without a handle lead to the same queue. -/
theorem settled_enqueue (q : Queue) {m : Message} (hm : m.receipt = none) (handle : Ident)
    (o : Option (Message × Verdict)) :
    (q.enqueue m).settled handle o = (q.settled handle o).enqueue m := by
  cases o with
  | none => rfl
  | some x =>
    unfold settled enqueue
    simp only [replaceFirst_concat_of_not (not_carries_of_receipt hm)]

end Queue

namespace Broker

/-! ## One settlement on a broker -/

/-- Sends a message that was given up to the dead letters of its queue. -/
def sendOff (b : Broker) (ref : QueueRef) : Option (Message × Verdict) → Broker
  | some (m, .givenUp) => b.deposit ⟨ref, m⟩
  | _ => b

/-- What a settlement returns: whether it has found a message. -/
def reply (handle : Ident) : Option (Message × Verdict) → Except BrokerError Unit
  | some _ => .ok ()
  | none => .error (.invalidReceipt handle)

/-- Putting a message that has an id in a queue is a change to that queue object. -/
theorem enqueue_eq_setQueue {b : Broker} {ref : QueueRef} {q : Queue} (hq : b.queue? ref = some q)
    {m : Message} (hid : m.id ≠ .blank) : b.enqueue ref m = b.setQueue ref (q.enqueue m) := by
  have hput : b.enqueue ref m = b.put ref m := by
    unfold enqueue
    rw [identify_eq_self hid]
  rw [hput]
  unfold put
  rw [hq]

/-- A settlement settles the queue with its outcome, and sends off what was given up. -/
theorem answer_settlement {b : Broker} {ref : QueueRef} {q : Queue} (hq : b.queue? ref = some q)
    (handle : Ident) (how : Settlement) :
    b.answer (how.operation ref handle) = (reply handle (q.outcome handle how),
      (b.setQueue ref (q.settled handle (q.outcome handle how))).sendOff ref
        (q.outcome handle how)) := by
  unfold Queue.outcome
  cases how with
  | acknowledge =>
    show (Procedure.acknowledge ref handle).answer b = _
    rw [Procedure.answer_acknowledge]
    unfold Broker.acknowledge
    rw [hq, Option.bind_some, Queue.acknowledge]
    cases q.held? handle with
    | none =>
      show (_, b) = (_, b.setQueue ref q)
      rw [setQueue_self hq]
      rfl
    | some m =>
      rw [Queue.removeFirst_eq]
      rfl
  | nack =>
    show (Procedure.nack ref handle).answer b = _
    rw [Procedure.answer_nack]
    unfold Broker.nack Broker.giveBack
    rw [hq, Option.bind_some, Queue.nack]
    cases q.held? handle with
    | none =>
      show (_, b) = (_, b.setQueue ref q)
      rw [setQueue_self hq]
      rfl
    | some m =>
      rw [Queue.removeFirst_eq, Queue.releaseFirst_eq]
      simp only [Option.map_some, Settlement.verdict]
      split <;> rfl

/-- Where there is no queue, a settlement is refused. -/
theorem answer_settlement_of_none {b : Broker} {ref : QueueRef} (hq : b.queue? ref = none)
    (handle : Ident) (how : Settlement) :
    b.answer (how.operation ref handle) = (reply handle none, b) := by
  have hnone : ∀ m ∈ b.contents ref, m.receipt ≠ some handle := by
    intro m hm
    unfold contents at hm
    rw [hq] at hm
    exact absurd hm List.not_mem_nil
  cases how with
  | acknowledge =>
    show (Procedure.acknowledge ref handle).answer b = _
    rw [Procedure.answer_acknowledge, acknowledge_eq_error hnone]
    rfl
  | nack =>
    show (Procedure.nack ref handle).answer b = _
    rw [Procedure.answer_nack, nack_eq_error hnone]
    rfl

/-! ## What is sent off -/

/-- A settlement sends nothing off, or it deposits a letter, whatever the broker. -/
theorem sendOff_cases (ref : QueueRef) (o : Option (Message × Verdict)) :
    (∀ b : Broker, b.sendOff ref o = b) ∨
      ∃ m, ∀ b : Broker, b.sendOff ref o = b.deposit ⟨ref, m⟩ := by
  rcases o with _ | ⟨m, _ | _ | _⟩
  · exact .inl fun _ => rfl
  · exact .inl fun _ => rfl
  · exact .inl fun _ => rfl
  · exact .inr ⟨m, fun _ => rfl⟩

/-- The copy of a message for the dead letters, under the given id. -/
def letterCopy (queue : String) (m : Message) (id : Ident) : Message :=
  ((m.fork id).setMetadata lastQueueKey (.text queue)).setMetadata failureReasonKey
    (.text retriesExceeded)

/-- A queue object has a state under which its dead letters go to another queue, if to any, and
every reference in the broker leads to an object. -/
structure KeepsApart (b : Broker) (ref : QueueRef) (q : Queue) : Prop where
  closed : b.Closed
  state : b.queue? ref = some q
  apart : q.deadLetters ≠ some ref

namespace KeepsApart

variable {b : Broker} {ref : QueueRef} {q : Queue} (h : b.KeepsApart ref q)
include h

/-- Another state under the same options keeps apart. -/
theorem setQueue {q' : Queue} (hrules : q'.rules = q.rules) :
    (b.setQueue ref q').KeepsApart ref q' where
  closed := (changes_setQueue h.state q' hrules).closed h.closed
  state := queue?_setQueue_self h.state q'
  apart hd := h.apart ((congrArg QueueRules.deadLetters hrules).symm.trans hd)

/-- A deposit leaves the queue that the letter comes from as it is. -/
theorem deposit (m : Message) : (b.deposit ⟨ref, m⟩).KeepsApart ref q where
  closed := h.closed.deposit ⟨ref, m⟩
  state := ((queue?_deposit h.closed ⟨ref, m⟩ h.state).1 ref h.apart).trans h.state
  apart := h.apart

/-- What a queue sends off leaves it as it is. -/
theorem sendOff (o : Option (Message × Verdict)) : (b.sendOff ref o).KeepsApart ref q := by
  rcases sendOff_cases ref o with hnone | ⟨m, hdeposit⟩
  · rw [hnone]
    exact h
  · rw [hdeposit]
    exact h.deposit m

/-- A deposit is a change to the queue for dead letters. -/
theorem deposit_eq {target : QueueRef} (hd : q.deadLetters = some target) :
    ∃ qt, b.queue? target = some qt ∧ ∀ m, b.deposit ⟨ref, m⟩ =
      { b.setQueue target (qt.enqueue (letterCopy q.name m b.mint.next)) with
        mint := b.mint.advance } := by
  obtain ⟨qt, hqt⟩ :=
    (h.closed.deadLetters ref q.rules target (rules?_of_queue? h.state) hd).queue?
  refine ⟨qt, hqt, fun m => ?_⟩
  have hid : (letterCopy q.name m b.mint.next).id ≠ .blank := fun hblank => nomatch hblank
  rw [deposit_eq_enqueue h.state hd]
  exact enqueue_eq_setQueue (b := { b with mint := b.mint.advance }) hqt hid

/-- What a queue sends off is the same if the queue changes under the same options. -/
theorem setQueue_sendOff (o : Option (Message × Verdict)) {q' : Queue}
    (hrules : q'.rules = q.rules) :
    (b.sendOff ref o).setQueue ref q' = (b.setQueue ref q').sendOff ref o := by
  rcases sendOff_cases ref o with hnone | ⟨m, hdeposit⟩
  · rw [hnone, hnone]
  · rw [hdeposit, hdeposit]
    have h' := h.setQueue hrules
    have hsame : q'.deadLetters = q.deadLetters := congrArg QueueRules.deadLetters hrules
    have hname : q'.name = q.name := congrArg QueueRules.name hrules
    cases hd : q.deadLetters with
    | none => rw [deposit_eq_self h.state hd, deposit_eq_self h'.state (hsame.trans hd)]
    | some target =>
      have hne : target ≠ ref := fun he => h.apart (he ▸ hd)
      obtain ⟨qt, hqt, hletter⟩ := h.deposit_eq hd
      obtain ⟨qt', hqt', hletter'⟩ := h'.deposit_eq (hsame.trans hd)
      rw [queue?_setQueue_of_ne hne, hqt] at hqt'
      obtain rfl := Option.some.inj hqt'
      have hcomm := setQueue_comm hne b q' (qt.enqueue (letterCopy q.name m b.mint.next))
      rw [hletter, hletter', hname]
      exact congrArg (fun b' : Broker => { b' with mint := b.mint.advance }) hcomm

/-- Two deposits put two letters behind the others, under the next two identifiers. -/
theorem deposit_deposit {target : QueueRef} (hd : q.deadLetters = some target) :
    ∃ qt, b.queue? target = some qt ∧ ∀ m m',
      (b.deposit ⟨ref, m⟩).deposit ⟨ref, m'⟩ =
        { b.setQueue target (qt.enqueueAll [letterCopy q.name m b.mint.next,
            letterCopy q.name m' b.mint.advance.next]) with
          mint := b.mint.advance.advance } := by
  obtain ⟨qt, hqt, hletter⟩ := h.deposit_eq hd
  refine ⟨qt, hqt, fun m m' => ?_⟩
  obtain ⟨qt', hqt', hletter'⟩ := (h.deposit m).deposit_eq hd
  -- The second letter comes into the queue that the first one has left.
  have hfirst : (b.deposit ⟨ref, m⟩).queue? target =
      some (qt.enqueue (letterCopy q.name m b.mint.next)) := by
    rw [hletter]
    exact queue?_setQueue_self hqt _
  obtain rfl := Option.some.inj (hfirst.symm.trans hqt')
  have hboth : (qt.enqueue (letterCopy q.name m b.mint.next)).enqueue
      (letterCopy q.name m' b.mint.advance.next) = qt.enqueueAll
        [letterCopy q.name m b.mint.next, letterCopy q.name m' b.mint.advance.next] := by
    rw [← Queue.enqueueAll_enqueue, ← Queue.enqueueAll_enqueue, Queue.enqueueAll_nil]
  rw [hletter', hletter, ← hboth]
  exact setQueue_generated b target _ _ _ _

end KeepsApart

/-! ## Letters in another order -/

/-- The queue for the dead letters of a queue. -/
def lettersOf (b : Broker) (ref : QueueRef) : Option QueueRef :=
  (b.queue? ref).bind (·.deadLetters)

/-- Two brokers are the same, but the newest copies among the dead letters of a queue, two at most,
may stand in another order, with their ids exchanged. -/
structure LettersReordered (ref : QueueRef) (b b' : Broker) : Prop where
  same : b' = { b with queues := b'.queues }
  others : ∀ other, b.lettersOf ref ≠ some other → b'.queue? other = b.queue? other
  letters : ∀ target qt, b.lettersOf ref = some target → b.queue? target = some qt →
    ∃ older newest newest', qt.messages = older ++ newest ∧
      b'.queue? target = some { qt with messages := older ++ newest' } ∧
      newest.length ≤ 2 ∧ newest'.map Message.id = newest.map Message.id ∧
      (newest'.map fun m => { m with id := .blank }).Perm
        (newest.map fun m => { m with id := .blank })

/-- A broker is the same as itself. -/
theorem LettersReordered.refl (ref : QueueRef) (b : Broker) : LettersReordered ref b b where
  same := rfl
  others _ _ := rfl
  letters _ qt _ hqt := ⟨qt.messages, [], [], (List.append_nil _).symm,
    by rw [hqt, List.append_nil], Nat.zero_le 2, rfl, List.Perm.refl _⟩

namespace KeepsApart

variable {b : Broker} {ref : QueueRef} {q : Queue} (h : b.KeepsApart ref q)
include h

/-- Letters that are deposited in either order differ in nothing but their order and their ids. -/
theorem lettersReordered_deposit (m m' : Message) :
    LettersReordered ref ((b.deposit ⟨ref, m⟩).deposit ⟨ref, m'⟩)
      ((b.deposit ⟨ref, m'⟩).deposit ⟨ref, m⟩) := by
  cases hd : q.deadLetters with
  | none =>
    have hlost : ∀ m, b.deposit ⟨ref, m⟩ = b := fun m => deposit_eq_self h.state hd
    rw [hlost m, hlost m', hlost m]
    exact .refl ref b
  | some target =>
    have hne : target ≠ ref := fun he => h.apart (he ▸ hd)
    obtain ⟨qt, hqt, hboth⟩ := h.deposit_deposit hd
    have hletters : ∀ (qt' : Queue) (mint : Mint),
        ({ b.setQueue target qt' with mint } : Broker).lettersOf ref = some target := by
      intro qt' mint
      show ((b.setQueue target qt').queue? ref).bind (·.deadLetters) = some target
      rw [queue?_setQueue_of_ne hne.symm, h.state, Option.bind_some, hd]
    rw [hboth, hboth]
    refine ⟨rfl, fun other hother => ?_, fun target' qt' htarget hqt' => ?_⟩
    · have hne' : other ≠ target := fun he => hother (he ▸ hletters _ _)
      exact (queue?_setQueue_of_ne hne' b _).trans (queue?_setQueue_of_ne hne' b _).symm
    · obtain rfl := Option.some.inj ((hletters _ _).symm.trans htarget)
      obtain rfl := Option.some.inj ((queue?_setQueue_self hqt _).symm.trans hqt')
      refine ⟨qt.messages, [letterCopy q.name m b.mint.next,
          letterCopy q.name m' b.mint.advance.next],
        [letterCopy q.name m' b.mint.next, letterCopy q.name m b.mint.advance.next], rfl,
        queue?_setQueue_self hqt _, Nat.le_refl 2, rfl, ?_⟩
      -- Without their ids, the letters for a message are the same.
      exact List.Perm.swap _ _ []

/-- What is sent off in either order differs in nothing but the order and the ids of letters. -/
theorem lettersReordered_sendOff (o o' : Option (Message × Verdict)) :
    LettersReordered ref ((b.sendOff ref o).sendOff ref o')
      ((b.sendOff ref o').sendOff ref o) := by
  rcases sendOff_cases ref o with hnone | ⟨m, hm⟩
  · rw [hnone, hnone]
    exact .refl ref _
  · rcases sendOff_cases ref o' with hnone' | ⟨m', hm'⟩
    · rw [hnone', hnone']
      exact .refl ref _
    · rw [hm, hm', hm', hm]
      exact h.lettersReordered_deposit m m'

/-! ## Two settlements -/

/-- A settlement keeps the queue apart. -/
theorem settled (handle : Ident) (o : Option (Message × Verdict)) :
    (b.setQueue ref (q.settled handle o)).KeepsApart ref (q.settled handle o) :=
  h.setQueue (q.rules_settled handle o)

/-- A second settlement returns what it would have returned as the first, and both of them settle
the queue before the letters are sent off. -/
theorem answer_second {handle handle' : Ident} (hne : handle ≠ handle') (how how' : Settlement) :
    let o := q.outcome handle how
    let o' := q.outcome handle' how'
    (b.answer (how.operation ref handle)).2.answer (how'.operation ref handle') =
      (reply handle' o', ((b.setQueue ref ((q.settled handle o).settled handle' o')).sendOff ref
        o).sendOff ref o') := by
  intro o o'
  have h₁ : (b.setQueue ref (q.settled handle o)).KeepsApart ref (q.settled handle o) :=
    h.settled handle o
  have hfirst : b.answer (how.operation ref handle) =
      (reply handle o, (b.setQueue ref (q.settled handle o)).sendOff ref o) :=
    answer_settlement h.state handle how
  rw [hfirst, answer_settlement (h₁.sendOff o).state handle' how', Queue.outcome_settled hne,
    h₁.setQueue_sendOff o ((q.settled handle o).rules_settled handle' o'), setQueue_setQueue]

/-- A settlement and a message that is put in with an id and without a handle commute. -/
theorem answer_enqueue {m : Message} (hid : m.id ≠ .blank) (hm : m.receipt = none) (handle : Ident)
    (how : Settlement) :
    (b.enqueue ref m).answer (how.operation ref handle) =
      ((b.answer (how.operation ref handle)).1,
        (b.answer (how.operation ref handle)).2.enqueue ref m) := by
  have h₁ := h.settled handle (q.outcome handle how)
  have hput := enqueue_eq_setQueue (h₁.sendOff (q.outcome handle how)).state hid
  have hrules : ((q.settled handle (q.outcome handle how)).enqueue m).rules =
      (q.settled handle (q.outcome handle how)).rules := rfl
  rw [enqueue_eq_setQueue h.state hid, answer_settlement (queue?_setQueue_self h.state _),
    answer_settlement h.state, hput, h₁.setQueue_sendOff _ hrules, q.outcome_enqueue hm,
    q.settled_enqueue hm, setQueue_setQueue, setQueue_setQueue]

end KeepsApart

end Broker

namespace Chronicle

open Broker

/-- In every state of every run, queues keep apart from the queues for their dead letters. -/
theorem Reachable.keepsApart {c : Chronicle} (hc : c.Reachable) {ref : QueueRef} {q : Queue}
    (hq : c.broker.queue? ref = some q) : c.broker.KeepsApart ref q where
  closed := hc.sound.closed
  state := hq
  apart hd := Nat.lt_irrefl _ (hc.descending ref q.rules ref (rules?_of_queue? hq) hd)

/-- **Settlements under different handles commute.** In every state of every run, take two
settlements on one queue, each of them an acknowledgement or a nack. Each returns what it returns
if the other has not come first. Both orders leave the same queue, with the same messages in the
same order and the same counters; the queue for dead letters has the same counters and the same
messages, but for the order and the ids of the copies that came in; nothing else differs.

A settlement commutes exactly with putting a message in the queue that has an id and no handle. -/
theorem settlements_commute {c : Chronicle} (hc : c.Reachable) (ref : QueueRef)
    {handle handle' : Ident} (hne : handle ≠ handle') (how how' : Settlement) :
    let first := how.operation ref handle
    let second := how'.operation ref handle'
    let b := (c.broker.answer first).2
    let b' := (c.broker.answer second).2
    (b'.answer first).1 = (c.broker.answer first).1 ∧
      (b.answer second).1 = (c.broker.answer second).1 ∧
      (b'.answer first).2.queue? ref = (b.answer second).2.queue? ref ∧
      LettersReordered ref (b.answer second).2 (b'.answer first).2 ∧
      ∀ m, m.id ≠ .blank → m.receipt = none →
        (c.broker.enqueue ref m).answer first =
          ((c.broker.answer first).1, b.enqueue ref m) := by
  intro first second b b'
  cases hq : c.broker.queue? ref with
  | none =>
    have hfirst : c.broker.answer first = (reply handle none, c.broker) :=
      answer_settlement_of_none hq handle how
    have hsecond : c.broker.answer second = (reply handle' none, c.broker) :=
      answer_settlement_of_none hq handle' how'
    have hb : b = c.broker := congrArg Prod.snd hfirst
    have hb' : b' = c.broker := congrArg Prod.snd hsecond
    rw [hb, hb', hfirst, hsecond]
    refine ⟨rfl, rfl, rfl, .refl ref _, fun m hid _ => ?_⟩
    have hput : c.broker.enqueue ref m = c.broker := by
      unfold Broker.enqueue
      rw [identify_eq_self hid]
      unfold put
      simp only [hq]
    rw [hput, hfirst]
  | some q =>
    have h := hc.keepsApart hq
    have hfirst : c.broker.answer first = _ := answer_settlement hq handle how
    have hsecond : c.broker.answer second = _ := answer_settlement hq handle' how'
    have hboth : b.answer second = _ := h.answer_second hne how how'
    have hboth' : b'.answer first = _ := h.answer_second hne.symm how' how
    -- But for what is sent off, both orders lead to one state.
    have hsame := q.settled_comm hne (q.outcome handle how) (q.outcome handle' how')
    have hbase := (h.settled handle (q.outcome handle how)).settled handle' (q.outcome handle' how')
    rw [setQueue_setQueue] at hbase
    refine ⟨?_, ?_, ?_, ?_, fun m hid hm => h.answer_enqueue hid hm handle how⟩
    · rw [hboth', hfirst]
    · rw [hboth, hsecond]
    · rw [hboth, hboth', ← hsame]
      exact ((hbase.sendOff _).sendOff _).state.trans ((hbase.sendOff _).sendOff _).state.symm
    · rw [hboth, hboth', ← hsame]
      exact hbase.lettersReordered_sendOff _ _

/-- A run that leases two messages of a queue as often as it allows. -/
def twoLeasesRun : List Move :=
  [.call (.createQueue "dead" {}),
    .call (.createQueue "work" { maxRetries := some 1, deadLetters := some ⟨0⟩ }),
    .call (.enqueue ⟨1⟩ (.create (.text "a") "invoice" [] .first)),
    .call (.enqueue ⟨1⟩ (.create (.text "b") "receipt" [] .first)),
    .call (.receive ⟨1⟩ .first),
    .call (.receive ⟨1⟩ .first)]

/-- After that run nacks of both messages succeed in either order, and leave the same queue. Their
copies arrive in the order of the nacks, under the same two ids. -/
theorem settlements_commute_twoLeasesRun :
    let b := ((create .standard).run twoLeasesRun).broker
    let first := Settlement.nack.operation ⟨1⟩ (.generated 0)
    let second := Settlement.nack.operation ⟨1⟩ (.generated 1)
    let b₁ := ((b.answer first).2.answer second).2
    let b₂ := ((b.answer second).2.answer first).2
    b₂.queue? ⟨1⟩ = b₁.queue? ⟨1⟩ ∧ LettersReordered ⟨1⟩ b₁ b₂ ∧
      (b₁.contents ⟨0⟩).map (fun m => (m.kind, m.id)) =
        [("invoice", .generated 2), ("receipt", .generated 3)] ∧
      (b₂.contents ⟨0⟩).map (fun m => (m.kind, m.id)) =
        [("receipt", .generated 2), ("invoice", .generated 3)] := by
  have hc : ((create .standard).run twoLeasesRun).Reachable :=
    (Reachable.create .standard).run (by decide)
  have hne : Ident.generated 0 ≠ .generated 1 := by decide
  obtain ⟨-, -, hqueue, hletters, -⟩ := settlements_commute hc ⟨1⟩ hne .nack .nack
  exact ⟨hqueue, hletters, by decide, by decide⟩

end Chronicle

end MessageBroker
