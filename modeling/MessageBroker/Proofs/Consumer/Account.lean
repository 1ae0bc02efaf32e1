import Mathlib.Data.List.Forall2
import Mathlib.Data.List.Perm.Basic
import MessageBroker.Proofs.Consumer.Call

/-!
# What a worker does with messages

Whether a handler succeeds with a message is a question of the message and the number of its leases.
So everything that a worker does with a list of messages can be told in advance: the numbers with
which each of them is tried (`Message.tries`), whether the last try succeeds (`Message.succeeds`),
and from these an `Account` of all of them. `Progress` says that a broker and a worker have changed
by such an account, and accounts are added up by `Progress.trans`.
-/

namespace MessageBroker

/-! ## One message -/

namespace Message

/-- The numbers of leases with which a message may be tried: the next one, and the following ones
up to the budget of its queue. -/
def chances (m : Message) (budget : Nat) : List Nat :=
  List.range' (m.retryCount + 1) (max (m.retryCount + 1) budget - m.retryCount)

/-- The numbers of leases with which a message is tried: its chances, up to the first success. -/
def tries (m : Message) (ok : Message → Nat → Bool) (budget : Nat) : List Nat :=
  (m.chances budget).take ((m.chances budget).findIdx (ok m.bare) + 1)

/-- One of the chances is a success. -/
def succeeds (m : Message) (ok : Message → Nat → Bool) (budget : Nat) : Bool :=
  (m.chances budget).any (ok m.bare)

/-- The message after a lease that it was released from. -/
def again (m : Message) : Message :=
  { m with retryCount := m.retryCount + 1, hiddenUntil := none, receipt := none }

variable (m : Message) {ok : Message → Nat → Bool} {budget : Nat}

/-- While the budget lasts, there is one chance and those after it. -/
theorem chances_of_lt (h : m.retryCount + 1 < budget) :
    m.chances budget = (m.retryCount + 1) :: m.again.chances budget := by
  unfold chances again
  have hlen : max (m.retryCount + 1) budget - m.retryCount =
      max (m.retryCount + 1 + 1) budget - (m.retryCount + 1) + 1 := by omega
  rw [hlen, List.range'_succ]

/-- The last chance comes when the budget is used up. -/
theorem chances_of_le (h : budget ≤ m.retryCount + 1) :
    m.chances budget = [m.retryCount + 1] := by
  unfold chances
  have hlen : max (m.retryCount + 1) budget - m.retryCount = 1 := by omega
  rw [hlen]
  rfl

/-- After a success, a message is not tried again. -/
theorem tries_of_ok (budget : Nat) (h : ok m.bare (m.retryCount + 1) = true) :
    m.tries ok budget = [m.retryCount + 1] ∧ m.succeeds ok budget = true := by
  obtain ⟨rest, hrest⟩ : ∃ rest, m.chances budget = (m.retryCount + 1) :: rest := by
    rcases Nat.lt_or_ge (m.retryCount + 1) budget with hlt | hge
    · exact ⟨_, m.chances_of_lt hlt⟩
    · exact ⟨_, m.chances_of_le hge⟩
  unfold tries succeeds
  rw [hrest, List.findIdx_cons, h, List.any_cons, h]
  exact ⟨rfl, rfl⟩

/-- After a failure while the budget lasts, a message is tried again. -/
theorem tries_of_lt (h : ok m.bare (m.retryCount + 1) = false)
    (hlt : m.retryCount + 1 < budget) :
    m.tries ok budget = (m.retryCount + 1) :: m.again.tries ok budget ∧
      m.succeeds ok budget = m.again.succeeds ok budget := by
  unfold tries succeeds
  rw [m.chances_of_lt hlt, List.findIdx_cons, h, List.any_cons, h]
  exact ⟨rfl, rfl⟩

/-- After a failure when the budget is used up, a message is not tried again. -/
theorem tries_of_le (h : ok m.bare (m.retryCount + 1) = false)
    (hge : budget ≤ m.retryCount + 1) :
    m.tries ok budget = [m.retryCount + 1] ∧ m.succeeds ok budget = false := by
  unfold tries succeeds
  rw [m.chances_of_le hge, List.findIdx_cons, h, List.any_cons, h]
  exact ⟨rfl, rfl⟩

end Message

/-! ## Many messages -/

/-- What a worker did with messages of its queue: those that it acknowledged and those that the
queue gave up, without their delivery states, and the calls of the handler, each with the number of
leases of its message; all of them in order. -/
structure Account where
  done : List Message
  lost : List Message
  calls : List (Message × Nat)

namespace Account

instance : Append Account := ⟨fun a a' => ⟨a.done ++ a'.done, a.lost ++ a'.lost, a.calls ++ a'.calls⟩⟩

/-- What is to be done with messages: each of them is tried to its end, in turn. -/
def of (ok : Message → Nat → Bool) (budget : Nat) (ms : List Message) : Account where
  done := (ms.filter (·.succeeds ok budget)).map Message.bare
  lost := (ms.filter (!·.succeeds ok budget)).map Message.bare
  calls := ms.flatMap fun m => (m.tries ok budget).map (m.bare, ·)

variable {ok : Message → Nat → Bool} {budget : Nat}

/-- The first message and the others. -/
theorem of_cons (m : Message) (ms : List Message) :
    of ok budget (m :: ms) = of ok budget [m] ++ of ok budget ms := by
  show Account.mk _ _ _ = Account.mk _ _ _
  congr 1
  · cases h : m.succeeds ok budget <;> simp [of, h]
  · cases h : m.succeeds ok budget <;> simp [of, h]
  · simp [of]

/-- A message is acknowledged after the first success. -/
theorem of_ok {m : Message} (h : ok m.bare (m.retryCount + 1) = true) :
    of ok budget [m] = ⟨[m.bare], [], [(m.bare, m.retryCount + 1)]⟩ := by
  obtain ⟨htries, hsucceeds⟩ := m.tries_of_ok budget h
  simp [of, htries, hsucceeds]

/-- A message that fails while the budget lasts is tried again. -/
theorem of_lt {m : Message} (h : ok m.bare (m.retryCount + 1) = false)
    (hlt : m.retryCount + 1 < budget) :
    of ok budget [m] = ⟨[], [], [(m.bare, m.retryCount + 1)]⟩ ++ of ok budget [m.again] := by
  obtain ⟨htries, hsucceeds⟩ := m.tries_of_lt h hlt
  have hbare : m.again.bare = m.bare := rfl
  show _ = Account.mk _ _ _
  cases hs : m.again.succeeds ok budget <;> simp [of, htries, hsucceeds, hbare, hs]

/-- A message is given up after a failure when the budget is used up. -/
theorem of_le {m : Message} (h : ok m.bare (m.retryCount + 1) = false)
    (hge : budget ≤ m.retryCount + 1) :
    of ok budget [m] = ⟨[], [m.bare], [(m.bare, m.retryCount + 1)]⟩ := by
  obtain ⟨htries, hsucceeds⟩ := m.tries_of_le h hge
  simp [of, htries, hsucceeds]

end Account

/-! ## Accounts of a broker and a worker -/

namespace Broker

/-- A dead letter for a message is one for it whatever its delivery state. -/
theorem IsLetterFor.bare {copy m : Message} {queue : String} (h : IsLetterFor copy queue m) :
    IsLetterFor copy queue m.bare :=
  ⟨h.kind, h.payload, h.createdAt, h.retryCount, h.hiddenUntil, h.receipt, h.marked, h.others⟩

/-- What a queue for dead letters has got: letters from a queue for the messages that were lost, in
order, and between them copies of published messages; letters only if it was spared. -/
def IsMail (mail : List Message) (queue : String) (lost : List Message) (spared : Prop) : Prop :=
  ∃ letters published, List.Forall₂ (fun copy m => IsLetterFor copy queue m) letters lost ∧
    (∀ copy ∈ published, ∃ topic m, IsCopyFor copy topic m) ∧
    letters.Sublist mail ∧ mail.Perm (letters ++ published) ∧ (spared → mail = letters)

section Mail

variable {queue : String} {published : List Message} {spared : Prop}
  (hpublished : ∀ copy ∈ published, ∃ topic m, IsCopyFor copy topic m)
  (hspared : spared → published = [])
include hpublished hspared

/-- Copies of published messages, and no letter. -/
theorem isMail_of_published : IsMail published queue [] spared :=
  ⟨[], published, .nil, hpublished, List.nil_sublist _, .refl _, hspared⟩

/-- Copies of published messages, and a letter. -/
theorem isMail_of_letter {copy m : Message} (h : IsLetterFor copy queue m) :
    IsMail (published ++ [copy]) queue [m] spared := by
  refine ⟨[copy], published, .cons h .nil, hpublished, List.sublist_append_right _ _,
    List.perm_append_comm, fun hs => ?_⟩
  rw [hspared hs, List.nil_append]

end Mail

/-- Mail where more is known to be spared. -/
theorem IsMail.mono {mail lost : List Message} {queue : String} {spared spared' : Prop}
    (h : IsMail mail queue lost spared) (hs : spared' → spared) :
    IsMail mail queue lost spared' := by
  obtain ⟨letters, published, hletters, hpublished, hsub, hperm, hall⟩ := h
  exact ⟨letters, published, hletters, hpublished, hsub, hperm, fun h => hall (hs h)⟩

/-- Mail for some messages, and then for others. -/
theorem IsMail.append {mail mail' lost lost' : List Message} {queue : String} {spared : Prop}
    (h : IsMail mail queue lost spared) (h' : IsMail mail' queue lost' spared) :
    IsMail (mail ++ mail') queue (lost ++ lost') spared := by
  obtain ⟨letters, published, hletters, hpublished, hsub, hperm, hall⟩ := h
  obtain ⟨letters', published', hletters', hpublished', hsub', hperm', hall'⟩ := h'
  refine ⟨letters ++ letters', published ++ published', List.rel_append hletters hletters', ?_,
    hsub.append hsub', ?_, fun hs => ?_⟩
  · intro copy hcopy
    rcases List.mem_append.mp hcopy with hcopy | hcopy
    · exact hpublished copy hcopy
    · exact hpublished' copy hcopy
  · have hswap : (letters ++ (published ++ letters') ++ published').Perm
        (letters ++ (letters' ++ published) ++ published') :=
      (List.perm_append_comm.append_left letters).append_right published'
    simp only [List.append_assoc] at hswap ⊢
    have hboth := hperm.append hperm'
    rw [List.append_assoc] at hboth
    exact hboth.trans hswap
  · rw [hall hs, hall' hs]

end Broker

open Broker

/-- A queue that holds these messages now, after an account: it counts the messages that were
acknowledged and given up. -/
def Queue.credited (q : Queue) (messages : List Message) (a : Account) : Queue :=
  { q with
    messages
    processed := q.processed + a.done.length
    failed := q.failed + a.lost.length }

/-- A worker after an account, with what it has logged: it counts the messages that it acknowledged
and the calls, among them those that failed. -/
def Worker.credited (w : Worker) (ok : Message → Nat → Bool) (a : Account) (events : List Event) :
    Worker :=
  { w with
    processed := w.processed + a.done.length
    failed := w.failed + a.calls.countP (fun c => !ok c.1 c.2)
    calls := w.calls + a.calls.length
    log := w.log ++ events }

/-- One account after the other, for a queue. -/
theorem Queue.credited_credited (q : Queue) (messages messages' : List Message) (a a' : Account) :
    (q.credited messages a).credited messages' a' = q.credited messages' (a ++ a') := by
  have hdone : (a ++ a').done.length = a.done.length + a'.done.length := List.length_append
  have hlost : (a ++ a').lost.length = a.lost.length + a'.lost.length := List.length_append
  unfold credited
  simp only [hdone, hlost, Nat.add_assoc]

/-- One account after the other, for a worker. -/
theorem Worker.credited_credited (w : Worker) (ok : Message → Nat → Bool) (a a' : Account)
    (events events' : List Event) : (w.credited ok a events).credited ok a' events' =
      w.credited ok (a ++ a') (events ++ events') := by
  have hdone : (a ++ a').done.length = a.done.length + a'.done.length := List.length_append
  have hcalls : (a ++ a').calls = a.calls ++ a'.calls := rfl
  unfold credited
  simp only [hdone, hcalls, List.countP_append, List.length_append, List.append_assoc,
    Nat.add_assoc]

/-- A broker and a worker of its queue `q` have changed by an account, and the queue holds these
messages now. Its queue for dead letters, if there is one, has got a letter for each message that
was given up, in order, beside what the handler published to it; and no other queue has changed to
which the handler does not publish. The worker has logged each call. -/
structure Progress (ok : Message → Nat → Bool) (w : Worker) (b : Broker) (q : Queue) (w' : Worker)
    (b' : Broker) (messages : List Message) (a : Account) : Prop where
  same : SameObjects b b'
  queue : b'.queue? w.queue = some (q.credited messages a)
  letters : ∀ target qt, q.deadLetters = some target → b.queue? target = some qt →
    ∃ mail, IsMail mail q.name a.lost (w.handler.Spares b target) ∧
      b'.queue? target = some (qt.enqueueAll mail)
  others : ∀ other, other ≠ w.queue → q.deadLetters ≠ some other → w.handler.Spares b other →
    b'.queue? other = b.queue? other
  worker : ∃ events, events.filterMap Event.call? = a.calls ∧ w' = w.credited ok a events

namespace Progress

variable {ok : Message → Nat → Bool} {w w' w'' : Worker} {b b' b'' : Broker} {q : Queue}
  {messages messages' : List Message} {a a' : Account}

/-- Where nothing has happened, there is nothing to account for. -/
theorem refl (hq : b.queue? w.queue = some q) :
    Progress ok w b q w b q.messages ⟨[], [], []⟩ := by
  refine ⟨.refl b, hq, fun target qt _ hqt => ?_, fun _ _ _ _ => rfl, [], rfl, ?_⟩
  · refine ⟨[], isMail_of_published (fun copy hcopy => absurd hcopy List.not_mem_nil)
      fun _ => rfl, ?_⟩
    rw [hqt, Queue.enqueueAll_nil]
  · unfold Worker.credited
    rw [List.append_nil]
    rfl

/-- Accounts add up. -/
theorem trans (h : Progress ok w b q w' b' messages a)
    (h' : Progress ok w' b' (q.credited messages a) w'' b'' messages' a') :
    Progress ok w b q w'' b'' messages' (a ++ a') := by
  obtain ⟨events, hevents, rfl⟩ := h.worker
  obtain ⟨events', hevents', rfl⟩ := h'.worker
  refine ⟨h.same.trans h'.same, ?_, ?_, ?_, events ++ events', ?_, ?_⟩
  · rw [← Queue.credited_credited]
    exact h'.queue
  · intro target qt hd hqt
    obtain ⟨mail, hmail, hqt'⟩ := h.letters target qt hd hqt
    obtain ⟨mail', hmail', hqt''⟩ := h'.letters target _ hd hqt'
    refine ⟨mail ++ mail', hmail.append (hmail'.mono fun hs => hs.of_same h.same), ?_⟩
    rw [hqt'', Queue.enqueueAll_enqueueAll]
  · intro other hne hd hspared
    have hlater := h'.others other hne hd (hspared.of_same h.same)
    exact hlater.trans (h.others other hne hd hspared)
  · rw [List.filterMap_append, hevents, hevents']
    rfl
  · rw [Worker.credited_credited]

end Progress

end MessageBroker
