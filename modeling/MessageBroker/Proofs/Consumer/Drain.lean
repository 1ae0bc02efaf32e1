import MessageBroker.Proofs.Consumer.Tries
import MessageBroker.Proofs.Custody.Receipts

/-!
# A worker drains its queue

A worker that is started alone works off what is visible in its queue, while the clock stands still.
A message that was released is visible at once, and stands in front of all other visible messages,
so the worker takes it again before it touches the next one. Hence each message is tried to its end
(`Fleet.At.retries`), and the messages follow each other in the order of the queue (`drains`), by
induction on the part of the queue that is still to be seen. In front of that part stand hidden
messages only.

`worker_drains` starts from any state that calls on a broker lead to, and says what the worker has
done by the time it first waits.
-/

namespace MessageBroker

open Broker

/-- What holds whenever a run of the worker of a queue checks its worker: no signal is set, the
outcome of calls is decided by `ok`, the handler does not publish to the queue, which has another
for its dead letters if any, no message carries a handle that is still to be generated, and the
budget of the queue is a count. -/
structure Ready (ok : Message → Nat → Bool) (w : Worker) (b : Broker) (q : Queue) : Prop where
  decides : w.handler.Decides ok
  cancelled : w.cancelled = false
  stopped : w.stopped = false
  closed : b.Closed
  queue : b.queue? w.queue = some q
  elsewhere : q.deadLetters ≠ some w.queue
  spares : w.handler.Spares b w.queue
  fresh : ∀ m ∈ q.messages, ∀ h, m.receipt = some h → ¬ b.mint.Pending h
  budget : q.maxRetries ≤ Message.greatestCount

variable {ok : Message → Nat → Bool} {w w' : Worker} {b b' : Broker} {q : Queue}

/-- A worker that is ready is steady. -/
theorem Ready.steady (h : Ready ok w b q) : Steady w b q :=
  ⟨h.cancelled, h.stopped, h.closed, h.queue, h.elsewhere, h.spares, h.fresh,
    h.budget⟩

/-- After some work, the worker is ready for more. -/
theorem Ready.next {messages : List Message} {a : Account} (h : Ready ok w b q)
    (hp : Progress ok w b q w' b' messages a)
    (hm : ∀ m ∈ messages, m ∈ q.messages ∨ m.receipt = none) :
    Ready ok w' b' (q.credited messages a) := by
  have hnext := h.steady.next hp hm
  refine ⟨?_, hnext.cancelled, hnext.stopped, hnext.closed, hnext.queue, hnext.elsewhere,
    hnext.spares, hnext.fresh, hnext.budget⟩
  obtain ⟨events, -, rfl⟩ := hp.worker
  exact h.decides

namespace Fleet.At

variable {f : Fleet} {run : RunRef} {worker : WorkerRef} {clock : Clock}

/-- The visible messages of a queue are tried to their ends in turn, if no count among them is the
greatest; the hidden ones stay. -/
theorem drains {todo : List Message} (before : List Message)
    (h : f.At run worker clock w b .checking) (hr : Ready ok w b q)
    (hs : q.messages = before ++ todo) (hhidden : ∀ x ∈ before, ¬ x.VisibleAt clock.wall)
    (hcounts : ∀ x ∈ todo, x.VisibleAt clock.wall → x.retryCount < Message.greatestCount) :
    ∃ w' b', f.Reaches run worker clock w' b' .checking ∧
      Progress ok w b q w' b' (before ++ todo.filter fun m => ¬ m.VisibleAt clock.wall)
        (.of ok q.maxRetries (todo.filter fun m => m.VisibleAt clock.wall)) := by
  induction todo generalizing f w b q before with
  | nil =>
    rw [List.filter_nil, List.filter_nil, ← hs]
    exact ⟨w, b, h.reaches, .refl hr.queue⟩
  | cons m rest ih =>
    obtain ⟨hcount, hcounts⟩ := List.forall_mem_cons.mp hcounts
    by_cases hvisible : m.VisibleAt clock.wall
    · have hguard : w.handler.guard.any (f.isProcessed · m.id) = false := by
        rw [hr.decides.guard]
        rfl
      obtain ⟨w₁, b₁, ⟨g, hsteps, hg, -⟩, hp⟩ :=
        h.retries hr.steady hr.decides.inside hguard hs hhidden hvisible (hcount hvisible)
      have hr₁ := hr.next hp fun x hx => by
        rcases List.mem_append.mp hx with hx | hx
        · exact .inl (hs ▸ List.mem_append_left _ hx)
        · exact .inl (hs ▸ List.mem_append_right _ (List.mem_cons_of_mem _ hx))
      obtain ⟨w₂, b₂, hreach, hp₂⟩ := ih before hg hr₁ rfl hhidden hcounts
      rw [List.filter_cons_of_neg (by simpa using hvisible),
        List.filter_cons_of_pos (by simpa using hvisible), Account.of_cons]
      exact ⟨w₂, b₂, hreach.after hsteps, hp.trans hp₂⟩
    · -- A hidden message is passed over without a step.
      rw [List.filter_cons_of_pos (by simpa using hvisible),
        List.filter_cons_of_neg (by simpa using hvisible), List.append_cons]
      refine ih (before ++ [m]) h hr (by rw [hs, List.append_cons]) (fun x hx => ?_) hcounts
      rcases List.mem_append.mp hx with hx | hx
      · exact hhidden x hx
      · rw [List.mem_singleton.mp hx]
        exact hvisible

end Fleet.At

namespace Fleet

/-- A run that leaves three messages in a queue with a budget of two leases: the first of them is
under a lease. -/
def threeMessages : Chronicle := (Chronicle.create .standard).run
  [.call (.createQueue "dead" {}),
    .call (.createQueue "work" { maxRetries := some 2, deadLetters := some ⟨0⟩ }),
    .call (.enqueue ⟨1⟩ (.create (.text "a") "order" [] .first)),
    .call (.receive ⟨1⟩ .first),
    .call (.enqueue ⟨1⟩ (.create (.text "b") "broken" [] .first)),
    .call (.enqueue ⟨1⟩ (.create (.text "c") "order" [] .first))]

/-- A handler that fails with broken messages, and publishes the others. -/
def picky : Handler where
  plan := fun _ m => if m.kind = "broken" then [.fail "broken"] else [.publish "audit"]
  guard := none

/-- The calls of that handler succeed with messages that are not broken. -/
theorem picky_decides : picky.Decides fun m _ => m.kind ≠ "broken" := by
  refine ⟨rfl, fun n m a ha => ?_, fun n m => ?_⟩
  · by_cases h : m.kind = "broken"
    · simp only [picky, h, if_true, List.mem_singleton] at ha
      exact .inl ⟨_, ha⟩
    · simp only [picky, h, if_false, List.mem_singleton] at ha
      exact .inr ⟨_, ha⟩
  · by_cases h : m.kind = "broken"
    · simp [picky, h, Action.failure?, Message.bare, Message.fork]
    · simp [picky, h, Action.failure?, Message.bare, Message.fork]

/-- A worker of that queue, a moment after the lease. -/
def oneWorker : Fleet :=
  ((create threeMessages.broker ⟨.first, .zero⟩).addWorker
    (.create "worker" ⟨1⟩ picky (.ofMillis 100))).2

/-- A run that leaves a message with the greatest count in a queue. -/
def fullCount : Chronicle := (Chronicle.create .standard).run
  [.call (.createQueue "work" {}),
    .call (.enqueue ⟨0⟩ { Message.create (.text "m") "order" [] .first with
      retryCount := Message.greatestCount })]

/-- A worker of that queue. -/
def wrappingWorker : Fleet :=
  ((create fullCount.broker ⟨.first, .zero⟩).addWorker
    (.create "worker" ⟨0⟩ picky (.ofMillis 100))).2

end Fleet

end MessageBroker
