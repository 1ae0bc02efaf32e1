import MessageBroker.Proofs.Broker.Observation

/-!
# What the queues have processed

A queue counts a message as processed when an acknowledgement on that queue is accepted, and at no
other time: `Operation.acknowledges` is what a call adds (`processedBy_perform`). Everything else
that a queue goes through, leases, releases, giving up and dead letters among it, leaves the counter
alone.
-/

namespace MessageBroker

/-- The number of messages of a queue that a call acknowledges: one if it is an acknowledgement on
that queue, and accepted. -/
def Operation.acknowledges (b : Broker) (s : QueueRef) : Operation → Nat
  | .acknowledge queue handle => if queue = s then (b.acknowledge queue handle).isOk.toNat else 0
  | _ => 0

namespace Broker

/-- The number of messages that a queue object has counted as processed. -/
def processedBy (b : Broker) (s : QueueRef) : Nat := (b.queue? s).elim 0 Queue.processed

/-- A change to one queue object adds to its counter what it adds to that of the object. -/
theorem Changes.processedBy {b b' : Broker} {ref : QueueRef} {q q' : Queue}
    (h : Changes b b' ref q q') {n : Nat} (hn : q'.processed = q.processed + n) (s : QueueRef) :
    b'.processedBy s = b.processedBy s + if ref = s then n else 0 := by
  unfold Broker.processedBy
  rw [h.queue?]
  by_cases hs : s = ref
  · rw [if_pos hs, if_pos hs.symm, hs, h.before]
    exact hn
  · rw [if_neg hs, if_neg (Ne.symm hs), Nat.add_zero]

/-! ## Calls that process nothing -/

/-- What a queue has processed depends on nothing else that it holds. -/
theorem overlooks_processedBy (s : QueueRef) : Overlooks (processedBy · s) := by
  refine ⟨fun _ _ => rfl, fun {b ref q} hq q' hr hsame => ?_⟩
  rw [(changes_setQueue hq q' hr).processedBy (n := 0) hsame s, ite_self, Nat.add_zero]

/-- A new queue has processed nothing. -/
theorem processedBy_of_append {b b' : Broker} {q : Queue} (h : b'.queues = b.queues ++ [q])
    (hq : q.processed = 0) (s : QueueRef) : b'.processedBy s = b.processedBy s := by
  unfold processedBy queue?
  rw [h, List.getElem?_append]
  split
  · rfl
  · rename_i hge
    rw [List.getElem?_eq_none (Nat.not_lt.mp hge)]
    -- Behind the new queue there is none.
    cases s.index - b.queues.length with
    | zero => exact hq
    | succ n => rfl

/-- A call about objects processes nothing. -/
theorem processedBy_of_registers (b : Broker) (s : QueueRef) {op : Operation}
    (h : op.registers = true) : (b.perform op).processedBy s = b.processedBy s := by
  obtain ⟨-, hq | ⟨_, _, _, _, hq⟩⟩ := b.perform_of_registers h
  · unfold processedBy queue?
    rw [hq]
  · exact processedBy_of_append hq rfl s

/-! ## Acknowledgements -/

/-- An acknowledgement that is accepted is counted by its queue, once. -/
theorem processedBy_acknowledge (b : Broker) (ref : QueueRef) (handle : Ident) (s : QueueRef) :
    (b.orUnchanged (b.acknowledge ref handle)).processedBy s =
      b.processedBy s + if ref = s then (b.acknowledge ref handle).isOk.toNat else 0 := by
  rcases b.first_split ref (·.receipt = some handle) with
    h | ⟨q, before, m, after, hq, hs, hbefore, hm⟩
  · rw [acknowledge_eq_error h]
    exact (Nat.add_zero _).symm.trans (congrArg _ (ite_self 0).symm)
  · rw [acknowledge_eq_ok hq hs hbefore hm]
    exact (changes_setQueue hq
      { q with messages := before ++ after, processed := q.processed + 1 } rfl).processedBy rfl s

/-- A call adds to what a queue has processed the messages that it acknowledges. -/
theorem processedBy_perform (b : Broker) (op : Operation) (s : QueueRef) :
    (b.perform op).processedBy s = b.processedBy s + op.acknowledges b s := by
  cases op with
  | createTopic | addTopic | createQueue | addQueue | subscribe | subscribeTo =>
    exact b.processedBy_of_registers s rfl
  | acknowledge queue handle => exact b.processedBy_acknowledge queue handle s
  | enqueue | publish | publishTo | receive | nack =>
    exact (overlooks_processedBy s).perform b rfl (by simp)

end Broker

end MessageBroker
