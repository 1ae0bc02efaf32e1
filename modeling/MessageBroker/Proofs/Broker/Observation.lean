import MessageBroker.Proofs.Broker.Operation

/-!
# What messages leave as it is

Calls about messages generate identifiers, and move messages in and out of queues. Something that is
seen of a broker `Overlooks` all this if it depends neither on the identifiers nor on the state of
any queue but its options and what it has processed. No call about messages changes what is then
seen, acknowledgements apart (`Overlooks.perform`). The defaults of a broker are such a thing, and
so is what a queue has processed.
-/

namespace MessageBroker.Broker

/-- What is seen depends neither on the identifiers, nor on a queue beyond its options and what it
has processed. -/
structure Overlooks {α : Type} (view : Broker → α) : Prop where
  mint : ∀ (b : Broker) (mint : Mint), view { b with mint } = view b
  queue : ∀ {b : Broker} {ref : QueueRef} {q : Queue}, b.queue? ref = some q → ∀ q' : Queue,
    q'.rules = q.rules → q'.processed = q.processed → view (b.setQueue ref q') = view b

namespace Overlooks

variable {α : Type} {view : Broker → α} (h : Overlooks view) (b : Broker)
include h

/-- Putting a message in is overlooked. -/
theorem enqueue (ref : QueueRef) (m : Message) : view (b.enqueue ref m) = view b := by
  obtain ⟨mint, -, hmint⟩ := identify_snd b m
  show view ((b.identify m).2.put ref (b.identify m).1) = view b
  rw [hmint]
  unfold put
  cases hq : ({ b with mint } : Broker).queue? ref with
  | none => exact h.mint b mint
  | some q => exact (h.queue hq (q.enqueue _) rfl rfl).trans (h.mint b mint)

/-- A delivery is overlooked. -/
theorem deliver (topic : String) (m : Message) (target : QueueRef) :
    view (b.deliver topic m target) = view b :=
  (h.enqueue { b with mint := b.mint.advance.advance } target (b.publicationCopy topic m).1).trans
    (h.mint b _)

/-- Deliveries are overlooked. -/
theorem deliverAll (topic : String) (m : Message) (targets : List QueueRef) :
    view (Broker.deliverAll topic m targets b) = view b := by
  induction targets generalizing b with
  | nil => rfl
  | cons target rest ih => exact (ih (b.deliver topic m target)).trans (h.deliver b topic m target)

/-- The arrival of a dead letter is overlooked. -/
theorem deposit (letter : DeadLetter) : view (b.deposit letter) = view b := by
  unfold Broker.deposit
  split
  · rfl
  · split
    · rfl
    · exact (h.enqueue { b with mint := b.mint.advance } _ _).trans (h.mint b _)

/-- A lease is overlooked. -/
theorem receive (ref : QueueRef) (now : Instant) : view (b.receive ref now).2 = view b := by
  rcases b.first_split ref (·.VisibleAt now) with hn | ⟨q, before, m, after, hq, hs, hbefore, hm⟩
  · rw [receive_eq_none hn]
  · rw [receive_eq_some hq hs hbefore hm]
    exact (h.mint _ _).trans (h.queue hq _ rfl rfl)

/-- The first half of a nack is overlooked. -/
theorem giveBack {b b' : Broker} {ref : QueueRef} {handle : Ident} {letter : Option DeadLetter}
    (he : b.giveBack ref handle = .ok (b', letter)) : view b' = view b := by
  rcases b.first_split ref (·.receipt = some handle) with
    hn | ⟨q, before, m, after, hq, hs, hbefore, hm⟩
  · rw [giveBack_eq_error hn] at he
    cases he
  · rcases Nat.lt_or_ge m.retryCount q.maxRetries with hlt | hge
    · rw [giveBack_eq_release hq hs hbefore hm hlt] at he
      cases he
      exact h.queue hq _ rfl rfl
    · rw [giveBack_eq_giveUp hq hs hbefore hm hge] at he
      cases he
      exact h.queue hq _ rfl rfl

/-- A nack is overlooked. -/
theorem nack (ref : QueueRef) (handle : Ident) :
    view (b.orUnchanged (b.nack ref handle)) = view b := by
  unfold Broker.nack
  cases he : b.giveBack ref handle with
  | error fault => rfl
  | ok result =>
    obtain ⟨b', letter⟩ := result
    cases letter with
    | none => exact h.giveBack he
    | some letter => exact (h.deposit b' letter).trans (h.giveBack he)

/-- A call about messages is overlooked, unless it is an acknowledgement. -/
theorem perform {op : Operation} (hregisters : op.registers = false)
    (hack : ∀ ref handle, op ≠ .acknowledge ref handle) : view (b.perform op) = view b := by
  cases op with
  | createTopic | addTopic | createQueue | addQueue | subscribe | subscribeTo => cases hregisters
  | enqueue ref m => exact h.enqueue b ref m
  | publish topic m deadline clock =>
    rw [perform_publish]
    exact h.deliverAll b _ m _
  | publishTo topic m deadline clock =>
    rw [perform_publishTo]
    exact h.deliverAll b _ m _
  | receive ref now => exact h.receive b ref now
  | acknowledge ref handle => exact absurd rfl (hack ref handle)
  | nack ref handle => exact h.nack b ref handle

end Overlooks

end MessageBroker.Broker
