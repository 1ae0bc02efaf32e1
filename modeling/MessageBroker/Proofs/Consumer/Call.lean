import MessageBroker.Proofs.Broker.DeadLetters
import MessageBroker.Proofs.Consumer.Steps

/-!
# A message in the hands of a worker

From the check in which a worker leases a message, its run goes on to the next check: it calls the
handler, which may publish and may fail, and settles the message. `Fleet.At.handles` follows the run
up to the settlement, for a handler without a guard and for one whose guard lets the message
through. Until then other queues have got what the handler published (`Gains`), and nothing if the
handler `Spares` them; a success is marked in the store of the guard (`Fleet.storesAfter`).
-/

namespace MessageBroker

/-- The message of a call that began, and the number of leases it had by then. -/
def Event.call? : Event → Option (Message × Nat)
  | .began _ m => some (m.bare, m.retryCount)
  | .settled .. | .published _ | .ended .. => none

/-- The error with which a call that takes these actions ends. -/
def Action.failure? : List Action → Option String
  | [] => none
  | .fail reason :: _ => some reason
  | _ :: rest => failure? rest

namespace Handler

/-- The handler does nothing but publish and fail, and whether a call succeeds is decided by the
message and the number of its leases. -/
structure Decides (h : Handler) (ok : Message → Nat → Bool) : Prop where
  guard : h.guard = none
  quiet : ∀ n m, ∀ a ∈ h.plan n m, (∃ reason, a = .fail reason) ∨ ∃ topic, a = .publish topic
  outcome : ∀ n m, (Action.failure? (h.plan n m)).isNone = ok m.bare m.retryCount

/-- Behind its guard, if it has one, the handler does nothing but publish and fail, and whether a
call succeeds is decided by the message and the number of its leases. -/
def DecidesInside (h : Handler) (ok : Message → Nat → Bool) : Prop :=
  ({ h with guard := none } : Handler).Decides ok

/-- A handler without a guard has nothing in front of it. -/
theorem Decides.inside {h : Handler} {ok : Message → Nat → Bool} (hok : h.Decides ok) :
    h.DecidesInside ok := ⟨rfl, hok.quiet, hok.outcome⟩

/-- The handler publishes to no topic to which the queue is subscribed. -/
def Spares (h : Handler) (b : Broker) (ref : QueueRef) : Prop :=
  ∀ n m topic, .publish topic ∈ h.plan n m → ref ∉ b.subscribers topic

/-- A handler spares what it spares as long as the topics stay. -/
theorem Spares.of_same {h : Handler} {b b' : Broker} {ref : QueueRef} (hs : h.Spares b ref)
    (hsame : b.SameObjects b') : h.Spares b' ref := by
  intro n m topic ht
  rw [hsame.subscribers]
  exact hs n m topic ht

end Handler

namespace Broker

/-- A queue object has got these copies of published messages, and has not changed otherwise. -/
def Gains (b b' : Broker) (ref : QueueRef) (published : List Message) : Prop :=
  (∀ copy ∈ published, ∃ topic m, IsCopyFor copy topic m) ∧
    b'.queue? ref = (b.queue? ref).map (·.enqueueAll published)

/-- Without a change, a queue has got nothing. -/
theorem gains_nil {b b' : Broker} {ref : QueueRef} (h : b'.queue? ref = b.queue? ref) :
    Gains b b' ref [] := by
  refine ⟨fun copy hcopy => absurd hcopy List.not_mem_nil, ?_⟩
  rw [h, Queue.map_enqueueAll_nil]

/-- A queue that has got nothing has not changed. -/
theorem Gains.queue?_eq {b b' : Broker} {ref : QueueRef} (h : Gains b b' ref []) :
    b'.queue? ref = b.queue? ref := by
  rw [h.2, Queue.map_enqueueAll_nil]

/-- What a queue has got in two steps. -/
theorem Gains.trans {b b' b'' : Broker} {ref : QueueRef} {published published' : List Message}
    (h : Gains b b' ref published) (h' : Gains b' b'' ref published') :
    Gains b b'' ref (published ++ published') := by
  refine ⟨fun copy hcopy => ?_, ?_⟩
  · rcases List.mem_append.mp hcopy with hcopy | hcopy
    · exact h.1 copy hcopy
    · exact h'.1 copy hcopy
  · rw [h'.2, h.2]
    cases b.queue? ref with
    | none => rfl
    | some q => simp only [Option.map_some, Queue.enqueueAll_enqueueAll]

section Publish

variable {b : Broker} (hb : b.Closed) (topic : String) (m : Message) (clock : Nat → Span)
include hb

/-- A publication leaves the objects the same. -/
theorem sameObjects_publish : SameObjects b (b.publish topic m none clock).2 := by
  have hvalid : (Operation.publish topic m none clock).Valid b :=
    ⟨fun _ h => absurd h List.not_mem_nil, fun _ h => absurd h List.not_mem_nil⟩
  exact sameObjects_perform hb hvalid rfl

/-- A publication gives a queue copies, and none if it is not subscribed to the topic. -/
theorem gains_publish (ref : QueueRef) :
    ∃ published, Gains b (b.publish topic m none clock).2 ref published ∧
      (ref ∉ b.subscribers topic → published = []) := by
  have hserved : ∀ target ∈ (Operation.publish topic m none clock).reached b, b.HasQueue target :=
    fun target h => hb.hasQueue_of_mem_reached h
  refine ⟨_, ⟨?_, publish_snd b topic m none clock ▸ queue?_deliverAll hserved _ m ref⟩, ?_⟩
  · intro copy hcopy
    obtain ⟨c, hc, rfl⟩ := List.mem_map.mp hcopy
    exact ⟨_, m, isCopyFor_of_mem_copies (List.mem_filter.mp hc).1⟩
  · exact fun hnot => addressed_copies_of_not_mem (fun h => hnot (mem_of_mem_served h)) _ m _

end Publish

end Broker

namespace Fleet

open Broker

/-- The stores when a call for the id has come to its end: behind a guard, a success is marked. -/
def storesAfter (f : Fleet) (guard : Option StoreRef) (id : Ident) (success : Bool) :
    List IdempotencyStore :=
  match guard, success with
  | some store, true => (f.markProcessed store id).stores
  | _, _ => f.stores

/-- A failure is not marked. -/
theorem storesAfter_false (f : Fleet) (guard : Option StoreRef) (id : Ident) :
    f.storesAfter guard id false = f.stores := by
  unfold storesAfter
  split
  · contradiction
  · rfl

/-- What a mark leaves depends on the stores and the clock alone. -/
theorem storesAfter_congr {f g : Fleet} (hstores : g.stores = f.stores) (hclock : g.clock = f.clock)
    (guard : Option StoreRef) (id : Ident) (success : Bool) :
    g.storesAfter guard id success = f.storesAfter guard id success := by
  unfold storesAfter markProcessed
  rw [hstores, hclock]

/-- What a guard says depends on the stores and the clock alone. -/
theorem isProcessed_congr {f g : Fleet} (hstores : g.stores = f.stores) (hclock : g.clock = f.clock)
    (store : StoreRef) (id : Ident) : g.isProcessed store id = f.isProcessed store id := by
  unfold isProcessed
  rw [hstores, hclock]

namespace At

variable {f : Fleet} {run : RunRef} {worker : WorkerRef} {clock : Clock} {w : Worker} {b : Broker}

/-- Behind the last action, a call succeeds, and behind a guard its message is marked. -/
theorem completes {m : Message} {began : Span}
    (h : f.At run worker clock w b (.handling ⟨m, began, .acting []⟩)) :
    f.Leaves run worker clock (w.logged [.ended clock.uptime none]) b
      (.handling ⟨m, began, .settling none (clock.uptime.since began)⟩)
      (f.storesAfter w.handler.guard m.id true) := by
  obtain ⟨g, hsteps, hg, hstores⟩ := h.succeeds
  cases hguard : w.handler.guard with
  | none =>
    simp only [hguard, Option.isSome_none, Bool.false_eq_true, if_false] at hg
    exact ⟨g, hsteps, hg, hstores⟩
  | some store =>
    simp only [hguard, Option.isSome_some, if_true] at hg
    have hguard' : (w.logged [.ended clock.uptime none]).handler.guard = some store := hguard
    have hsame := storesAfter_congr hstores (hg.clock.trans h.clock.symm) (some store) m.id true
    rw [← hsame]
    exact (hg.marks hguard').after hsteps

/-- A call takes its actions up to the first that fails. It changes the broker by publications only,
and logs no further call. -/
theorem acts {m : Message} {began : Span} {todo : List Action}
    (h : f.At run worker clock w b (.handling ⟨m, began, .acting todo⟩))
    (hquiet : ∀ a ∈ todo, (∃ reason, a = .fail reason) ∨ ∃ topic, a = .publish topic)
    (hb : b.Closed) :
    ∃ events b', f.Leaves run worker clock (w.logged events) b'
        (.handling ⟨m, began, .settling (Action.failure? todo) (clock.uptime.since began)⟩)
        (f.storesAfter w.handler.guard m.id (Action.failure? todo).isNone) ∧
      events.filterMap Event.call? = [] ∧ SameObjects b b' ∧
      ∀ ref, ∃ published, Gains b b' ref published ∧
        ((∀ topic, .publish topic ∈ todo → ref ∉ b.subscribers topic) → published = []) := by
  induction todo generalizing f w b with
  | nil => exact ⟨_, b, h.completes, rfl, .refl b, fun _ => ⟨[], gains_nil rfl, fun _ => rfl⟩⟩
  | cons a todo ih =>
    rcases hquiet a List.mem_cons_self with ⟨reason, rfl⟩ | ⟨topic, rfl⟩
    · refine ⟨[.ended clock.uptime (some reason)], b, ?_, rfl, .refl b,
        fun _ => ⟨[], gains_nil rfl, fun _ => rfl⟩⟩
      show f.Leaves run worker clock _ b _ (f.storesAfter w.handler.guard m.id false)
      rw [storesAfter_false]
      exact h.fails
    · obtain ⟨g, hsteps, hg, hstores⟩ := h.publishes
      have hsame := sameObjects_publish hb topic m fun _ => clock.uptime
      obtain ⟨events, b', hreach, hevents, hrest, hqueues⟩ := ih hg
        (fun x hx => hquiet x (List.mem_cons_of_mem _ hx)) (hsame.closed hb)
      rw [Worker.logged_logged,
        storesAfter_congr hstores (hg.clock.trans h.clock.symm)] at hreach
      refine ⟨_, b', hreach.after hsteps, hevents, hsame.trans hrest, fun ref => ?_⟩
      obtain ⟨first, hfirst, hnone⟩ := gains_publish hb topic m (fun _ => clock.uptime) ref
      obtain ⟨others, hothers, hnone'⟩ := hqueues ref
      refine ⟨first ++ others, hfirst.trans hothers, fun hspared => ?_⟩
      rw [hnone (hspared topic List.mem_cons_self), hnone' fun t ht => ?_, List.append_nil]
      rw [hsame.subscribers]
      exact hspared t (List.mem_cons_of_mem _ ht)

/-- A run that checks its worker leases the first visible message of the queue and has it handled,
up to its settlement, if the guard does not know of it. The queue holds the message under a new
handle; other queues have got what the handler published to them. -/
theorem handles {q : Queue} {before after : List Message} {m : Message}
    {ok : Message → Nat → Bool} (h : f.At run worker clock w b .checking)
    (hcancel : w.cancelled = false) (hstop : w.stopped = false) (hok : w.handler.DecidesInside ok)
    (hnew : w.handler.guard.any (f.isProcessed · m.id) = false)
    (hb : b.Closed) (hq : b.queue? w.queue = some q) (hspares : w.handler.Spares b w.queue)
    (hs : q.messages = before ++ m :: after) (hhidden : ∀ x ∈ before, ¬ x.VisibleAt clock.wall)
    (hvisible : m.VisibleAt clock.wall) :
    ∃ leased events failure b', leased = m.leased b.mint.next
        (clock.wall.deadline q.visibilityTimeout) ∧
      f.Leaves run worker clock ({ w with calls := w.calls + 1 }.logged events) b'
        (.handling ⟨leased, clock.uptime, .settling failure (clock.uptime.since clock.uptime)⟩)
        (f.storesAfter w.handler.guard m.id failure.isNone) ∧
      failure.isNone = ok m.bare m.nextCount ∧
      events.filterMap Event.call? = [(m.bare, m.nextCount)] ∧ SameObjects b b' ∧
      b'.queue? w.queue = some { q with messages := before ++ leased :: after } ∧
      ∀ other, other ≠ w.queue → ∃ published, Gains b b' other published ∧
        (w.handler.Spares b other → published = []) := by
  obtain ⟨b₁, hrec, hchange⟩ := receive_changes hq hs hhidden hvisible
  have hsame := hchange.sameObjects
  generalize hm : m.leased b.mint.next (clock.wall.deadline q.visibilityTimeout) = leased at *
  have hid : leased.id = m.id := by rw [← hm]; rfl
  obtain ⟨g₁, hsteps₁, hg₁, hstores₁⟩ := h.leases hcancel hstop hrec
  have hclock₁ := hg₁.clock.trans h.clock.symm
  have hnew₁ : w.handler.guard.any (g₁.isProcessed · leased.id) = false := by
    rw [hid, ← hnew]
    exact congrArg (Option.any · _) (funext fun store => isProcessed_congr hstores₁ hclock₁ store m.id)
  obtain ⟨g₂, hsteps₂, hg₂, hstores₂⟩ := hg₁.calls hnew₁
  obtain ⟨events, b', hreach, hevents, hrest, hqueues⟩ :=
    hg₂.acts (hok.quiet w.calls leased) (hsame.closed hb)
  rw [Worker.logged_logged, storesAfter_congr (hstores₂.trans hstores₁)
    (hg₂.clock.trans h.clock.symm), hid] at hreach
  -- Since the lease, queues have got what the handler published to them.
  have hgains : ∀ other, ∃ published, Gains b₁ b' other published ∧
      (w.handler.Spares b other → published = []) := by
    intro other
    obtain ⟨published, hgain, hnone⟩ := hqueues other
    refine ⟨published, hgain, fun hspared => hnone fun topic ht => ?_⟩
    rw [hsame.subscribers]
    exact hspared w.calls leased topic ht
  refine ⟨leased, _, _, b', rfl, (hreach.after hsteps₂).after hsteps₁, ?_, ?_,
    hsame.trans hrest, ?_, ?_⟩
  · have houtcome := hok.outcome w.calls leased
    rw [← hm] at houtcome ⊢
    exact houtcome
  · rw [List.filterMap_append, hevents, ← hm]
    rfl
  · obtain ⟨published, hgain, hnone⟩ := hgains w.queue
    rw [hnone hspares] at hgain
    rw [hgain.queue?_eq, hchange.queue?, if_pos rfl]
  · intro other hne
    obtain ⟨published, hgain, hnone⟩ := hgains other
    have hlease : Gains b b₁ other [] :=
      gains_nil ((hchange.queue? other).trans (if_neg hne))
    exact ⟨published, hlease.trans hgain, hnone⟩

end At

end Fleet

end MessageBroker
