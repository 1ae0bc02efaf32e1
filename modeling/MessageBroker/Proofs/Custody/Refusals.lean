import MessageBroker.Proofs.Broker.Answer
import MessageBroker.Proofs.Broker.Registry
import MessageBroker.Proofs.Custody.Sound

/-!
# Refusals leave no trace

A subscription or a publication by a name that is not registered, and a settlement with a handle
that no message of the queue carries, is refused, and the state stays as it was: the registry, the
subscriptions, what the queues hold and count, and the identifiers generated so far. Conversely,
these calls are refused for no other reason, but for a publication that comes too late
(`Chronicle.refusals_leave_no_trace`). Whether a name is registered can be told from the run: it is
so once it has been created, by whatever thread (`Chronicle.findTopic?_run`).
-/

namespace MessageBroker.Chronicle

open Broker

/-- After a valid move, a topic name is unregistered if it was so before, and was not created. -/
theorem findTopic?_apply {c : Chronicle} (hs : c.Sound) {v : Move} (hv : v.Valid c.broker)
    (name : String) : (c.apply v).broker.findTopic? name = none ↔
      c.broker.findTopic? name = none ∧ v ≠ .call (.createTopic name) := by
  rcases hs.broker_apply_cases hv with ⟨hr, hsame⟩ | ⟨op, rfl, hop, hb⟩
  · have hne : v ≠ .call (.createTopic name) := fun he => by rw [he] at hr; cases hr
    unfold findTopic?
    rw [hsame.topicNames]
    exact ⟨fun h => ⟨h, hne⟩, fun h => h.1⟩
  · rw [hb, findTopic?_perform hs.closed hop]
    exact and_congr_right fun _ => not_congr ⟨congrArg Move.call, Move.call.inj⟩

/-- After a valid move, a queue name is unregistered if it was so before, and was not created. -/
theorem findQueue?_apply {c : Chronicle} (hs : c.Sound) {v : Move} (hv : v.Valid c.broker)
    (name : String) : (c.apply v).broker.findQueue? name = none ↔
      c.broker.findQueue? name = none ∧ ∀ options, v ≠ .call (.createQueue name options) := by
  rcases hs.broker_apply_cases hv with ⟨hr, hsame⟩ | ⟨op, rfl, hop, hb⟩
  · have hne : ∀ options, v ≠ .call (.createQueue name options) :=
      fun options he => by rw [he] at hr; cases hr
    unfold findQueue?
    rw [hsame.queueNames]
    exact ⟨fun h => ⟨h, hne⟩, fun h => h.1⟩
  · rw [hb, findQueue?_perform hs.closed hop]
    exact and_congr_right fun _ =>
      forall_congr' fun _ => not_congr ⟨congrArg Move.call, Move.call.inj⟩

/-- After a run, the unregistered topics are those that were so before and that it did not create.
-/
theorem findTopic?_run {c : Chronicle} (hc : c.Reachable) {moves : List Move} (hv : c.Admits moves)
    (name : String) : (c.run moves).broker.findTopic? name = none ↔
      c.broker.findTopic? name = none ∧ .call (.createTopic name) ∉ moves := by
  induction moves generalizing c with
  | nil => simp [run]
  | cons v rest ih =>
    refine (ih (hc.apply hv.1) hv.2).trans ?_
    rw [findTopic?_apply hc.sound hv.1, List.mem_cons, not_or, and_assoc, ne_comm]

/-- After a run, the unregistered queues are those that were so before and that it did not create.
-/
theorem findQueue?_run {c : Chronicle} (hc : c.Reachable) {moves : List Move} (hv : c.Admits moves)
    (name : String) : (c.run moves).broker.findQueue? name = none ↔
      c.broker.findQueue? name = none ∧ ∀ options, .call (.createQueue name options) ∉ moves := by
  induction moves generalizing c with
  | nil => simp [run]
  | cons v rest ih =>
    refine (ih (hc.apply hv.1) hv.2).trans ?_
    rw [findQueue?_apply hc.sound hv.1, and_assoc, ← forall_and]
    refine and_congr_right fun _ => forall_congr' fun options => ?_
    rw [List.mem_cons, not_or, ne_comm]

/-- In the state after any run, for every call: what it leaves behind is its effect, and if a name
or a handle leads nowhere, that is the state as it was before.

A subscription is refused for its topic exactly if that is unregistered, whatever its queue, and for
its queue exactly if only that is. A publication is refused for its topic exactly if that is
unregistered, and then before its deadline counts. A settlement is refused exactly if no message of
the queue carries its handle. Each error carries the name or the handle that the caller gave. A name
is unregistered exactly if the run has not created it. -/
theorem refusals_leave_no_trace {defaults : QueueDefaults} {moves : List Move}
    (hv : (create defaults).Admits moves) {b : Broker}
    (hb : b = ((create defaults).run moves).broker) :
    (∀ op, (b.answer op).2 = b.perform op ∧
      ∀ e, (b.answer op).1 = .error e → e.LeadsNowhere → (b.answer op).2 = b) ∧
    (∀ topic queue e, (b.answer (.subscribe topic queue)).1 = .error e ↔
      e = .topicNotFound topic ∧ b.findTopic? topic = none ∨
      e = .queueNotFound queue ∧ b.findTopic? topic ≠ none ∧ b.findQueue? queue = none) ∧
    (∀ topic m deadline clock,
      (∀ e, e.LeadsNowhere → ((b.answer (.publish topic m deadline clock)).1 = .error e ↔
        e = .topicNotFound topic ∧ b.findTopic? topic = none)) ∧
      (b.findTopic? topic = none →
        b.publish topic m deadline clock = (.error (.topicNotFound topic), b))) ∧
    (∀ q h e, ((b.answer (.acknowledge q h)).1 = .error e ↔
        e = .invalidReceipt h ∧ ∀ m ∈ b.contents q, m.receipt ≠ some h) ∧
      ((b.answer (.nack q h)).1 = .error e ↔
        e = .invalidReceipt h ∧ ∀ m ∈ b.contents q, m.receipt ≠ some h)) ∧
    (∀ name, b.findTopic? name = none ↔ .call (.createTopic name) ∉ moves) ∧
    ∀ name, b.findQueue? name = none ↔ ∀ options, .call (.createQueue name options) ∉ moves := by
  have hnew : (create defaults).Reachable := .create defaults
  refine ⟨fun op => ⟨answer_snd op, fun e => answer_of_refusal⟩,
    fun topic queue e => answer_subscribe_error_iff, fun topic m deadline clock =>
      ⟨fun e => answer_publish_error_iff, fun h => publish_of_unregistered h m deadline clock⟩,
    fun q h e => ⟨answer_acknowledge_error_iff, answer_nack_error_iff⟩, fun name => ?_,
    fun name => ?_⟩
  · -- The broker of a new chronicle has no names.
    rw [hb, findTopic?_run hnew hv]
    exact and_iff_right rfl
  · rw [hb, findQueue?_run hnew hv]
    exact and_iff_right rfl

/-- A run that registers a topic and a queue, and acknowledges the message of that queue. -/
def settledRun : List Move :=
  [.call (.createTopic "orders"),
    .call (.createQueue "work" {}),
    .call (.enqueue ⟨0⟩ (.create (.text "m") "order" [] .first)),
    .call (.receive ⟨0⟩ .first),
    .call (.acknowledge ⟨0⟩ (.generated 0))]

/-- After that run: a publication to another topic is refused although its deadline has passed, the
subscription of another queue to the topic is, and so is a second settlement with the handle. None
of them leaves a trace. -/
theorem refusals_leave_no_trace_settledRun :
    let b := ((create .standard).run settledRun).broker
    let late : Operation :=
      .publish "returns" (.create (.text "m") "order" [] .first) (some .zero) fun _ => .zero
    b.answer late = (.error (.topicNotFound "returns"), b) ∧
      b.answer (.subscribe "orders" "audit") = (.error (.queueNotFound "audit"), b) ∧
      b.answer (.nack ⟨0⟩ (.generated 0)) = (.error (.invalidReceipt (.generated 0)), b) ∧
      b.findTopic? "orders" ≠ none := by
  intro b late
  have hv : (create .standard).Admits settledRun := by decide
  obtain ⟨hleaves, hsubscribe, hpublish, hsettle, htopic, hqueue⟩ :=
    refusals_leave_no_trace hv (b := b) rfl
  have horders : b.findTopic? "orders" ≠ none := fun h =>
    (htopic "orders").mp h List.mem_cons_self
  have haudit : b.findQueue? "audit" = none := by decide
  have hreturns : b.findTopic? "returns" = none := by decide
  have hgone : ∀ m ∈ b.contents ⟨0⟩, m.receipt ≠ some (.generated 0) := by decide
  have hlate : (b.answer late).1 = .error (.topicNotFound "returns") :=
    ((hpublish "returns" _ _ _).1 (.topicNotFound "returns") trivial).mpr ⟨rfl, hreturns⟩
  have hother : (b.answer (.subscribe "orders" "audit")).1 = .error (.queueNotFound "audit") :=
    (hsubscribe "orders" "audit" _).mpr (.inr ⟨rfl, horders, haudit⟩)
  have htwice : (b.answer (.nack ⟨0⟩ (.generated 0))).1 =
      .error (.invalidReceipt (.generated 0)) :=
    (hsettle ⟨0⟩ (.generated 0) _).2.mpr ⟨rfl, hgone⟩
  exact ⟨Prod.ext hlate ((hleaves _).2 _ hlate trivial),
    Prod.ext hother ((hleaves _).2 _ hother trivial),
    Prod.ext htwice ((hleaves _).2 _ htwice trivial), horders⟩

end MessageBroker.Chronicle
