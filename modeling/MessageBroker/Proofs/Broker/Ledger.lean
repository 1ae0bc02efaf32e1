import Mathlib.Algebra.Ring.Nat
import MessageBroker.Proofs.Broker.Operation

/-!
# The ledger of a run

Every message that a queue has ever received was acknowledged by it, given up by it, or is still
held by it; and it came from a caller, from a publication, or from a queue that gave it up. Both
hold of every queue after every run of operations (`ledger_balances`), through repeated
subscriptions, shared queues for dead letters and publications that stop half-way.

The proof keeps book of one queue `s`. `Posts b b' s arrived dead` says that between `b` and `b'`
the queue received `arrived` messages while the queues whose dead letters it takes gave up `dead`,
and that no balance was upset. Postings add up along a run (`Posts.trans`).
-/

namespace MessageBroker

/-- The counters of a queue account for all that it ever received. -/
def Queue.Balanced (q : Queue) : Prop := q.received = q.processed + q.failed + q.size

namespace Operation

/-- The queues that a call puts its message in directly. -/
def enqueues : Operation → List QueueRef
  | .enqueue queue _ => [queue]
  | _ => []

end Operation

namespace Broker

/-! ## Reading the books -/

/-- The number of messages ever put in a queue object. -/
def receivedBy (b : Broker) (s : QueueRef) : Nat := (b.queue? s).elim 0 Queue.received

/-- The number of messages given up by all queues that send their dead letters to a queue. -/
def failedInto (b : Broker) (s : QueueRef) : Nat :=
  ((b.queues.filter fun q => q.deadLetters = some s).map Queue.failed).sum

/-- The number of direct calls of `enqueue` to a queue. -/
def directTo (s : QueueRef) (ops : List Operation) : Nat :=
  (ops.flatMap Operation.enqueues).count s

/-- The number of copies that the publications of a run deliver to a queue: for each publication,
the number of times the queue occurs among the subscriptions it reached. -/
def copiesTo (s : QueueRef) : Broker → List Operation → Nat
  | _, [] => 0
  | b, op :: rest => (op.reached b).count s + copiesTo s (b.perform op) rest

/-- The counters of every queue account for all that it ever received. -/
def Balanced (b : Broker) : Prop := ∀ ref q, b.queue? ref = some q → q.Balanced

/-- Between two states of the broker, a queue received `arrived` messages, the queues that send it
their dead letters gave up `dead`, and no balance was upset. -/
structure Posts (b b' : Broker) (s : QueueRef) (arrived dead : Nat) : Prop where
  received : b'.receivedBy s = b.receivedBy s + arrived
  failed : b'.failedInto s = b.failedInto s + dead
  balanced : b.Balanced → b'.Balanced

/-- Nothing happened. -/
theorem Posts.refl (b : Broker) (s : QueueRef) : Posts b b s 0 0 := ⟨rfl, rfl, id⟩

/-- Postings add up. -/
theorem Posts.trans {b₁ b₂ b₃ : Broker} {s : QueueRef} {a₁ a₂ d₁ d₂ : Nat}
    (h₁ : Posts b₁ b₂ s a₁ d₁) (h₂ : Posts b₂ b₃ s a₂ d₂) : Posts b₁ b₃ s (a₁ + a₂) (d₁ + d₂) := by
  refine ⟨?_, ?_, fun hb => h₂.balanced (h₁.balanced hb)⟩
  · rw [h₂.received, h₁.received, Nat.add_assoc]
  · rw [h₂.failed, h₁.failed, Nat.add_assoc]

/-! ## Postings of a change -/

/-- Replacing one element changes a sum over the chosen elements by the difference. -/
theorem sum_filter_set {α : Type} (p : α → Bool) (f : α → Nat) {l : List α} {i : Nat} {x : α}
    (h : l[i]? = some x) (y : α) :
    (((l.set i y).filter p).map f).sum + (if p x then f x else 0) =
      ((l.filter p).map f).sum + (if p y then f y else 0) := by
  induction l generalizing i with
  | nil => simp at h
  | cons z rest ih =>
    cases i with
    | zero =>
      obtain rfl : z = x := by simpa using h
      rw [List.set_cons_zero, List.filter_cons, List.filter_cons]
      split <;> split <;> simp only [List.map_cons, List.sum_cons] <;> omega
    | succ i =>
      have hrest := ih (i := i) (by simpa using h)
      rw [List.set_cons_succ, List.filter_cons, List.filter_cons]
      split
      · simp only [List.map_cons, List.sum_cons]
        omega
      · exact hrest

/-- A change that keeps the changed queue balanced posts what its own counters show. -/
theorem Changes.posts {b b' : Broker} {ref s : QueueRef} {q q' : Queue} {a d : Nat}
    (h : Changes b b' ref q q') (ha : q'.received = q.received + a)
    (hd : q'.failed = q.failed + d) (hb : q.Balanced → q'.Balanced) :
    Posts b b' s (if s = ref then a else 0) (if q.deadLetters = some s then d else 0) := by
  have hdl : q'.deadLetters = q.deadLetters := congrArg QueueRules.deadLetters h.rules
  refine ⟨?_, ?_, ?_⟩
  · unfold receivedBy
    rw [h.queue?]
    split
    · rename_i he
      rw [he, h.before]
      exact ha
    · rfl
  · have hset := sum_filter_set (fun x => decide (x.deadLetters = some s)) Queue.failed h.before q'
    unfold failedInto
    rw [h.queues]
    -- The queue still sends its dead letters to the same one, so it counts now if it did before.
    simp only [hdl, decide_eq_true_eq] at hset
    split at hset
    · rename_i he
      rw [if_pos he]
      omega
    · rename_i hne
      rw [if_neg hne]
      omega
  · intro hall r x hx
    rw [h.queue?] at hx
    split at hx
    · obtain rfl := Option.some.inj hx
      exact hb (hall ref q h.before)
    · exact hall r x hx

/-! ## Postings of the operations -/

/-- A message put behind the others has arrived; nothing else did. -/
theorem Changes.posts_enqueue {b b' : Broker} {ref : QueueRef} {q : Queue} {m : Message}
    (h : Changes b b' ref q (q.enqueue m)) (s : QueueRef) :
    Posts b b' s (if s = ref then 1 else 0) 0 := by
  have hb : q.Balanced → (q.enqueue m).Balanced := by
    unfold Queue.Balanced Queue.size Queue.enqueue
    intro hq
    simp only [List.length_append, List.length_cons, List.length_nil]
    omega
  have hp := h.posts (s := s) (a := 1) (d := 0) rfl rfl hb
  rwa [ite_self] at hp

/-- A change that keeps the counters and the number of messages posts nothing. -/
theorem Changes.posts_nothing {b b' : Broker} {ref : QueueRef} {q q' : Queue}
    (h : Changes b b' ref q q') (hr : q'.received = q.received) (hf : q'.failed = q.failed)
    (hs : q'.processed + q'.size = q.processed + q.size) (s : QueueRef) : Posts b b' s 0 0 := by
  have hb : q.Balanced → q'.Balanced := by
    unfold Queue.Balanced
    intro hq
    omega
  have hp := h.posts (s := s) (a := 0) (d := 0) hr hf hb
  rwa [ite_self, ite_self] at hp

/-- A change of the topics or the registry posts nothing. -/
theorem posts_of_queues {b b' : Broker} (h : b'.queues = b.queues) (s : QueueRef) :
    Posts b b' s 0 0 := by
  have hq : ∀ r, b'.queue? r = b.queue? r := fun r => by unfold queue?; rw [h]
  refine ⟨?_, ?_, ?_⟩
  · unfold receivedBy
    rw [hq]
    rfl
  · unfold failedInto
    rw [h]
    rfl
  · intro hb r q hr
    exact hb r q (hq r ▸ hr)

/-- A lease posts nothing. -/
theorem posts_receive (b : Broker) (ref : QueueRef) (now : Instant) (s : QueueRef) :
    Posts b (b.receive ref now).2 s 0 0 := by
  rcases b.first_split ref (·.VisibleAt now) with h | ⟨q, before, m, after, hq, hs, hbefore, hm⟩
  · rw [receive_eq_none h]
    exact .refl b s
  · rw [receive_eq_some hq hs hbefore hm]
    have hc := (changes_setQueue hq { q with
      messages := before ++ m.leased b.mint.next (now.deadline q.visibilityTimeout) :: after }
      rfl).generate (Nat.le_succ b.mint.issued)
    refine hc.posts_nothing rfl rfl ?_ s
    simp [Queue.size, hs]

/-- An acknowledged message moves from the size of its queue to the number of those processed. -/
theorem posts_acknowledge (b : Broker) (ref : QueueRef) (handle : Ident) (s : QueueRef) :
    Posts b (b.orUnchanged (b.acknowledge ref handle)) s 0 0 := by
  rcases b.first_split ref (·.receipt = some handle) with
    h | ⟨q, before, m, after, hq, hs, hbefore, hm⟩
  · rw [acknowledge_eq_error h]
    exact .refl b s
  · rw [acknowledge_eq_ok hq hs hbefore hm]
    have hc := changes_setQueue hq
      { q with messages := before ++ after, processed := q.processed + 1 } rfl
    refine hc.posts_nothing rfl rfl ?_ s
    simp only [Queue.size, hs, List.length_append, List.length_cons]
    omega

/-- A new queue has counted nothing. -/
theorem posts_of_append {b b' : Broker} {name : String} {visibilityTimeout : Span}
    {maxRetries : Nat} {deadLetters : Option QueueRef}
    (h : b'.queues = b.queues ++ [.create name visibilityTimeout maxRetries deadLetters])
    (s : QueueRef) : Posts b b' s 0 0 := by
  have hq : ∀ r q, b'.queue? r = some q → b.queue? r = some q ∨
      (b.queue? r = none ∧ q = .create name visibilityTimeout maxRetries deadLetters) := by
    intro r q hr
    unfold queue? at *
    rw [h, List.getElem?_append] at hr
    split at hr
    · exact .inl hr
    · rename_i hge
      refine .inr ⟨List.getElem?_eq_none (Nat.not_lt.mp hge), ?_⟩
      exact List.mem_singleton.mp (List.mem_of_getElem? hr)
  refine ⟨?_, ?_, ?_⟩
  · unfold receivedBy
    cases hs : b'.queue? s with
    | none =>
      -- Beyond the new queue there is none, and there was none.
      have hn : b.queue? s = none := by
        unfold queue? at *
        rw [h, List.getElem?_eq_none_iff, List.length_append] at hs
        exact List.getElem?_eq_none (by omega)
      rw [hn]
      rfl
    | some q =>
      rcases hq s q hs with hbefore | ⟨hbefore, rfl⟩
      · rw [hbefore]
        rfl
      · rw [hbefore]
        rfl
  · unfold failedInto
    rw [h, List.filter_append, List.map_append, List.sum_append]
    simp only [List.filter_cons, List.filter_nil]
    split <;> rfl
  · intro hb r q hr
    rcases hq r q hr with hr | ⟨-, rfl⟩
    · exact hb r q hr
    · rfl

/-- A call about objects posts nothing. -/
theorem posts_of_registers (b : Broker) {op : Operation} (h : op.registers = true) (s : QueueRef) :
    Posts b (b.perform op) s 0 0 := by
  -- No queue changed, or an empty one came.
  obtain ⟨-, hq | ⟨_, _, _, _, hq⟩⟩ := b.perform_of_registers h
  · exact posts_of_queues hq s
  · exact posts_of_append hq s

/-- The places of a queue in a list, the first one apart. -/
theorem count_cons_ite (s target : QueueRef) (rest : List QueueRef) :
    (target :: rest).count s = (if s = target then 1 else 0) + rest.count s := by
  by_cases he : s = target
  · rw [if_pos he, he, List.count_cons_self, Nat.add_comm]
  · rw [if_neg he, List.count_cons_of_ne fun h => he h.symm, Nat.zero_add]

/-- One copy arrives at each place of a queue in the list that is delivered to. -/
theorem posts_deliverAll (topic : String) (m : Message) {targets : List QueueRef} {b : Broker}
    (ht : ∀ target ∈ targets, b.HasQueue target) (s : QueueRef) :
    Posts b (deliverAll topic m targets b) s (targets.count s) 0 := by
  induction targets generalizing b with
  | nil => exact .refl b s
  | cons target rest ih =>
    obtain ⟨q, hq⟩ := (ht target List.mem_cons_self).queue?
    obtain ⟨copy, hc⟩ := deliver_changes hq topic m
    have hrest := ih (b := b.deliver topic m target)
      fun r hr => (hc.hasQueue r).mpr (ht r (List.mem_cons_of_mem _ hr))
    have hp := (hc.posts_enqueue s).trans hrest
    rw [count_cons_ite]
    exact hp

/-- A deposit arrives at the queue for the dead letters, if there is one. -/
theorem posts_deposit {b : Broker} (letter : DeadLetter) (hb : b.Closed) {q : Queue}
    (hq : b.queue? letter.source = some q) (s : QueueRef) :
    Posts b (b.deposit letter) s (if q.deadLetters = some s then 1 else 0) 0 := by
  cases hd : q.deadLetters with
  | none =>
    rw [deposit_eq_self hq hd, if_neg (Option.some_ne_none s).symm]
    exact .refl b s
  | some target =>
    obtain ⟨qt, hqt⟩ := (hb.deadLetters letter.source q.rules target
      (rules?_of_queue? hq) hd).queue?
    have hm : b.mint.issued ≤ b.mint.advance.issued := Nat.le_succ _
    have hc := enqueue_changes hqt hm (b.deadLetterCopy q.name letter.message).1
    rw [deposit_eq_enqueue hq hd]
    simpa only [Option.some.injEq, eq_comm] using hc.posts_enqueue s

/-- A message that is given up arrives at the queue for the dead letters, if there is one. -/
theorem posts_nack {b : Broker} (hb : b.Closed) (ref : QueueRef) (handle : Ident) (s : QueueRef) :
    ∃ dead, Posts b (b.orUnchanged (b.nack ref handle)) s dead dead := by
  rcases b.first_split ref (·.receipt = some handle) with
    h | ⟨q, before, m, after, hq, hs, hbefore, hm⟩
  · rw [nack_eq_error h]
    exact ⟨0, .refl b s⟩
  · rcases Nat.lt_or_ge m.retryCount q.maxRetries with hlt | hge
    · -- The message is released and stays.
      rw [nack_eq_release hq hs hbefore hm hlt]
      have hc := changes_setQueue hq { q with messages := before ++ m.released :: after } rfl
      refine ⟨0, hc.posts_nothing rfl rfl ?_ s⟩
      simp [Queue.size, hs]
    · -- The message leaves its queue, which counts it, and a copy of it may arrive elsewhere.
      rw [nack_eq_giveUp hq hs hbefore hm hge]
      have hc := changes_setQueue hq
        { q with messages := before ++ after, failed := q.failed + 1 } rfl
      have hbal : q.Balanced →
          ({ q with messages := before ++ after, failed := q.failed + 1 } : Queue).Balanced := by
        unfold Queue.Balanced Queue.size
        simp only [hs, List.length_append, List.length_cons]
        omega
      have hgone := hc.posts (s := s) (a := 0) (d := 1) rfl rfl hbal
      have hq' := hc.queue? ref
      rw [if_pos rfl] at hq'
      -- Its options are the same after it counted, so the copy goes where `q` sends it.
      have hput := posts_deposit ⟨ref, m⟩ (hc.closed hb) hq' s
      have hp := hgone.trans hput
      rw [ite_self, Nat.zero_add, Nat.add_zero] at hp
      exact ⟨_, hp⟩

/-- A valid operation brings a queue what it puts in directly, the copies of the subscriptions it
reaches, and the dead letters of the messages it gives up. -/
theorem posts_perform {b : Broker} (hb : b.Closed) {op : Operation} (hv : op.Valid b)
    (s : QueueRef) :
    ∃ dead,
      Posts b (b.perform op) s (op.enqueues.count s + (op.reached b).count s + dead) dead := by
  cases op with
  | createTopic | addTopic | createQueue | addQueue | subscribe | subscribeTo =>
    exact ⟨0, posts_of_registers b rfl s⟩
  | enqueue queue message =>
    obtain ⟨q, hq⟩ := (hv.1 queue (List.mem_singleton_self _)).queue?
    have hp := (enqueue_changes hq (Nat.le_refl _) message).posts_enqueue s
    refine ⟨0, ?_⟩
    show Posts b (b.enqueue queue message) s ([queue].count s + 0 + 0) 0
    rw [count_cons_ite]
    exact hp
  | publish topic message deadline clock =>
    refine ⟨0, ?_⟩
    have hnone : (Operation.publish topic message deadline clock).enqueues.count s = 0 :=
      List.count_nil
    rw [perform_publish, hnone, Nat.zero_add]
    exact posts_deliverAll _ message (fun target ht => hb.hasQueue_of_mem_reached ht) s
  | publishTo topic message deadline clock =>
    refine ⟨0, ?_⟩
    have hnone : (Operation.publishTo topic message deadline clock).enqueues.count s = 0 :=
      List.count_nil
    rw [perform_publishTo, hnone, Nat.zero_add]
    exact posts_deliverAll _ message (fun target ht => hb.hasQueue_of_mem_reached ht) s
  | receive queue reading => exact ⟨0, posts_receive b queue reading s⟩
  | acknowledge queue handle => exact ⟨0, posts_acknowledge b queue handle s⟩
  | nack queue handle =>
    obtain ⟨dead, hp⟩ := posts_nack hb queue handle s
    refine ⟨dead, ?_⟩
    show Posts b (b.orUnchanged (b.nack queue handle)) s (0 + 0 + dead) dead
    rw [Nat.zero_add]
    exact hp

/-- A run brings a queue what is put in directly, the copies of the subscriptions reached, and the
dead letters of the messages given up. -/
theorem posts_performAll {b : Broker} (hb : b.Closed) {ops : List Operation} (hv : b.Admits ops)
    (s : QueueRef) :
    ∃ dead, Posts b (b.performAll ops) s (directTo s ops + copiesTo s b ops + dead) dead := by
  induction ops generalizing b with
  | nil => exact ⟨0, .refl b s⟩
  | cons op rest ih =>
    obtain ⟨dead₁, hop⟩ := posts_perform hb hv.1 s
    obtain ⟨dead₂, hrest⟩ := ih (hb.perform hv.1) hv.2
    have hdirect : directTo s (op :: rest) = op.enqueues.count s + directTo s rest := by
      unfold directTo
      rw [List.flatMap_cons, List.count_append]
    have hsum : directTo s (op :: rest) + copiesTo s b (op :: rest) + (dead₁ + dead₂) =
        op.enqueues.count s + (op.reached b).count s + dead₁ +
          (directTo s rest + copiesTo s (b.perform op) rest + dead₂) := by
      rw [hdirect, copiesTo]
      omega
    refine ⟨dead₁ + dead₂, ?_⟩
    rw [hsum]
    exact hop.trans hrest

/-- After every run from a new broker, the counters of every queue account for all that it ever
received, and what it received are the messages put in directly, one copy for each time it occurs
among the subscriptions that a publication reached, and the messages given up by the queues whose
dead letters it takes. -/
theorem ledger_balances (defaults : QueueDefaults) (ops : List Operation)
    (hv : (create defaults).Admits ops) (ref : QueueRef) (q : Queue)
    (hq : ((create defaults).performAll ops).queue? ref = some q) :
    q.stats.received = q.stats.processed + q.stats.failed + q.stats.size ∧
      q.stats.size = q.messages.length ∧
      q.stats.received = directTo ref ops + copiesTo ref (create defaults) ops +
        ((create defaults).performAll ops).failedInto ref := by
  -- The postings of the whole run, on books that were empty before it.
  obtain ⟨dead, hp⟩ := posts_performAll (closed_create defaults) hv ref
  have hnew : (create defaults).Balanced := fun r x hx => by simp [queue?, create] at hx
  have hreceived : ((create defaults).performAll ops).receivedBy ref = q.received := by
    unfold receivedBy
    rw [hq]
    rfl
  refine ⟨hp.balanced hnew ref q hq, rfl, ?_⟩
  show q.received = _
  rw [← hreceived, hp.received, hp.failed]
  show 0 + _ = _ + (0 + dead)
  omega

/-- A run in which a queue takes a message directly, a copy from a publication that comes too late
for the last of three subscriptions, and a dead letter. -/
def lateRun : List Operation :=
  let order : Message := .create (.text "m") "order" [] .first
  [.createQueue "dead" {},
    .createQueue "work" { maxRetries := some 1, deadLetters := some ⟨0⟩ },
    .createTopic "orders",
    .subscribe "orders" "dead",
    .subscribe "orders" "work",
    .subscribeTo ⟨0⟩ ⟨0⟩,
    .publish "orders" order (some (.ofSeconds 2)) fun i => .ofSeconds i,
    .enqueue ⟨0⟩ order,
    .receive ⟨1⟩ .first,
    .nack ⟨1⟩ (.generated 4),
    .receive ⟨0⟩ .first,
    .acknowledge ⟨0⟩ (.generated 6),
    .nack ⟨0⟩ (.generated 6)]

/-- In that run the queue for the dead letters has received one message of each kind. -/
theorem ledger_balances_lateRun :
    ∃ q, ((create .standard).performAll lateRun).queue? ⟨0⟩ = some q ∧ q.stats = ⟨3, 1, 0, 2⟩ ∧
      q.stats.received = q.stats.processed + q.stats.failed + q.stats.size ∧
      directTo ⟨0⟩ lateRun = 1 ∧ copiesTo ⟨0⟩ (create .standard) lateRun = 1 ∧
      ((create .standard).performAll lateRun).failedInto ⟨0⟩ = 1 := by
  have hv : (create .standard).Admits lateRun := by decide
  have hstats : (((create .standard).performAll lateRun).queue? ⟨0⟩).map Queue.stats =
      some ⟨3, 1, 0, 2⟩ := by decide
  obtain ⟨q, hq, hs⟩ := Option.map_eq_some_iff.mp hstats
  have hbal := ledger_balances .standard lateRun hv ⟨0⟩ q hq
  exact ⟨q, hq, hs, hbal.1, by decide, by decide, by decide⟩

end Broker

end MessageBroker
