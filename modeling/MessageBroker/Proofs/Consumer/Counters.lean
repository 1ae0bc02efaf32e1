import MessageBroker.Proofs.Broker.Ledger
import MessageBroker.Proofs.Broker.Processed
import MessageBroker.Proofs.Consumer.Tallies

/-!
# The counters of workers and of their queue

A queue counts every acknowledgement that it accepts, and a worker those that it makes after a call.
`acknowledgedByOthers` are the accepted acknowledgements of everybody else: of callers of the
broker, and of handlers that acknowledge the message they are called with. Each move adds as much to
the counter of the queue as it adds to those of its workers and to this number (`agrees_apply`), so
the books of queue and workers agree after every run (`counters_agree`). No lease need be alive for
that, and no worker need run: the argument looks at one acknowledgement at a time, by whom it is
made and whether it is accepted.
-/

namespace MessageBroker

open Broker

namespace Chronicle

/-- The number of messages of a queue that a step of some thread acknowledges. -/
def Move.acknowledges (b : Broker) (q : QueueRef) : Move → Nat
  | .call op => op.acknowledges b q
  | _ => 0

/-- A step of some thread adds to what a queue has processed the messages that it acknowledges. -/
theorem processedBy_apply (c : Chronicle) (v : Move) (q : QueueRef) :
    (c.apply v).broker.processedBy q = c.broker.processedBy q + v.acknowledges c.broker q := by
  cases v with
  | call op =>
    show (c.perform op).broker.processedBy q = _
    rw [c.broker_perform]
    exact c.broker.processedBy_perform op q
  | deliver | giveBack | land =>
    exact overlooks_apply (overlooks_processedBy q) c (by simp)

end Chronicle

namespace Fleet

/-- The number of messages that the workers of a queue have counted as processed. -/
def processedFor (f : Fleet) (q : QueueRef) : Nat :=
  ((f.workers.filter fun w => w.queue = q).map Worker.processed).sum

/-- The number of messages of a queue that the handler of a worker acknowledges by itself in the
next step of a run. -/
def handlerAcknowledges (f : Fleet) (w : Worker) (q : QueueRef) : Phase → Nat
  | .handling ⟨m, _, .acting (.settle .acknowledge :: _)⟩ =>
    (Operation.acknowledge w.queue m.handle).acknowledges f.broker q
  | _ => 0

variable {f : Fleet}

/-- A worker put in the place of another of the same queue changes the sum by the difference. -/
theorem processedFor_setWorker {ref : WorkerRef} {w w' : Worker} (hw : f.worker? ref = some w)
    (hqueue : w'.queue = w.queue) (q : QueueRef) :
    (f.setWorker ref w').processedFor q + (if w.queue = q then w.processed else 0) =
      f.processedFor q + if w.queue = q then w'.processed else 0 := by
  have hset := sum_filter_set (fun w : Worker => decide (w.queue = q)) Worker.processed hw w'
  simp only [hqueue, decide_eq_true_eq] at hset
  exact hset

/-- A change of a worker that concerns neither its queue nor its counter leaves the sum alone. -/
theorem processedFor_modifyWorker (f : Fleet) (ref : WorkerRef) (change : Worker → Worker)
    (hqueue : ∀ w, (change w).queue = w.queue) (hsame : ∀ w, (change w).processed = w.processed)
    (q : QueueRef) : (f.modifyWorker ref change).processedFor q = f.processedFor q := by
  cases hw : f.worker? ref with
  | none =>
    unfold worker? at hw
    unfold modifyWorker
    rw [List.modify_eq_self (List.getElem?_eq_none_iff.mp hw)]
  | some w =>
    have hset := processedFor_setWorker hw (hqueue w) q
    rw [modifyWorker_eq hw]
    rw [hsame] at hset
    omega

/-- A start leaves the sum alone. -/
theorem processedFor_launch (f : Fleet) (ref : WorkerRef) (q : QueueRef) :
    (f.launch ref).processedFor q = f.processedFor q := by
  unfold launch
  split
  · rfl
  · split
    · rfl
    · exact processedFor_modifyWorker { f with runs := f.runs ++ [⟨ref, .checking⟩] } ref
        (fun w => { w with running := true }) (fun _ => rfl) (fun _ => rfl) q

/-- A new worker has processed nothing. -/
theorem processedFor_addWorker (f : Fleet) (w : Worker) (hw : w.processed = 0) (q : QueueRef) :
    (f.addWorker w).2.processedFor q = f.processedFor q := by
  show (((f.workers ++ [w]).filter _).map _).sum = _
  rw [List.filter_append, List.map_append, List.sum_append]
  have hone : (([w].filter fun w => decide (w.queue = q)).map Worker.processed).sum = 0 := by
    rw [List.filter_singleton]
    cases decide (w.queue = q)
    · rfl
    · exact hw
  rw [hone]
  rfl

/-- What the call of a step acknowledges is counted by the worker, or was acknowledged by its
handler. -/
theorem Effect.acknowledges {g : Fleet} {w w' : Worker} {phase phase' : Phase}
    (h : f.Effect w phase w' phase' g) (q : QueueRef) :
    (if w.queue = q then w.processed else 0) +
        (f.call? w phase).elim 0 (·.acknowledges f.broker q) =
      (if w.queue = q then w'.processed else 0) + f.handlerAcknowledges w q phase := by
  cases h with
  | ends hsignal | waits hsignal hrec | leases hsignal hrec =>
    unfold call?
    rw [hsignal]
    rfl
  | @settlesEarly m began how todo => cases how <;> rfl
  | @settles m began failure elapsed =>
    cases failure with
    | some reason => rfl
    | none =>
      show (if w.queue = q then w.processed else 0) +
          (if w.queue = q then (f.broker.acknowledge w.queue m.handle).isOk.toNat else 0) =
        (if w.queue = q then (w.counted none elapsed
          (f.broker.acknowledge w.queue m.handle).isOk).processed else 0) + 0
      split
      · cases (f.broker.acknowledge w.queue m.handle).isOk <;> rfl
      · rfl
  | _ => rfl

end Fleet

namespace Shift

/-- The number of messages of a queue that a move acknowledges for somebody else than a worker: for
a caller of the broker, or for a handler that acknowledges the message it is called with. -/
def othersAcknowledge (s : Shift) (q : QueueRef) : Move → Nat
  | .broker u => u.acknowledges s.fleet.broker q
  | .step run =>
    (s.fleet.run? run).elim 0 fun r =>
      (s.fleet.worker? r.worker).elim 0 fun w => s.fleet.handlerAcknowledges w q r.phase
  | _ => 0

/-- The number of messages of a queue that a run acknowledges for others than the workers. -/
def acknowledgedByOthers (q : QueueRef) : Shift → List Move → Nat
  | _, [] => 0
  | s, v :: rest => s.othersAcknowledge q v + acknowledgedByOthers q (s.apply v) rest

/-- What a step of a run adds to the counter of a queue, and to those of its workers. -/
theorem Stepped.agrees {s s' : Shift} {run : RunRef} {worker : WorkerRef} {w w' : Worker}
    {phase phase' : Phase} {g : Fleet} (h : s.Stepped s' run worker w w' phase phase' g)
    (q : QueueRef) : s'.fleet.broker.processedBy q + s.fleet.processedFor q =
      s.fleet.broker.processedBy q + s.fleet.handlerAcknowledges w q phase +
        s'.fleet.processedFor q := by
  have hbroker : s'.fleet.broker.processedBy q = s.fleet.broker.processedBy q +
      (s.fleet.call? w phase).elim 0 (·.acknowledges s.fleet.broker q) := by
    show s'.chronicle.broker.processedBy q = s.chronicle.broker.processedBy q + _
    rcases h.calls with hc | ⟨m, began, reason, elapsed, rfl, hc⟩
    · rw [hc]
      cases s.fleet.call? w phase with
      | none => rfl
      | some op => exact s.chronicle.processedBy_apply (.call op) q
    · -- Neither a nack nor the first half of it acknowledges anything.
      rw [hc]
      exact s.chronicle.processedBy_apply (.giveBack w.queue m.handle) q
  have hworkers : s'.fleet.processedFor q = (s.fleet.setWorker worker w').processedFor q := by
    obtain ⟨b, hfleet⟩ := h.fleet
    unfold Fleet.processedFor
    rw [hfleet]
    show (((g.workers.set _ _).filter _).map _).sum = _
    rw [h.effect.others.1]
    rfl
  have hset := Fleet.processedFor_setWorker h.hworker h.effect.keeps.1 q
  have hown := h.effect.acknowledges q
  omega

/-- Half a step is one of a loop that is about to settle. -/
theorem halve_eq_self {s : Shift} {run : RunRef} {worker : WorkerRef} {phase : Phase}
    (hrun : s.fleet.run? run = some ⟨worker, phase⟩) (hsettles : phase.settles = false) :
    s.halve run = s := by
  unfold halve
  rw [hrun]
  split
  · rename_i he
    cases he
    cases hsettles
  · rfl

/-- A step adds to the counter of a queue what it adds to those of its workers, and what it
acknowledges for others. -/
theorem agrees_step (s : Shift) (run : RunRef) (q : QueueRef) :
    (s.step run).fleet.broker.processedBy q + s.fleet.processedFor q =
      s.fleet.broker.processedBy q + s.othersAcknowledge q (.step run) +
        (s.step run).fleet.processedFor q := by
  show _ = _ + (s.fleet.run? run).elim 0 _ + _
  cases hrun : s.fleet.run? run with
  | none =>
    have hnothing : s.step run = s := by
      unfold step
      rw [hrun]
    rw [hnothing]
    rfl
  | some r =>
    obtain ⟨worker, phase⟩ := r
    cases hworker : s.fleet.worker? worker with
    | none =>
      have hnothing : s.step run = s := by
        unfold step
        simp only [hrun, hworker]
      rw [hnothing]
      simp [hworker]
    | some w =>
      simp only [hworker, Option.elim_some]
      cases hactive : phase.isActive with
      | true =>
        obtain ⟨w', phase', g, h⟩ := stepped hrun hworker hactive
        exact h.agrees q
      | false =>
        -- A loop that waits is in no handler that acts.
        have hnothing : s.step run = s := by
          unfold step
          simp [hrun, hworker, hactive]
        have hnone : s.fleet.handlerAcknowledges w q phase = 0 := by
          unfold Fleet.handlerAcknowledges
          split
          · cases hactive
          · rfl
        rw [hnothing, hnone]
        rfl

/-- Half a step acknowledges nothing. -/
theorem agrees_halve (s : Shift) (run : RunRef) (q : QueueRef) :
    (s.halve run).fleet.broker.processedBy q + s.fleet.processedFor q =
      s.fleet.broker.processedBy q + (s.halve run).fleet.processedFor q := by
  rcases s.halve_cases run with hnothing | ⟨worker, w, w', phase, phase', g, h⟩
  · rw [hnothing]
  · cases hsettles : phase.settles with
    | false => rw [halve_eq_self h.hrun hsettles]
    | true =>
      have hnone : s.fleet.handlerAcknowledges w q phase = 0 := by
        unfold Fleet.handlerAcknowledges
        split
        · cases hsettles
        · rfl
      have hagrees := h.agrees q
      rw [hnone] at hagrees
      exact hagrees

/-- A move adds to the counter of a queue what it adds to those of its workers, and what it
acknowledges for others. -/
theorem agrees_apply (s : Shift) (v : Move) (q : QueueRef) :
    (s.apply v).fleet.broker.processedBy q + s.fleet.processedFor q =
      s.fleet.broker.processedBy q + s.othersAcknowledge q v +
        (s.apply v).fleet.processedFor q := by
  cases v with
  | broker u => exact congrArg (· + s.fleet.processedFor q) (s.chronicle.processedBy_apply u q)
  | step run => exact s.agrees_step run q
  | halve run => exact s.agrees_halve run q
  | addWorker name queue handler pollInterval =>
    exact congrArg (s.fleet.broker.processedBy q + ·)
      (s.fleet.processedFor_addWorker (.create name queue handler pollInterval) rfl q).symm
  | start worker =>
    show (s.fleet.launch worker).broker.processedBy q + _ =
      _ + (s.fleet.launch worker).processedFor q
    rw [(launch_frame s.fleet worker).1, s.fleet.processedFor_launch]
    rfl
  | stop worker =>
    exact congrArg (s.fleet.broker.processedBy q + ·) (s.fleet.processedFor_modifyWorker worker
      (fun w => { w with stopped := true }) (fun _ => rfl) (fun _ => rfl) q).symm
  | signal worker cancel =>
    exact congrArg (s.fleet.broker.processedBy q + ·) (s.fleet.processedFor_modifyWorker worker
      (fun w => { w with cancelled := cancel }) (fun _ => rfl) (fun _ => rfl) q).symm
  | ask store id =>
    rcases s.ask_cases store id with h | ⟨-, h⟩
    · rw [apply, h]
      rfl
    · rw [apply, h]
      rfl
  | reply i success =>
    rcases s.reply_cases i success with h | ⟨store, id, -, ⟨-, h⟩ | ⟨-, h⟩⟩
    · rw [apply, h]
      rfl
    · rw [apply, h]
      rfl
    · rw [apply, h]
      rfl
  | mark i =>
    rcases s.mark_cases i with h | ⟨store, id, -, h⟩
    · rw [apply, h]
      rfl
    · rw [apply, h]
      rfl
  | addStore | wake | elapse | setWall => rfl

/-- A run adds to the counter of a queue what it adds to those of its workers, and what it
acknowledges for others. -/
theorem agrees_run (s : Shift) (moves : List Move) (q : QueueRef) :
    (s.run moves).fleet.broker.processedBy q + s.fleet.processedFor q =
      s.fleet.broker.processedBy q + acknowledgedByOthers q s moves +
        (s.run moves).fleet.processedFor q := by
  induction moves generalizing s with
  | nil => rfl
  | cons v rest ih =>
    have hfirst := s.agrees_apply v q
    have hrest := ih (s.apply v)
    show ((s.apply v).run rest).fleet.broker.processedBy q + _ = _ +
      (s.othersAcknowledge q v + acknowledgedByOthers q (s.apply v) rest) +
        ((s.apply v).run rest).fleet.processedFor q
    omega

/-- After every run, whoever takes part in it, for every queue and every worker:

* the queue has processed what its workers count as processed, and what others acknowledged on it,
  handlers that do so by themselves included;
* outside a settlement by the worker, it counts as failed those calls of its handler that returned
  an error, which are those in the log of the handler, whatever came of giving the message back;
* the calls that returned without an error are those that it counts as processed and those after
  which its acknowledgement was refused;
* the other calls that were begun are in progress, one at most;
* and if the handler is not guarded, each call is one that the handler itself counts. -/
theorem counters_agree (defaults : QueueDefaults) (clock : Clock) (moves : List Move)
    (hv : (create defaults clock).Admits moves) :
    let s := (create defaults clock).run moves
    (∀ ref q, s.fleet.broker.queue? ref = some q → q.stats.processed =
      ((s.fleet.workers.filter fun w => w.queue = ref).map Worker.processed).sum +
        acknowledgedByOthers ref (create defaults clock) moves) ∧
    ∀ ref w, s.fleet.worker? ref = some w →
      (∀ phase ∈ s.fleet.loops ref, phase.settles = false) →
      w.failed = (s.deeds ref).countP Deed.isError ∧
      w.log.countP Event.isError = (s.deeds ref).countP Deed.isError ∧
      (s.deeds ref).countP Deed.isSuccess =
        w.processed + (s.deeds ref).countP (Deed.isAcknowledgement false) ∧
      (s.deeds ref).countP Deed.isCall = w.processed + w.failed +
        (s.deeds ref).countP (Deed.isAcknowledgement false) +
          (s.fleet.loops ref).countP Phase.inCall ∧
      (s.fleet.loops ref).countP Phase.inCall ≤ 1 ∧
      (w.handler.guard = none → w.calls = (s.deeds ref).countP Deed.isCall) := by
  intro s
  have hs : s.Reachable := (Reachable.create defaults clock).run hv
  refine ⟨fun ref q hq => ?_, fun ref w hw hsettles => ?_⟩
  · have hcount : s.fleet.broker.processedBy ref = q.processed := by
      unfold processedBy
      rw [hq]
      rfl
    -- Before the run all counters were zero.
    have hrun : s.fleet.broker.processedBy ref + 0 =
        0 + acknowledgedByOthers ref (create defaults clock) moves + s.fleet.processedFor ref :=
      (create defaults clock).agrees_run moves ref
    show q.processed = s.fleet.processedFor ref + _
    omega
  · obtain ⟨hprocessed, hfailed, herrors, hcalls⟩ := hs.booked hw
    obtain ⟨⟨hcalled, hsuccesses, hnacks⟩, hone⟩ := (hs.orderly hw).tally hsettles
    refine ⟨hfailed.trans hnacks.symm, herrors, ?_, ?_, hone, hcalls⟩
    · rw [hsuccesses, hprocessed]
    · omega

/-- A run with a caller who acknowledges a message, a worker whose handler acknowledges by itself,
and a worker whose handler fails once and is called again. -/
def mixedRun : List Move :=
  let order : Message := .create (.text "m") "order" [] .first
  [.broker (.call (.createQueue "work" {})),
    .broker (.call (.enqueue ⟨0⟩ order)),
    .broker (.call (.enqueue ⟨0⟩ order)),
    .broker (.call (.enqueue ⟨0⟩ order)),
    .broker (.call (.receive ⟨0⟩ .first)),
    .broker (.call (.acknowledge ⟨0⟩ (.generated 0))),
    .addWorker "eager" ⟨0⟩ ⟨fun _ _ => [.settle .acknowledge], none⟩ Worker.standardPollInterval,
    .addWorker "weary" ⟨0⟩ ⟨fun calls _ => if calls = 0 then [.fail "tired"] else [], none⟩
      Worker.standardPollInterval,
    .start ⟨0⟩, .step ⟨0⟩, .step ⟨0⟩, .step ⟨0⟩, .step ⟨0⟩, .step ⟨0⟩,
    .start ⟨1⟩, .step ⟨1⟩, .step ⟨1⟩, .step ⟨1⟩, .step ⟨1⟩,
    .step ⟨1⟩, .step ⟨1⟩, .step ⟨1⟩, .step ⟨1⟩,
    .broker (.call (.enqueue ⟨0⟩ order)), .step ⟨1⟩, .step ⟨1⟩]

/-- In that run the queue has processed one message for the second worker and two for others. The
first worker had its acknowledgement refused, and the second is in its third call. -/
theorem counters_agree_mixedRun :
    let s := (create .standard ⟨.first, .zero⟩).run mixedRun
    ∃ q eager weary, s.fleet.broker.queue? ⟨0⟩ = some q ∧
      s.fleet.worker? ⟨0⟩ = some eager ∧ s.fleet.worker? ⟨1⟩ = some weary ∧
      eager.processed = 0 ∧ weary.processed = 1 ∧ q.stats.processed = 1 + 2 ∧
      (s.deeds ⟨0⟩).countP Deed.isCall = eager.processed + eager.failed + 1 + 0 ∧
      (s.deeds ⟨1⟩).countP Deed.isCall = weary.processed + weary.failed + 0 + 1 := by
  obtain ⟨hqueues, hworkers⟩ := counters_agree .standard ⟨.first, .zero⟩ mixedRun (by decide)
  obtain ⟨-, -, -, heager, -⟩ := hworkers ⟨0⟩ _ rfl (by decide)
  obtain ⟨-, -, -, hweary, -⟩ := hworkers ⟨1⟩ _ rfl (by decide)
  exact ⟨_, _, _, rfl, rfl, rfl, rfl, rfl, hqueues ⟨0⟩ _ rfl, heager, hweary⟩

end Shift

end MessageBroker
