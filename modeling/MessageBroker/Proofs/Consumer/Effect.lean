import Mathlib.Data.List.Basic
import MessageBroker.Proofs.Broker.Operation
import MessageBroker.Proofs.Consumer.Steps

/-!
# What a step of a run does

`Fleet.Effect` lists what the next step of a run can do, by the phase of the run: to its worker, to
its phase, and to the broker, the clocks and the stores. `Fleet.exists_effect` says that a step does
one of these and nothing else. All later results about steps go by the cases of this relation, and
none of them opens `Fleet.step` again.

A step makes one call on the broker at most. `Fleet.call?` names it, and `Effect.broker` says that
the broker sees nothing but this call.
-/

namespace MessageBroker

namespace Settlement

/-- The settlement that follows a call: a success is acknowledged, a failure is given back. -/
def after : Option String → Settlement
  | none => .acknowledge
  | some _ => .nack

/-- The settlement as a call on the broker. -/
def operation (queue : QueueRef) (handle : Ident) : Settlement → Operation
  | .acknowledge => .acknowledge queue handle
  | .nack => .nack queue handle

end Settlement

namespace Broker

/-- The broker accepts the settlement. -/
def accepts (b : Broker) (queue : QueueRef) (handle : Ident) (how : Settlement) : Bool :=
  (b.settle queue handle how).isOk

/-- A settlement that is refused changes nothing. -/
theorem perform_settlement (b : Broker) (queue : QueueRef) (handle : Ident) (how : Settlement) :
    b.perform (how.operation queue handle) = b.orUnchanged (b.settle queue handle how) := by
  cases how <;> rfl

end Broker

namespace Worker

/-- The worker after the settlement that follows a call. -/
def counted (w : Worker) (failure : Option String) (elapsed : Span) (accepted : Bool) : Worker :=
  match failure, accepted with
  | some _, _ => { w with failed := w.failed + 1 }
  | none, true => { w with processed := w.processed + 1, processTime := w.processTime + elapsed }
  | none, false => w

end Worker

/-- How a run ends whose worker is cancelled, or else stopped. -/
def Outcome.ofSignal (cancelled : Bool) : Outcome := if cancelled then .cancelled else .finished

namespace Fleet

open Broker

/-- Puts a worker in the place of another. -/
def setWorker (f : Fleet) (ref : WorkerRef) (w : Worker) : Fleet :=
  { f with workers := f.workers.set ref.index w }

/-- A change to a worker puts the changed one in its place. -/
theorem modifyWorker_eq {f : Fleet} {ref : WorkerRef} {w : Worker} (h : f.worker? ref = some w)
    (change : Worker → Worker) : f.modifyWorker ref change = f.setWorker ref (change w) := by
  unfold worker? at h
  unfold modifyWorker setWorker
  rw [List.modify_eq_set_getElem?, h]
  rfl

/-- Of two workers put in one place the later one stays. -/
theorem setWorker_setWorker (f : Fleet) (ref : WorkerRef) (w w' : Worker) :
    (f.setWorker ref w).setWorker ref w' = f.setWorker ref w' := by
  unfold setWorker
  rw [List.set_set]

/-- A worker in its own place is no change. -/
theorem setWorker_self {f : Fleet} {ref : WorkerRef} {w : Worker} (h : f.worker? ref = some w) :
    f.setWorker ref w = f := by
  unfold worker? at h
  obtain ⟨hlt, rfl⟩ := List.getElem?_eq_some_iff.mp h
  unfold setWorker
  rw [List.set_getElem_self]

/-- The workers after one was put in the place of another. -/
theorem worker?_setWorker {f : Fleet} {ref : WorkerRef} {w : Worker} (h : f.worker? ref = some w)
    (w' : Worker) (other : WorkerRef) :
    (f.setWorker ref w').worker? other = if other = ref then some w' else f.worker? other := by
  unfold worker? at h ⊢
  unfold setWorker
  by_cases hother : other = ref
  · rw [if_pos hother, hother]
    exact List.getElem?_set_self (List.getElem?_eq_some_iff.mp h).1
  · rw [if_neg hother]
    exact List.getElem?_set_ne fun hi => hother (congrArg WorkerRef.mk hi.symm)

/-- A settlement changes the broker, if it is accepted. -/
theorem settle_fst (f : Fleet) (queue : QueueRef) (m : Message) (how : Settlement) :
    (f.settle queue m how).1 =
      { f with broker := f.broker.orUnchanged (f.broker.settle queue m.handle how) } := by
  unfold settle
  cases f.broker.settle queue m.handle how <;> rfl

/-! ## The kinds of steps -/

section Kinds

variable (f : Fleet) (w : Worker)

/-- What the next step of a run of the worker does, by its phase: the worker and the phase
afterwards, and the broker, the clocks and the stores as those of a fleet. -/
inductive Effect : Phase → Worker → Phase → Fleet → Prop where
  | ends (hsignal : (w.cancelled || w.stopped) = true) :
    Effect .checking { w with running := false } (.ended (.ofSignal w.cancelled)) f
  | waits {b : Broker} (hsignal : (w.cancelled || w.stopped) = false)
      (hrec : f.broker.receive w.queue f.clock.wall = (none, b)) :
    Effect .checking w (.polling (f.clock.uptime + w.pollInterval)) { f with broker := b }
  | leases {b : Broker} {m : Message} (hsignal : (w.cancelled || w.stopped) = false)
      (hrec : f.broker.receive w.queue f.clock.wall = (some m, b)) :
    Effect .checking w (.handling ⟨m, f.clock.uptime, .guarding⟩) { f with broker := b }
  | skips {m : Message} {began : Span}
      (hguard : w.handler.guard.any (f.isProcessed · m.id) = true) :
    Effect (.handling ⟨m, began, .guarding⟩) w
      (.handling ⟨m, began, .settling none (f.clock.uptime.since began)⟩) f
  | calls {m : Message} {began : Span}
      (hguard : w.handler.guard.any (f.isProcessed · m.id) = false) :
    Effect (.handling ⟨m, began, .guarding⟩)
      ({ w with calls := w.calls + 1 }.logged [.began f.clock.uptime m])
      (.handling ⟨m, began, .acting (w.handler.plan w.calls m)⟩) f
  | pauses {m : Message} {began length : Span} {todo : List Action} :
    Effect (.handling ⟨m, began, .acting (.pause length :: todo)⟩) w
      (.handling ⟨m, began, .paused (f.clock.uptime + length) todo⟩) f
  | elapses {m : Message} {began length : Span} {todo : List Action} :
    Effect (.handling ⟨m, began, .acting (.elapse length :: todo)⟩) w
      (.handling ⟨m, began, .acting todo⟩) (f.elapse length)
  | stops {m : Message} {began : Span} {todo : List Action} :
    Effect (.handling ⟨m, began, .acting (.stop :: todo)⟩) { w with stopped := true }
      (.handling ⟨m, began, .acting todo⟩) f
  | signals {m : Message} {began : Span} {cancel : Bool} {todo : List Action} :
    Effect (.handling ⟨m, began, .acting (.signal cancel :: todo)⟩) { w with cancelled := cancel }
      (.handling ⟨m, began, .acting todo⟩) f
  | settlesEarly {m : Message} {began : Span} {how : Settlement} {todo : List Action} :
    Effect (.handling ⟨m, began, .acting (.settle how :: todo)⟩)
      (w.logged [(f.settle w.queue m how).2]) (.handling ⟨m, began, .acting todo⟩)
      { f with broker := f.broker.orUnchanged (f.broker.settle w.queue m.handle how) }
  | publishes {m : Message} {began : Span} {topic : String} {todo : List Action} :
    Effect (.handling ⟨m, began, .acting (.publish topic :: todo)⟩)
      (w.logged [(f.publish topic m).2]) (.handling ⟨m, began, .acting todo⟩)
      { f with broker := (f.broker.publish topic m none fun _ => f.clock.uptime).2 }
  | fails {m : Message} {began : Span} {reason : String} {todo : List Action} :
    Effect (.handling ⟨m, began, .acting (.fail reason :: todo)⟩)
      (w.logged [.ended f.clock.uptime (some reason)])
      (.handling ⟨m, began, .settling (some reason) (f.clock.uptime.since began)⟩) f
  | succeeds {m : Message} {began : Span} (hguard : w.handler.guard = none) :
    Effect (.handling ⟨m, began, .acting []⟩) (w.logged [.ended f.clock.uptime none])
      (.handling ⟨m, began, .settling none (f.clock.uptime.since began)⟩) f
  | succeedsGuarded {m : Message} {began : Span} {store : StoreRef}
      (hguard : w.handler.guard = some store) :
    Effect (.handling ⟨m, began, .acting []⟩) (w.logged [.ended f.clock.uptime none])
      (.handling ⟨m, began, .marking⟩) f
  | marks {m : Message} {began : Span} {store : StoreRef} (hguard : w.handler.guard = some store) :
    Effect (.handling ⟨m, began, .marking⟩) w
      (.handling ⟨m, began, .settling none (f.clock.uptime.since began)⟩)
      (f.markProcessed store m.id)
  /-- Without a guard there is nothing to mark. -/
  | marksNothing {m : Message} {began : Span} (hguard : w.handler.guard = none) :
    Effect (.handling ⟨m, began, .marking⟩) w
      (.handling ⟨m, began, .settling none (f.clock.uptime.since began)⟩) f
  | settles {m : Message} {began : Span} {failure : Option String} {elapsed : Span} :
    Effect (.handling ⟨m, began, .settling failure elapsed⟩)
      (w.counted failure elapsed (f.broker.accepts w.queue m.handle (.after failure))) .checking
      { f with broker := f.broker.orUnchanged (f.broker.settle w.queue m.handle (.after failure)) }

end Kinds

variable {f : Fleet} {worker : WorkerRef} {w : Worker}

/-- What an action does that neither waits nor ends the call. -/
theorem effect_of_perform (hworker : f.worker? worker = some w) (m : Message)
    (began : Span) {action : Action} (todo : List Action)
    (hpause : ∀ length, action ≠ .pause length) (hfail : ∀ reason, action ≠ .fail reason) :
    ∃ w' g, f.Effect w (.handling ⟨m, began, .acting (action :: todo)⟩) w'
        (.handling ⟨m, began, .acting todo⟩) g ∧
      f.perform worker w.queue m action = g.setWorker worker w' := by
  cases action with
  | pause length => exact absurd rfl (hpause length)
  | fail reason => exact absurd rfl (hfail reason)
  | elapse length =>
    have hother : (f.elapse length).worker? worker = some w := hworker
    exact ⟨_, _, .elapses, (setWorker_self hother).symm⟩
  | stop => exact ⟨_, _, .stops, modifyWorker_eq hworker _⟩
  | signal cancel => exact ⟨_, _, .signals, modifyWorker_eq hworker _⟩
  | settle how =>
    refine ⟨_, _, .settlesEarly, ?_⟩
    have hother : (f.settle w.queue m how).1.worker? worker = some w := by
      rw [settle_fst]
      exact hworker
    exact (modifyWorker_eq hother _).trans (by rw [settle_fst]; rfl)
  | publish topic =>
    have hother : (f.publish topic m).1.worker? worker = some w := hworker
    exact ⟨_, _, .publishes, modifyWorker_eq hother _⟩

/-- What a check does. -/
theorem effect_of_check (hworker : f.worker? worker = some w) (run : RunRef) :
    ∃ w' phase' g, f.Effect w .checking w' phase' g ∧
      f.checkAndLease run worker w = (g.setWorker worker w').setPhase run phase' := by
  unfold checkAndLease
  cases hcancel : w.cancelled with
  | true =>
    have hsignal : (w.cancelled || w.stopped) = true := by rw [hcancel, Bool.true_or]
    have houtcome : Outcome.ofSignal w.cancelled = .cancelled := by rw [hcancel]; rfl
    refine ⟨_, _, _, .ends hsignal, ?_⟩
    rw [if_pos rfl, houtcome, endRun, modifyWorker_eq hworker]
  | false =>
    rw [if_neg Bool.false_ne_true]
    cases hstop : w.stopped with
    | true =>
      have hsignal : (w.cancelled || w.stopped) = true := by rw [hstop, Bool.or_true]
      have houtcome : Outcome.ofSignal w.cancelled = .finished := by rw [hcancel]; rfl
      refine ⟨_, _, _, .ends hsignal, ?_⟩
      rw [if_pos rfl, houtcome, endRun, modifyWorker_eq hworker]
    | false =>
      have hsignal : (w.cancelled || w.stopped) = false := by rw [hcancel, hstop, Bool.or_false]
      rw [if_neg Bool.false_ne_true]
      cases hrec : f.broker.receive w.queue f.clock.wall with
      | mk result b =>
        have hother : ({ f with broker := b } : Fleet).worker? worker = some w := hworker
        cases result with
        | none => exact ⟨_, _, _, .waits hsignal hrec, by rw [setWorker_self hother]⟩
        | some m => exact ⟨_, _, _, .leases hsignal hrec, by rw [setWorker_self hother]⟩

/-- What the settlement after a call does. -/
theorem settleCall_eq (hworker : f.worker? worker = some w) (m : Message)
    (failure : Option String) (elapsed : Span) :
    f.settleCall worker w m failure elapsed =
      ({ f with
        broker := f.broker.orUnchanged (f.broker.settle w.queue m.handle (.after failure)) } :
          Fleet).setWorker worker
        (w.counted failure elapsed (f.broker.accepts w.queue m.handle (.after failure))) := by
  unfold settleCall
  cases failure with
  | some reason =>
    rw [modifyWorker_eq hworker]
    dsimp only [setWorker]
    unfold Settlement.after accepts Broker.settle Worker.counted
    cases f.broker.nack w.queue m.handle <;> rfl
  | none =>
    unfold Settlement.after accepts Broker.settle Worker.counted
    cases f.broker.acknowledge w.queue m.handle with
    | ok b =>
      have hother : ({ f with broker := b } : Fleet).worker? worker = some w := hworker
      exact modifyWorker_eq hother _
    | error refusal => exact (setWorker_self hworker).symm

/-- What a step of a call does. -/
theorem effect_of_call (hworker : f.worker? worker = some w) (run : RunRef) {call : Call}
    (hactive : (Phase.handling call).isActive = true) :
    ∃ w' phase' g, f.Effect w (.handling call) w' phase' g ∧
      f.stepCall run worker w call = (g.setWorker worker w').setPhase run phase' := by
  obtain ⟨m, began, stage⟩ := call
  unfold stepCall
  cases stage with
  | guarding =>
    dsimp only
    split
    · rename_i hguard
      exact ⟨_, _, _, .skips hguard, by rw [setWorker_self hworker]⟩
    · rename_i hguard
      refine ⟨_, _, _, .calls (Bool.eq_false_iff.mpr hguard), ?_⟩
      unfold record
      rw [modifyWorker_eq hworker,
        modifyWorker_eq ((worker?_setWorker hworker _ worker).trans (if_pos rfl)),
        setWorker_setWorker]
      rfl
  | paused wake todo => cases hactive
  | marking =>
    dsimp only
    split
    · rename_i store hguard
      have hother : (f.markProcessed store m.id).worker? worker = some w := hworker
      exact ⟨_, _, _, .marks hguard, by rw [setWorker_self hother]⟩
    · rename_i hguard
      exact ⟨_, _, _, .marksNothing hguard, by rw [setWorker_self hworker]⟩
  | settling failure elapsed =>
    refine ⟨_, _, _, .settles, ?_⟩
    dsimp only
    rw [settleCall_eq hworker]
  | acting todo =>
    cases todo with
    | nil =>
      dsimp only
      unfold record
      rw [modifyWorker_eq hworker]
      cases hguard : w.handler.guard with
      | none => exact ⟨_, _, _, .succeeds hguard, rfl⟩
      | some store => exact ⟨_, _, _, .succeedsGuarded hguard, rfl⟩
    | cons action todo =>
      by_cases hpause : ∃ length, action = .pause length
      · obtain ⟨length, rfl⟩ := hpause
        exact ⟨_, _, _, .pauses, by rw [setWorker_self hworker]⟩
      · by_cases hfail : ∃ reason, action = .fail reason
        · obtain ⟨reason, rfl⟩ := hfail
          refine ⟨_, _, _, .fails, ?_⟩
          dsimp only
          unfold record
          rw [modifyWorker_eq hworker]
          rfl
        · obtain ⟨w', g, heffect, hperform⟩ := effect_of_perform hworker m began todo
            (fun length h => hpause ⟨length, h⟩) fun reason h => hfail ⟨reason, h⟩
          refine ⟨_, _, _, heffect, ?_⟩
          rw [← hperform]
          cases action with
          | pause length => exact absurd ⟨length, rfl⟩ hpause
          | fail reason => exact absurd ⟨reason, rfl⟩ hfail
          | _ => rfl

/-- A step of a run that can go on does one of the things listed, and nothing else. -/
theorem exists_effect {run : RunRef} {phase : Phase} (hrun : f.run? run = some ⟨worker, phase⟩)
    (hworker : f.worker? worker = some w) (hactive : phase.isActive = true) :
    ∃ w' phase' g, f.Effect w phase w' phase' g ∧
      f.step run = (g.setWorker worker w').setPhase run phase' := by
  unfold step
  rw [hrun]
  dsimp only
  rw [hworker]
  cases phase with
  | checking => exact effect_of_check hworker run
  | handling call => exact effect_of_call hworker run hactive
  | polling wake | ended outcome => cases hactive

/-! ## The call on the broker -/

/-- The call that the next step of a run makes on the broker. -/
def call? (f : Fleet) (w : Worker) : Phase → Option Operation
  | .checking =>
    if w.cancelled || w.stopped then none else some (.receive w.queue f.clock.wall)
  | .handling ⟨m, _, .acting (.settle how :: _)⟩ => some (how.operation w.queue m.handle)
  | .handling ⟨m, _, .acting (.publish topic :: _)⟩ =>
    some (.publish topic m none fun _ => f.clock.uptime)
  | .handling ⟨m, _, .settling failure _⟩ =>
    some ((Settlement.after failure).operation w.queue m.handle)
  | _ => none

namespace Effect

variable {phase phase' : Phase} {w' : Worker} {g : Fleet} (h : f.Effect w phase w' phase' g)
include h

/-- The broker sees the call of the step, and nothing else. -/
theorem broker : g.broker = (f.call? w phase).elim f.broker f.broker.perform := by
  cases h with
  | ends hsignal =>
    unfold call?
    rw [if_pos hsignal]
    rfl
  | waits hsignal hrec | leases hsignal hrec =>
    unfold call?
    rw [if_neg (Bool.eq_false_iff.mp hsignal), Option.elim_some, Broker.perform, hrec]
  | settlesEarly | settles => exact (f.broker.perform_settlement _ _ _).symm
  | _ => rfl

/-- The monotonic clock does not run backwards. -/
theorem uptime_le : f.clock.uptime ≤ g.clock.uptime := by
  cases h with
  | elapses => exact Nat.le_add_right _ _
  | _ => exact Nat.le_refl _

/-- The worker keeps its queue and its handler. -/
theorem keeps : w'.queue = w.queue ∧ w'.handler = w.handler := by
  cases h with
  | settles =>
    unfold Worker.counted
    split <;> exact ⟨rfl, rfl⟩
  | _ => exact ⟨rfl, rfl⟩

/-- The other workers and the runs stay as they are. -/
theorem others : g.workers = f.workers ∧ g.runs = f.runs := by
  cases h <;> exact ⟨rfl, rfl⟩

end Effect

end Fleet

end MessageBroker
