import Mathlib.Logic.Function.Basic
import MessageBroker.Demo.Machine
import MessageBroker.Proofs.Demo.Desk

/-!
# The two desks of the demo

The notifier and the auditor have a queue, a worker and a run each, and the registry of the broker
does not change while they work. `Staffed` says that a sound post stands at either desk. It is kept
by everything that happens in the demo: a step of a run, the end of its waiting, the delivery of an
order, a signal for a worker, and the passing of time each concern one desk at most.
-/

namespace MessageBroker.Demo

open Broker Fleet

/-- The two workers of the demo. -/
inductive Role where
  | notifier
  | auditor
deriving DecidableEq

/-- The references that the demo's pipeline consists of. -/
def Pipeline.standard : Pipeline := ⟨⟨0⟩, ⟨1⟩, ⟨2⟩, ⟨0⟩, ⟨1⟩⟩

namespace Role

/-- The queue that the worker consumes. -/
def queue : Role → QueueRef
  | .notifier => Pipeline.standard.notifications
  | .auditor => Pipeline.standard.audits

/-- The worker. -/
def worker : Role → WorkerRef
  | .notifier => Pipeline.standard.notifier
  | .auditor => Pipeline.standard.auditor

/-- The only run of the worker. -/
def run : Role → RunRef
  | .notifier => ⟨0⟩
  | .auditor => ⟨1⟩

/-- The name of the worker. -/
def name : Role → String
  | .notifier => Pipeline.notifierName
  | .auditor => Pipeline.auditorName

/-- The orders that the worker rejects once, if every k-th one is to be rejected. -/
def rejects (failEvery : Nat) : Role → Nat → Bool
  | .notifier => rejectsEvery failEvery
  | .auditor => fun _ => false

/-- The desk of the worker, when the workers poll so often and every k-th order is rejected. -/
def desk (poll : Span) (failEvery : Nat) (role : Role) : Desk :=
  ⟨role.queue, role.worker, role.run, role.name, poll, role.rejects failEvery⟩

/-- The two workers have no queue, no worker and no run in common. -/
theorem apart {role other : Role} (h : other ≠ role) :
    other.queue ≠ role.queue ∧ other.worker ≠ role.worker ∧ other.run ≠ role.run := by
  cases role <;> cases other <;> first | exact absurd rfl h | exact ⟨nofun, nofun, nofun⟩

/-- The queue of a worker is not the one for dead letters. -/
theorem deadLetters_ne (role : Role) : Pipeline.standard.deadLetters ≠ role.queue := by
  cases role <;> exact nofun

end Role

/-- The demo's topic and queues are registered and subscribed, and there are no dead letters. -/
structure Wired (b : Broker) : Prop where
  topics : b.topicNames.size = 1
  topic : ∃ ref, b.findTopic? orderCreated = some ref ∧
    b.topic? ref = some ⟨orderCreated, Pipeline.standard.queues⟩
  queues : b.queueNames.entries = [
    (Pipeline.auditsName, Pipeline.standard.audits),
    (Pipeline.deadLettersName, Pipeline.standard.deadLetters),
    (Pipeline.notificationsName, Pipeline.standard.notifications)]
  deadLetters : ∃ q, b.queue? Pipeline.standard.deadLetters = some q ∧ q.stats = ⟨0, 0, 0, 0⟩

/-- The subscribers of the demo's topic. -/
theorem Wired.subscribers {b : Broker} (h : Wired b) :
    b.subscribers orderCreated = Pipeline.standard.queues := by
  obtain ⟨ref, hfind, htopic⟩ := h.topic
  unfold Broker.subscribers
  rw [hfind, Option.bind_some, htopic]
  rfl

/-- The registry and the dead letters decide. -/
theorem Wired.of_sameObjects {b b' : Broker} (h : Wired b) (hsame : SameObjects b b')
    (hdead : b'.queue? Pipeline.standard.deadLetters = b.queue? Pipeline.standard.deadLetters) :
    Wired b' where
  topics := by rw [hsame.topicNames]; exact h.topics
  topic := by
    unfold findTopic? topic?
    rw [hsame.topics, hsame.topicNames]
    exact h.topic
  queues := by rw [hsame.queueNames]; exact h.queues
  deadLetters := by rw [hdead]; exact h.deadLetters

/-- A post whose worker has these signals. -/
def Post.signalled (p : Post) (stopped cancelled : Bool) : Post :=
  { p with worker := { p.worker with stopped := stopped, cancelled := cancelled } }

section Desks

variable {poll : Span} {failEvery : Nat}

/-- The posts at both desks are sound, and so many orders have arrived at each. -/
structure Staffed (poll : Span) (failEvery : Nat) (f : Fleet) (posts : Role → Post)
    (arrived : Role → Nat) : Prop where
  wired : Wired f.broker
  runs : f.runs.length = 2
  holds : ∀ role : Role, (role.desk poll failEvery).Holds f (posts role)
  sound : ∀ role : Role, (posts role).Sound (role.desk poll failEvery) (arrived role)

namespace Staffed

variable {f : Fleet} {posts : Role → Post} {arrived : Role → Nat}
  (h : Staffed poll failEvery f posts arrived)
include h

/-- The queue of a worker. -/
theorem queue (role : Role) : f.broker.queue? role.queue = some (posts role).queue :=
  (h.holds role).queue

/-- The worker. -/
theorem worker (role : Role) : f.worker? role.worker = some (posts role).worker :=
  (h.holds role).worker

/-- The run of a worker. -/
theorem run (role : Role) : f.run? role.run = some ⟨role.worker, (posts role).phase⟩ :=
  (h.holds role).run

/-- Something happens at one desk. -/
theorem update {f' : Fleet} {role : Role} {p : Post} {arrived' : Role → Nat}
    (hholds : (role.desk poll failEvery).Holds f' p)
    (halone : (role.desk poll failEvery).Alone f f')
    (hothers : ∀ other, other ≠ role → arrived' other = arrived other)
    (hsound : p.Sound (role.desk poll failEvery) (arrived' role)) :
    Staffed poll failEvery f' (Function.update posts role p) arrived' where
  wired := h.wired.of_sameObjects halone.objects (halone.queue? _ role.deadLetters_ne)
  runs := halone.runs.trans h.runs
  holds other := by
    by_cases heq : other = role
    · subst heq
      rw [Function.update_self]
      exact hholds
    · obtain ⟨hqueue, hworker, hrun⟩ := Role.apart heq
      rw [Function.update_of_ne heq]
      exact halone.holds hqueue hworker hrun (h.holds other)
  sound other := by
    by_cases heq : other = role
    · subst heq
      rw [Function.update_self]
      exact hsound
    · rw [Function.update_of_ne heq, hothers other heq]
      exact h.sound other

/-- The run of a desk takes a step. -/
theorem exists_step (role : Role) (hactive : (posts role).phase.isActive = true) :
    ∃ p, (posts role).Step (role.desk poll failEvery) f.clock.uptime p ∧
      Staffed poll failEvery (f.step role.run) (Function.update posts role p)
        arrived ∧
      (f.step role.run).clock = f.clock := by
  obtain ⟨p, hstep, hholds, halone⟩ := (h.holds role).exists_step (h.sound role) hactive
  exact ⟨p, hstep, h.update hholds halone (fun _ _ => rfl) (hstep.sound (h.sound role)),
    halone.clock⟩

/-- The run of a desk that waits for a message looks again. -/
theorem rouse (role : Role) {wake : Span} (hphase : (posts role).phase = .polling wake) :
    Staffed poll failEvery (f.rouse role.run)
      (Function.update posts role { posts role with phase := .checking }) arrived ∧
    (f.rouse role.run).clock = f.clock := by
  have hrouse : f.rouse role.run =
      (f.setWorker role.worker (posts role).worker).setPhase
        role.run .checking := by
    rw [setWorker_self (h.worker role), rouse_eq (h.run role), hphase]
    rfl
  obtain ⟨hholds, halone⟩ := (h.holds role).update ⟨rfl, rfl⟩ rfl (h.holds role).unchanged
    (posts role).worker .checking (posts role).tries
  rw [hrouse]
  refine ⟨h.update hholds halone (fun _ _ => rfl) ((h.sound role).awake ?_), halone.clock⟩
  rw [hphase]
  rfl

/-- So many orders have arrived, however that is written. -/
theorem of_arrived {arrived' : Role → Nat} (hsame : ∀ role, arrived' role = arrived role) :
    Staffed poll failEvery f posts arrived' :=
  ⟨h.wired, h.runs, h.holds, fun role => hsame role ▸ h.sound role⟩

/-- Time passes. -/
theorem elapse (span : Span) : Staffed poll failEvery (f.elapse span) posts arrived :=
  ⟨h.wired, h.runs, fun role => ⟨(h.holds role).queue, (h.holds role).worker, (h.holds role).run⟩,
    h.sound⟩

/-- Identifiers are generated. -/
theorem generate (mint : Mint) :
    Staffed poll failEvery { f with broker := { f.broker with mint } } posts arrived :=
  ⟨⟨h.wired.topics, h.wired.topic, h.wired.queues, h.wired.deadLetters⟩, h.runs,
    fun role => ⟨(h.holds role).queue, (h.holds role).worker, (h.holds role).run⟩, h.sound⟩

/-- A copy of the next order is delivered at a desk. -/
theorem deliver (role : Role) {m : Message} (horder : IsOrder m (arrived role + 1))
    (arrived' : Role → Nat) (hself : arrived' role = arrived role + 1)
    (hothers : ∀ other, other ≠ role → arrived' other = arrived other) :
    ∃ q, q.processed = (posts role).queue.processed ∧ Staffed poll failEvery
      { f with broker := f.broker.deliver orderCreated m role.queue }
      (Function.update posts role { posts role with queue := q }) arrived' := by
  have hchange := deliver_changes_markedCopy (h.queue role) orderCreated m
  have hcopy : IsOrder (markedCopy f.broker.mint orderCreated m) (arrived role + 1) :=
    horder.of_payload rfl
  have hsound := (h.sound role).enqueue hcopy rfl rfl
  refine ⟨(posts role).queue.enqueue (markedCopy f.broker.mint orderCreated m), rfl,
    h.update ?_ ?_ hothers (hself ▸ hsound)⟩
  · exact ⟨(hchange.queue? _).trans (if_pos rfl), h.worker role, h.run role⟩
  · exact ⟨fun ref hne => (hchange.queue? ref).trans (if_neg hne), fun _ _ => rfl, fun _ _ => rfl,
      rfl, hchange.sameObjects, rfl⟩

/-- A worker is given a signal. -/
theorem modifyWorker (role : Role) {change : Worker → Worker} (stopped cancelled : Bool)
    (hchange : change (posts role).worker = ((posts role).signalled stopped cancelled).worker) :
    Staffed poll failEvery (f.modifyWorker role.worker change)
      (Function.update posts role ((posts role).signalled stopped cancelled)) arrived := by
  have hsound := h.sound role
  have hworker := worker?_setWorker (h.worker role)
    ((posts role).signalled stopped cancelled).worker
  rw [modifyWorker_eq (h.worker role), hchange]
  refine h.update ?_ ?_ (fun _ _ => rfl) { hsound with position := hsound.position }
  · exact ⟨h.queue role, (hworker _).trans (if_pos rfl), h.run role⟩
  · exact ⟨fun _ _ => rfl, fun ref hne => (hworker ref).trans (if_neg hne), fun _ _ => rfl, rfl,
      .refl _, rfl⟩

end Staffed

end Desks

end MessageBroker.Demo
