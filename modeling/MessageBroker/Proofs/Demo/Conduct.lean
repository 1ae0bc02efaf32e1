import MessageBroker.Proofs.Demo.Staff

/-!
# What holds throughout the demo

`State.Sound` says how the progress of the main task and the posts at the two desks fit together: the
orders published so far have arrived at both desks, but for the one that is being delivered; the
workers are on duty until the main task stops them, and it stops them only once they have dealt with
all orders. Every turn of the main task, of a run and of the clocks keeps this
(`State.Sound.exists_take`), and so it holds after any list of turns (`State.Sound.exists_takeAll`).

Turns for an order that nothing comes between publish it as `Broker.publish` does
(`State.Sound.takeAll_publishing`).
-/

namespace MessageBroker.Demo

open Broker Fleet

/-! ## Posts -/

namespace Post

/-- The worker was given no signal, and its run goes on. -/
structure OnDuty (p : Post) : Prop where
  cancelled : p.worker.cancelled = false
  stopped : p.worker.stopped = false
  pending : p.phase.isEnded = false

/-- A post at a later moment, while the worker is given no signal. -/
structure Follows (p p' : Post) : Prop where
  processed_le : p.queue.processed ≤ p'.queue.processed
  onDuty : p.OnDuty → p'.OnDuty
  cancelled : p'.worker.cancelled = p.worker.cancelled

/-- A post that stays as it is. -/
theorem Follows.refl (p : Post) : p.Follows p := ⟨Nat.le_refl _, id, rfl⟩

/-- A run ends only for a signal. -/
theorem Step.follows {d : Desk} {now : Span} {p p' : Post} (h : p.Step d now p') :
    p.Follows p' := by
  cases h with
  | ends hsignal =>
    refine ⟨Nat.le_refl _, fun hduty => ?_, rfl⟩
    rw [hduty.cancelled, hduty.stopped] at hsignal
    cases hsignal
  | waits | leases | givesBack =>
    exact ⟨Nat.le_refl _, fun hduty => ⟨hduty.cancelled, hduty.stopped, rfl⟩, rfl⟩
  | proceeds _ hworker =>
    subst hworker
    exact ⟨Nat.le_refl _, fun hduty => ⟨hduty.cancelled, hduty.stopped, rfl⟩, rfl⟩
  | acknowledges =>
    exact ⟨Nat.le_succ _, fun hduty => ⟨hduty.cancelled, hduty.stopped, rfl⟩, rfl⟩

/-- A post of which nothing has changed but what arrived and the signals for the worker. -/
structure Like (p p' : Post) : Prop where
  processed : p'.queue.processed = p.queue.processed
  phase : p'.phase = p.phase
  tries : p'.tries = p.tries

/-- A post is like itself. -/
theorem Like.refl (p : Post) : p.Like p := ⟨rfl, rfl, rfl⟩

/-- A post whose worker is given signals. -/
theorem like_signalled (p : Post) (stopped cancelled : Bool) :
    p.Like (p.signalled stopped cancelled) :=
  ⟨rfl, rfl, rfl⟩

/-- A change at one desk: what holds between the posts there, and of no change, holds everywhere. -/
theorem rel_update {R : Post → Post → Prop} (hrefl : ∀ p, R p p) {posts : Role → Post} {role : Role}
    {p : Post} (hp : R (posts role) p) (other : Role) :
    R (posts other) (Function.update posts role p other) := by
  by_cases heq : other = role
  · subst heq
    rw [Function.update_self]
    exact hp
  · rw [Function.update_of_ne heq]
    exact hrefl _

/-- The end of a waiting is no signal. -/
theorem follows_checking (p : Post) : p.Follows { p with phase := .checking } :=
  ⟨Nat.le_refl _, fun hduty => ⟨hduty.cancelled, hduty.stopped, rfl⟩, rfl⟩

end Post

/-! ## Progress -/

/-- Of how many orders a copy has arrived in a queue. -/
def Progress.arrived (orders : Nat) (queue : QueueRef) : Progress → Nat
  | .publishing next => next - 1
  | .delivering number _ targets _ => if queue ∈ targets then number - 1 else number
  | _ => orders

/-- The line that says what a worker has done in the end. -/
def Role.report (failEvery orders : Nat) (role : Role) : LogLine :=
  .info "worker finished" [
    ("worker", role.name),
    ("processed", LogLine.countText orders),
    ("failed", LogLine.countText (rejections (role.rejects failEvery) orders))]

/-- What the posts and the log are like when the main task has come so far. -/
def Agrees (failEvery orders : Nat) (posts : Role → Post) (log : List LogLine) : Progress → Prop
  | .publishing next => (1 ≤ next ∧ next ≤ orders + 1) ∧ ∀ role, (posts role).OnDuty
  | .delivering number m targets _ =>
    ((1 ≤ number ∧ number ≤ orders) ∧ IsOrder m number ∧ targets <:+ Pipeline.standard.queues) ∧
      ∀ role, (posts role).OnDuty
  | .draining unchecked =>
    (unchecked <:+ Pipeline.standard.queues ∧
      ∀ role : Role, role.queue ∉ unchecked → (posts role).queue.processed = orders) ∧
      ∀ role, (posts role).OnDuty
  | .stopping workers =>
    workers <:+ Pipeline.standard.workers ∧ ∀ role, (posts role).queue.processed = orders
  | .joining =>
    (∀ role, (posts role).queue.processed = orders) ∧ ∀ role, (posts role).worker.cancelled = true
  | .done =>
    (∀ role, (posts role).queue.processed = orders) ∧ (∀ role, (posts role).phase.isEnded = true) ∧
      ∃ earlier, log =
        Role.auditor.report failEvery orders :: Role.notifier.report failEvery orders :: earlier

namespace Agrees

variable {failEvery orders : Nat} {posts : Role → Post} {log : List LogLine} {progress : Progress}
  (h : Agrees failEvery orders posts log progress)
include h

/-- No more orders arrive than there are. -/
theorem arrived_le (queue : QueueRef) : progress.arrived orders queue ≤ orders := by
  cases progress with
  | publishing next =>
    obtain ⟨⟨-, hle⟩, -⟩ := h
    exact Nat.sub_le_of_le_add hle
  | delivering number =>
    obtain ⟨⟨⟨-, hle⟩, -⟩, -⟩ := h
    dsimp only [Progress.arrived]
    split
    · exact Nat.le_trans (Nat.sub_le _ _) hle
    · exact hle
  | draining | stopping | joining | done => exact Nat.le_refl _

/-- Until it is over, the runs may go on, and anything may be logged. -/
theorem follows (hne : progress ≠ .done) {posts' : Role → Post}
    (hposts : ∀ role, (posts role).Follows (posts' role))
    (hle : ∀ role, (posts' role).queue.processed ≤ orders) (log' : List LogLine) :
    Agrees failEvery orders posts' log' progress := by
  have hduty : (∀ role, (posts role).OnDuty) → ∀ role, (posts' role).OnDuty :=
    fun hall role => (hposts role).onDuty (hall role)
  -- A worker deals with no order twice, so once it has dealt with all it stays at that.
  have hdealt : ∀ role, (posts role).queue.processed = orders →
      (posts' role).queue.processed = orders := fun role heq =>
    Nat.le_antisymm (hle role) (heq ▸ (hposts role).processed_le)
  cases progress with
  | publishing next => exact ⟨h.1, hduty h.2⟩
  | delivering number => exact ⟨h.1, hduty h.2⟩
  | draining unchecked =>
    exact ⟨⟨h.1.1, fun role hrole => hdealt role (h.1.2 role hrole)⟩, hduty h.2⟩
  | stopping workers => exact ⟨h.1, fun role => hdealt role (h.2 role)⟩
  | joining =>
    exact ⟨fun role => hdealt role (h.1 role), fun role => (hposts role).cancelled.trans (h.2 role)⟩
  | done => exact absurd rfl hne

end Agrees

namespace State

/-- The progress of the main task, the posts at the desks and the log fit together. -/
structure Sound (poll : Span) (failEvery : Nat) (s : State) (posts : Role → Post) : Prop where
  pipeline : s.pipeline = Pipeline.standard
  orders_le : s.orders ≤ greatestNumber
  staffed : Staffed poll failEvery s.fleet posts
    fun role => s.progress.arrived s.orders role.queue
  agrees : Agrees failEvery s.orders posts s.log s.progress

variable {poll : Span} {failEvery : Nat} {s : State} {posts : Role → Post}

/-! ## Turns of a run -/

/-- A turn of a run touches neither the main task nor what there is to do. -/
theorem stepRun_keeps (s : State) (ref : RunRef) : (s.stepRun ref).pipeline = s.pipeline ∧
    (s.stepRun ref).orders = s.orders ∧ (s.stepRun ref).progress = s.progress := by
  unfold stepRun
  split <;> exact ⟨rfl, rfl, rfl⟩

/-- The fleet after a turn of a run. -/
theorem fleet_stepRun {ref : RunRef} {run : Run} (hrun : s.fleet.run? ref = some run) :
    (s.stepRun ref).fleet =
      if s.fleet.isDue s.fleet.clock.uptime ref then s.fleet.rouse ref else s.fleet.step ref := by
  unfold stepRun
  rw [hrun]

/-- There is no turn of a run that does not exist. -/
theorem stepRun_of_none {ref : RunRef} (hrun : s.fleet.run? ref = none) : s.stepRun ref = s := by
  unfold stepRun
  rw [hrun]

/-- A run that has ended does and logs nothing. -/
theorem stepRun_of_ended {ref : RunRef} {worker : WorkerRef} {outcome : Outcome}
    (hrun : s.fleet.run? ref = some ⟨worker, .ended outcome⟩) : s.stepRun ref = s := by
  -- It waits for nothing, takes no step, and there is no line about it.
  have hdue : s.fleet.isDue s.fleet.clock.uptime ref = false := by
    unfold Fleet.isDue
    rw [hrun]
    rfl
  have hstep : s.fleet.step ref = s.fleet := by
    unfold Fleet.step
    rw [hrun]
    dsimp only
    split <;> rfl
  have hlines : ((s.fleet.worker? worker).elim []
      (s.pipeline.runLines · ⟨worker, .ended outcome⟩)) = [] := by
    cases s.fleet.worker? worker <;> rfl
  unfold stepRun
  rw [hrun]
  dsimp only
  rw [hdue, if_neg Bool.false_ne_true, hstep, hlines]
  rfl

namespace Sound

variable (h : s.Sound poll failEvery posts)
include h

/-- No worker has dealt with more orders than there are. -/
theorem processed_le (role : Role) : (posts role).queue.processed ≤ s.orders := by
  have haccounted := (h.staffed.sound role).accounted
  have hle := h.agrees.arrived_le role.queue
  exact Nat.le_trans (Nat.le_trans (Nat.le_add_right _ _) (Nat.le_of_eq haccounted)) hle

/-- Every run is that of one of the two workers. -/
theorem exists_role {ref : RunRef} {run : Run} (hrun : s.fleet.run? ref = some run) :
    ∃ role : Role, role.run = ref := by
  have hlt : ref.index < 2 := h.staffed.runs ▸ (List.getElem?_eq_some_iff.mp hrun).1
  obtain ⟨index⟩ := ref
  match index, hlt with
  | 0, _ => exact ⟨.notifier, rfl⟩
  | 1, _ => exact ⟨.auditor, rfl⟩

/-- Once the demo is done, the runs have ended. -/
theorem ended_of_done (hdone : s.progress = .done) (role : Role) :
    ∃ outcome, (posts role).phase = .ended outcome := by
  have hagrees := h.agrees
  rw [hdone] at hagrees
  have hended := hagrees.2.1 role
  generalize (posts role).phase = phase at hended ⊢
  cases phase with
  | ended outcome => exact ⟨outcome, rfl⟩
  | checking | polling | handling => cases hended

/-- A turn of a run after which the posts follow those before. -/
theorem of_stepRun {ref : RunRef} (hne : s.progress ≠ .done) {posts' : Role → Post}
    (hstaffed : Staffed poll failEvery (s.stepRun ref).fleet posts'
      fun role => s.progress.arrived s.orders role.queue)
    (hposts : ∀ role, (posts role).Follows (posts' role)) :
    (s.stepRun ref).Sound poll failEvery posts' := by
  obtain ⟨hpipeline, horders, hprogress⟩ := s.stepRun_keeps ref
  refine ⟨hpipeline.trans h.pipeline, horders ▸ h.orders_le, ?_, ?_⟩
  · rw [horders, hprogress]
    exact hstaffed
  · rw [horders, hprogress]
    refine h.agrees.follows hne hposts (fun role => ?_) _
    have haccounted := (hstaffed.sound role).accounted
    have hle := h.agrees.arrived_le role.queue
    exact Nat.le_trans (Nat.le_trans (Nat.le_add_right _ _) (Nat.le_of_eq haccounted)) hle

/-- A run that waits for a message looks again when its time has come. -/
theorem stepRun_of_due {role : Role} (hne : s.progress ≠ .done) {wake : Span}
    (hphase : (posts role).phase = .polling wake) (hdue : wake ≤ s.fleet.clock.uptime) :
    (s.stepRun role.run).Sound poll failEvery
      (Function.update posts role { posts role with phase := .checking }) ∧
    (s.stepRun role.run).fleet.clock = s.fleet.clock := by
  have hrun := h.staffed.run role
  have hisDue : s.fleet.isDue s.fleet.clock.uptime role.run = true := by
    unfold Fleet.isDue
    rw [hrun, hphase]
    exact decide_eq_true hdue
  obtain ⟨hstaffed, hclock⟩ := h.staffed.rouse role hphase
  have hfleet : (s.stepRun role.run).fleet = s.fleet.rouse role.run := by
    rw [fleet_stepRun hrun, hisDue, if_pos rfl]
  have hposts := Post.rel_update .refl (Post.follows_checking (posts role))
  refine ⟨h.of_stepRun hne (hfleet ▸ hstaffed) hposts, ?_⟩
  rw [hfleet, hclock]

/-- A run that can go on takes a step. -/
theorem exists_stepRun_of_active {role : Role} (hne : s.progress ≠ .done)
    (hactive : (posts role).phase.isActive = true) :
    ∃ p, (posts role).Step (role.desk poll failEvery) s.fleet.clock.uptime p ∧
      (s.stepRun role.run).Sound poll failEvery (Function.update posts role p) ∧
      (s.stepRun role.run).fleet.clock = s.fleet.clock := by
  have hrun := h.staffed.run role
  have hisDue : s.fleet.isDue s.fleet.clock.uptime role.run = false := by
    have hwake := Option.isNone_iff_eq_none.mp (Bool.and_eq_true_iff.mp hactive).2
    unfold Fleet.isDue
    rw [hrun, Option.any_some, hwake]
    rfl
  obtain ⟨p, hstep, hstaffed, hclock⟩ := h.staffed.exists_step role hactive
  have hfleet : (s.stepRun role.run).fleet = s.fleet.step role.run := by
    rw [fleet_stepRun hrun, hisDue, if_neg Bool.false_ne_true]
  refine ⟨p, hstep, h.of_stepRun hne (hfleet ▸ hstaffed) (Post.rel_update .refl hstep.follows), ?_⟩
  rw [hfleet, hclock]

/-! ## Turns of the main task -/

/-- The main task goes on without touching the fleet. -/
theorem of_progress {s' : State} (hpipeline : s'.pipeline = s.pipeline)
    (horders : s'.orders = s.orders) (hfleet : s'.fleet = s.fleet)
    (harrived : ∀ role : Role, s'.progress.arrived s.orders role.queue =
      s.progress.arrived s.orders role.queue)
    (hagrees : Agrees failEvery s.orders posts s'.log s'.progress) :
    s'.Sound poll failEvery posts := by
  refine ⟨hpipeline.trans h.pipeline, horders ▸ h.orders_le, ?_, horders ▸ hagrees⟩
  rw [hfleet, horders]
  exact h.staffed.of_arrived harrived

/-- A begun order is to be delivered to both queues. -/
theorem exists_progress_beginOrder (next : Nat) :
    ∃ m, (s.beginOrder next).progress = .delivering next m Pipeline.standard.queues 0 := by
  have hwired := (h.staffed.generate s.fleet.broker.mint.advance).wired
  exact ⟨_, congrArg (Progress.delivering next _ · 0) hwired.subscribers⟩

/-- An order is begun. -/
theorem beginOrder {next : Nat} (hprogress : s.progress = .publishing next)
    (hle : next ≤ s.orders) : (s.beginOrder next).Sound poll failEvery posts := by
  have hagrees := h.agrees
  have hstaffed := h.staffed.generate s.fleet.broker.mint.advance
  rw [hprogress] at hagrees hstaffed
  obtain ⟨⟨hpos, -⟩, hduty⟩ := hagrees
  have hsubscribers := hstaffed.wired.subscribers
  refine ⟨h.pipeline, h.orders_le, hstaffed.of_arrived fun role => ?_, ?_⟩
  · show (if role.queue ∈ Broker.subscribers _ orderCreated then next - 1 else next) = next - 1
    rw [hsubscribers]
    cases role <;> rfl
  · refine ⟨⟨⟨hpos, hle⟩, ⟨Nat.le_trans hle h.orders_le, rfl⟩, ?_⟩, hduty⟩
    rw [hsubscribers]

omit h in
/-- A queue that must be empty in the end is that of a worker. -/
theorem exists_role_of_mem_queues {queue : QueueRef} (hmem : queue ∈ Pipeline.standard.queues) :
    ∃ role : Role, role.queue = queue := by
  rcases List.mem_cons.mp hmem with rfl | hmem
  · exact ⟨.notifier, rfl⟩
  · rw [List.mem_singleton.mp hmem]
    exact ⟨.auditor, rfl⟩

omit h in
/-- A worker of the pipeline is one of the two. -/
theorem exists_role_of_mem_workers {worker : WorkerRef}
    (hmem : worker ∈ Pipeline.standard.workers) : ∃ role : Role, role.worker = worker := by
  rcases List.mem_cons.mp hmem with rfl | hmem
  · exact ⟨.notifier, rfl⟩
  · rw [List.mem_singleton.mp hmem]
    exact ⟨.auditor, rfl⟩

omit h in
/-- The queue of either worker must be empty in the end. -/
theorem queue_mem_queues (role : Role) : role.queue ∈ Pipeline.standard.queues := by
  cases role
  · exact List.mem_cons_self
  · exact List.mem_cons_of_mem _ List.mem_cons_self

/-- A copy of an order is delivered. -/
theorem exists_deliver {number delivered : Nat} {m : Message} {target : QueueRef}
    {rest : List QueueRef}
    (hprogress : s.progress = .delivering number m (target :: rest) delivered) :
    ∃ posts', (∀ role, (posts role).Like (posts' role)) ∧
      ({ s.deliverOne m target with
        progress := .delivering number m rest (delivered + 1) } : State).Sound poll failEvery
          posts' := by
  have hagrees := h.agrees
  have hstaffed := h.staffed
  rw [hprogress] at hagrees hstaffed
  obtain ⟨⟨⟨hpos, hle⟩, horder, hsuffix⟩, hduty⟩ := hagrees
  obtain ⟨role, rfl⟩ := exists_role_of_mem_queues (hsuffix.subset List.mem_cons_self)
  -- Each queue comes once, so what arrives here is the order that is next at this desk.
  have hnodup : (role.queue :: rest).Nodup := hsuffix.sublist.nodup (by decide)
  have hnot : role.queue ∉ rest := (List.nodup_cons.mp hnodup).1
  have hbefore : (if role.queue ∈ role.queue :: rest then number - 1 else number) + 1 = number := by
    rw [if_pos List.mem_cons_self]
    exact Nat.sub_add_cancel hpos
  have hothers : ∀ other, other ≠ role →
      (other.queue ∈ rest ↔ other.queue ∈ role.queue :: rest) := by
    intro other hne
    rw [List.mem_cons]
    exact (or_iff_right (Role.apart hne).1).symm
  obtain ⟨q, hq, hstaffed'⟩ := hstaffed.deliver role (m := m) (hbefore.symm ▸ horder)
    (fun other => if other.queue ∈ rest then number - 1 else number)
    ((if_neg hnot).trans hbefore.symm) fun other hne => if_congr (hothers other hne) rfl rfl
  have hlike : (posts role).Like { posts role with queue := q } := ⟨hq, rfl, rfl⟩
  refine ⟨_, Post.rel_update .refl hlike, h.pipeline, h.orders_le, hstaffed', ?_⟩
  refine ⟨⟨⟨hpos, hle⟩, horder, (List.suffix_cons _ _).trans hsuffix⟩, fun other => ?_⟩
  by_cases heq : other = role
  · subst heq
    rw [Function.update_self]
    exact ⟨(hduty other).cancelled, (hduty other).stopped, (hduty other).pending⟩
  · rw [Function.update_of_ne heq]
    exact hduty other

/-- A worker is stopped. -/
theorem exists_stop {worker : WorkerRef} {rest : List WorkerRef}
    (hprogress : s.progress = .stopping (worker :: rest)) :
    ∃ posts', (∀ role, (posts role).Like (posts' role)) ∧
      ({ s.say (s.workerLines (.workerStopped ·.name) [worker]) with
        fleet := s.fleet.stop worker, progress := .stopping rest } : State).Sound poll failEvery
          posts' := by
  have hagrees := h.agrees
  have hstaffed := h.staffed
  rw [hprogress] at hagrees hstaffed
  obtain ⟨hsuffix, hdealt⟩ := hagrees
  obtain ⟨role, rfl⟩ := exists_role_of_mem_workers (hsuffix.subset List.mem_cons_self)
  have hstopped : Staffed poll failEvery (s.fleet.stop role.worker) _ _ :=
    hstaffed.modifyWorker role true (posts role).worker.cancelled rfl
  have hlike := Post.rel_update .refl
    ((posts role).like_signalled true (posts role).worker.cancelled)
  refine ⟨_, hlike, h.pipeline, h.orders_le, hstopped, (List.suffix_cons _ _).trans hsuffix, ?_⟩
  exact fun other => (hlike other).processed.trans (hdealt other)

/-- All workers are cancelled. -/
theorem exists_cancelAll (hprogress : s.progress = .stopping []) :
    ∃ posts', (∀ role, (posts role).Like (posts' role)) ∧
      ({ s.cancelAll with progress := .joining } : State).Sound poll failEvery posts' := by
  have hagrees := h.agrees
  have hstaffed := h.staffed
  rw [hprogress] at hagrees hstaffed
  -- One worker after the other is given the signal.
  have hnotifier : Staffed poll failEvery (s.fleet.signal Role.notifier.worker true) _ _ :=
    hstaffed.modifyWorker .notifier (posts .notifier).worker.stopped true rfl
  have hauditor : Staffed poll failEvery
      ((s.fleet.signal Role.notifier.worker true).signal Role.auditor.worker true) _ _ :=
    hnotifier.modifyWorker .auditor (posts .auditor).worker.stopped true rfl
  have hcancelled : s.cancelAll.fleet =
      (s.fleet.signal Role.notifier.worker true).signal Role.auditor.worker true := by
    unfold cancelAll
    rw [h.pipeline]
    rfl
  rw [← hcancelled] at hauditor
  refine ⟨_, fun role => ?_, h.pipeline, h.orders_le, hauditor, fun role => ?_, fun role => ?_⟩
  · cases role <;> exact ⟨rfl, rfl, rfl⟩
  · cases role <;> exact hagrees.2 _
  · cases role <;> rfl

/-- Once no run is pending, both have ended. -/
theorem ended_of_not_pending (hpending : s.fleet.isPending = false) (role : Role) :
    (posts role).phase.isEnded = true := by
  have hmem := List.mem_of_getElem? (h.staffed.run role)
  have hended := List.any_eq_false.mp hpending _ hmem
  simpa using hended

/-- A queue that is not busy has been dealt with. -/
theorem dealt_of_not_busy {unchecked : List QueueRef} (hprogress : s.progress = .draining unchecked)
    {role : Role} (hbusy : s.isBusy role.queue = false) :
    (posts role).queue.processed = s.orders := by
  have hsound := h.staffed.sound role
  rw [hprogress] at hsound
  refine hsound.dealt_iff.mpr ?_
  unfold isBusy at hbusy
  rw [h.staffed.queue role] at hbusy
  exact List.length_eq_zero_iff.mp (Nat.eq_zero_of_not_pos (of_decide_eq_false hbusy))

/-- A worker that has dealt with all orders reports so. -/
theorem workerFinished_eq (role : Role) (hdealt : (posts role).queue.processed = s.orders)
    (harrived : s.progress.arrived s.orders role.queue = s.orders) :
    LogLine.workerFinished (posts role).worker = role.report failEvery s.orders := by
  have hsound := h.staffed.sound role
  -- With all orders dealt with, none is between its failure and its second lease.
  rw [harrived] at hsound
  have hname : (posts role).worker.name = role.name := hsound.name
  have hfailed : (posts role).worker.failed = rejections (role.rejects failEvery) s.orders := by
    rw [hsound.failed, hsound.tries_of_dealt hdealt, hdealt]
    rfl
  unfold LogLine.workerFinished Role.report
  rw [hname, hsound.processed, hdealt, hfailed]

/-- The lines that are logged in the end. -/
theorem workerLines_workerFinished (hprogress : s.progress = .joining)
    (hdealt : ∀ role, (posts role).queue.processed = s.orders) :
    s.workerLines .workerFinished s.pipeline.workers =
      [Role.notifier.report failEvery s.orders, Role.auditor.report failEvery s.orders] := by
  have harrived : ∀ role : Role, s.progress.arrived s.orders role.queue = s.orders := by
    rw [hprogress]
    exact fun _ => rfl
  have hnotifier := h.staffed.worker .notifier
  have hauditor := h.staffed.worker .auditor
  have hworkers : s.pipeline.workers = [Role.notifier.worker, Role.auditor.worker] := by
    rw [h.pipeline]
    rfl
  unfold workerLines
  rw [hworkers, List.filterMap_cons_some hnotifier, List.filterMap_cons_some hauditor,
    List.filterMap_nil, List.map_cons, List.map_cons, List.map_nil,
    h.workerFinished_eq _ (hdealt _) (harrived _), h.workerFinished_eq _ (hdealt _) (harrived _)]

/-- All orders have been begun, and the queues are to be drained. -/
theorem endPublishing {next : Nat} (hprogress : s.progress = .publishing next)
    (hgt : ¬ next ≤ s.orders) :
    ({ s with progress := .draining s.pipeline.queues } : State).Sound poll failEvery posts := by
  have hagrees := h.agrees
  rw [hprogress] at hagrees
  obtain ⟨⟨-, hle⟩, hduty⟩ := hagrees
  refine h.of_progress rfl rfl rfl (fun role => ?_) ⟨⟨?_, fun role hrole => ?_⟩, hduty⟩
  · rw [hprogress]
    show s.orders = next - 1
    omega
  · rw [h.pipeline]
  · rw [h.pipeline] at hrole
    exact absurd (queue_mem_queues role) hrole

/-- An order has been delivered to all queues. -/
theorem endDelivery {number delivered : Nat} {m : Message}
    (hprogress : s.progress = .delivering number m [] delivered) :
    ({ s.say [.published number delivered] with
      progress := .publishing (number + 1) } : State).Sound poll failEvery posts := by
  have hagrees := h.agrees
  rw [hprogress] at hagrees
  obtain ⟨⟨⟨-, hle⟩, -⟩, hduty⟩ := hagrees
  refine h.of_progress rfl rfl rfl (fun role => ?_)
    ⟨⟨Nat.le_add_left _ _, Nat.succ_le_succ hle⟩, hduty⟩
  rw [hprogress]
  rfl

/-- One queue is looked at; if it is busy, all of them are looked at again. -/
theorem checkQueue {queue : QueueRef} {rest : List QueueRef}
    (hprogress : s.progress = .draining (queue :: rest)) :
    ({ s with progress := .draining (if s.isBusy queue then s.pipeline.queues else rest) } :
      State).Sound poll failEvery posts := by
  have hagrees := h.agrees
  rw [hprogress] at hagrees
  obtain ⟨⟨hsuffix, hdealt⟩, hduty⟩ := hagrees
  refine h.of_progress rfl rfl rfl (fun role => ?_) ⟨?_, hduty⟩
  · rw [hprogress]
    rfl
  · cases hbusy : s.isBusy queue with
    | true =>
      rw [if_pos rfl, h.pipeline]
      exact ⟨List.suffix_rfl, fun role hrole => absurd (queue_mem_queues role) hrole⟩
    | false =>
      rw [if_neg Bool.false_ne_true]
      refine ⟨(List.suffix_cons _ _).trans hsuffix, fun role hrole => ?_⟩
      by_cases heq : role.queue = queue
      · exact h.dealt_of_not_busy hprogress (heq ▸ hbusy)
      · exact hdealt role (by simp [heq, hrole])

/-- All queues have been found empty, and the workers are to be stopped. -/
theorem endDraining (hprogress : s.progress = .draining []) :
    ({ s.say [.drained] with progress := .stopping s.pipeline.workers } : State).Sound poll
      failEvery posts := by
  have hagrees := h.agrees
  rw [hprogress] at hagrees
  obtain ⟨⟨-, hdealt⟩, -⟩ := hagrees
  refine h.of_progress rfl rfl rfl (fun role => ?_)
    ⟨?_, fun role => hdealt role List.not_mem_nil⟩
  · rw [hprogress]
    rfl
  · rw [h.pipeline]

/-- Both runs have ended, and the workers report. -/
theorem join (hprogress : s.progress = .joining) (hpending : s.fleet.isPending = false) :
    ({ s.say (s.workerLines .workerFinished s.pipeline.workers) with progress := .done } :
      State).Sound poll failEvery posts := by
  have hagrees := h.agrees
  rw [hprogress] at hagrees
  obtain ⟨hdealt, -⟩ := hagrees
  refine h.of_progress rfl rfl rfl (fun role => ?_)
    ⟨hdealt, fun role => h.ended_of_not_pending hpending role, s.log, ?_⟩
  · rw [hprogress]
    rfl
  · show (s.workerLines _ _).reverse ++ s.log = _
    rw [h.workerLines_workerFinished hprogress hdealt]
    rfl

/-- A turn of the main task. -/
theorem exists_stepMain : ∃ posts', (∀ role, (posts role).Like (posts' role)) ∧
    s.stepMain.Sound poll failEvery posts' := by
  have hlike : ∀ role, (posts role).Like (posts role) := fun role => .refl _
  unfold stepMain
  -- A delivery and the signals change posts; all other turns leave both as they are.
  split <;> rename_i hprogress
  · split
    · rename_i hle
      exact ⟨posts, hlike, h.beginOrder hprogress hle⟩
    · rename_i hgt
      exact ⟨posts, hlike, h.endPublishing hprogress hgt⟩
  · exact h.exists_deliver hprogress
  · exact ⟨posts, hlike, h.endDelivery hprogress⟩
  · exact ⟨posts, hlike, h.checkQueue hprogress⟩
  · exact ⟨posts, hlike, h.endDraining hprogress⟩
  · exact h.exists_stop hprogress
  · exact h.exists_cancelAll hprogress
  · cases hpending : s.fleet.isPending with
    | true => exact ⟨posts, hlike, h⟩
    | false => exact ⟨posts, hlike, h.join hprogress hpending⟩
  · exact ⟨posts, hlike, h⟩

/-! ## Any turns -/

/-- A run that waits for a message before its time has come does nothing. -/
theorem stepRun_of_early {role : Role} (hne : s.progress ≠ .done) {wake : Span}
    (hphase : (posts role).phase = .polling wake) (hearly : ¬ wake ≤ s.fleet.clock.uptime) :
    (s.stepRun role.run).Sound poll failEvery posts := by
  have hrun := h.staffed.run role
  rw [hphase] at hrun
  have hisDue : s.fleet.isDue s.fleet.clock.uptime role.run = false := by
    unfold Fleet.isDue
    rw [hrun]
    exact decide_eq_false hearly
  have hstep : s.fleet.step role.run = s.fleet := by
    unfold Fleet.step
    rw [hrun]
    dsimp only
    rw [h.staffed.worker role]
  have hfleet : (s.stepRun role.run).fleet = s.fleet := by
    rw [fleet_stepRun hrun, hisDue, if_neg Bool.false_ne_true, hstep]
  exact h.of_stepRun hne (hfleet ▸ h.staffed) fun _ => .refl _

/-- A turn of a run. -/
theorem exists_stepRun (ref : RunRef) : ∃ posts', (s.stepRun ref).Sound poll failEvery posts' := by
  cases hrun : s.fleet.run? ref with
  | none => exact ⟨posts, (stepRun_of_none hrun).symm ▸ h⟩
  | some run =>
    obtain ⟨role, rfl⟩ := h.exists_role hrun
    -- The run has ended, or waits and is due or early, or can go on.
    by_cases hended : ∃ outcome, (posts role).phase = .ended outcome
    · obtain ⟨outcome, hphase⟩ := hended
      have hrun' := h.staffed.run role
      rw [hphase] at hrun'
      exact ⟨posts, (stepRun_of_ended hrun').symm ▸ h⟩
    · have hne : s.progress ≠ .done := fun hdone => hended (h.ended_of_done hdone role)
      cases hwake : (posts role).phase.wake? with
      | some wake =>
        have hphase := (h.staffed.sound role).phase_of_wake hwake
        by_cases hdue : wake ≤ s.fleet.clock.uptime
        · exact ⟨_, (h.stepRun_of_due hne hphase hdue).1⟩
        · exact ⟨posts, h.stepRun_of_early hne hphase hdue⟩
      | none =>
        have hactive : (posts role).phase.isActive = true := by
          unfold Phase.isActive
          rw [hwake]
          generalize (posts role).phase = phase at hended
          cases phase with
          | ended outcome => exact absurd ⟨outcome, rfl⟩ hended
          | checking | polling | handling => rfl
        obtain ⟨p, -, hsound, -⟩ := h.exists_stepRun_of_active hne hactive
        exact ⟨_, hsound⟩

/-- Time passes. -/
theorem elapse (span : Span) :
    ({ s with fleet := s.fleet.elapse span } : State).Sound poll failEvery posts :=
  ⟨h.pipeline, h.orders_le, h.staffed.elapse span, h.agrees⟩

/-- Any turn. -/
theorem exists_take (turn : Turn) : ∃ posts', (s.take turn).Sound poll failEvery posts' := by
  cases turn with
  | main =>
    obtain ⟨posts', -, hsound⟩ := h.exists_stepMain
    exact ⟨posts', hsound⟩
  | run ref => exact h.exists_stepRun ref
  | elapse span => exact ⟨posts, h.elapse span⟩

end Sound

/-- Takes turns one after the other. -/
def takeAll (s : State) (turns : List Turn) : State := turns.foldl take s

/-- Any turns, in any order. -/
theorem Sound.exists_takeAll {s : State} {posts : Role → Post} (h : s.Sound poll failEvery posts)
    (turns : List Turn) : ∃ posts', (s.takeAll turns).Sound poll failEvery posts' := by
  induction turns generalizing s posts with
  | nil => exact ⟨posts, h⟩
  | cons turn rest ih =>
    obtain ⟨posts', hsound⟩ := h.exists_take turn
    exact ih hsound

/-! ## A publication in turns -/

/-- Turns of the main task deliver to all that are left. -/
theorem takeAll_delivering {s : State} {number : Nat} {m : Message} {targets : List QueueRef}
    {delivered : Nat} (hprogress : s.progress = .delivering number m targets delivered) :
    s.takeAll (List.replicate targets.length .main) = { s with
      fleet := { s.fleet with broker := deliverAll orderCreated m targets s.fleet.broker }
      progress := .delivering number m [] (delivered + targets.length) } := by
  induction targets generalizing s delivered with
  | nil =>
    show s = { s with progress := .delivering number m [] delivered }
    rw [← hprogress]
  | cons target rest ih =>
    have hstep : s.take .main =
        { s.deliverOne m target with progress := .delivering number m rest (delivered + 1) } := by
      show s.stepMain = _
      unfold stepMain
      rw [hprogress]
    show (s.take .main).takeAll (List.replicate rest.length .main) = _
    rw [hstep, ih rfl, deliverAll_cons, List.length_cons, Nat.add_right_comm, Nat.add_assoc]
    rfl

/-- When nobody interferes, the turns of the main task for an order are a publication of its message
in one piece: the subscribers get their copies, and the main task logs how many these were. -/
theorem Sound.takeAll_publishing {s : State} {posts : Role → Post}
    (h : s.Sound poll failEvery posts) {next : Nat} (hprogress : s.progress = .publishing next)
    (hle : next ≤ s.orders) :
    let (m, b) := orderMessage s.fleet.broker next s.fleet.clock.wall
    let (result, after) := b.publish orderCreated m none fun _ => s.fleet.clock.uptime
    ∃ delivered, result = .ok delivered ∧
      s.takeAll (List.replicate (delivered + 2) .main) =
        { s.say [.published next delivered] with
          fleet := { s.fleet with broker := after }, progress := .publishing (next + 1) } := by
  generalize hmessage : orderMessage s.fleet.broker next s.fleet.clock.wall = made
  obtain ⟨m, b⟩ := made
  have hwired : Wired b := by
    obtain rfl : (orderMessage s.fleet.broker next s.fleet.clock.wall).2 = b := by rw [hmessage]
    exact (h.staffed.generate s.fleet.broker.mint.advance).wired
  obtain ⟨ref, hfind, htopic⟩ := hwired.topic
  have hpublish : b.publish orderCreated m none (fun _ => s.fleet.clock.uptime) =
      (.ok Pipeline.standard.queues.length,
        deliverAll orderCreated m Pipeline.standard.queues b) := by
    unfold Broker.publish
    rw [hfind]
    exact publishTo_of_early htopic m fun _ _ => rfl
  dsimp only
  rw [hpublish]
  refine ⟨Pipeline.standard.queues.length, rfl, ?_⟩
  -- The first turn begins the order, and the last one ends it; those between them deliver.
  obtain ⟨begun, hbegun⟩ : ∃ begun : State, begun = { s with
      fleet := { s.fleet with broker := b }
      progress := .delivering next m Pipeline.standard.queues 0 } := ⟨_, rfl⟩
  have hfirst : s.take .main = begun := by
    show s.stepMain = begun
    unfold stepMain State.beginOrder
    rw [hprogress]
    dsimp only
    rw [if_pos hle, hmessage, hbegun]
    dsimp only
    rw [hwired.subscribers]
  have hdelivered := takeAll_delivering (s := begun) (by rw [hbegun])
  have hturns : List.replicate (Pipeline.standard.queues.length + 2) Turn.main =
      .main :: (List.replicate Pipeline.standard.queues.length .main ++ [.main]) := rfl
  rw [hturns]
  show ((s.take .main).takeAll (_ ++ [.main])) = _
  unfold takeAll at hdelivered ⊢
  rw [List.foldl_append, hfirst, hdelivered, hbegun]
  rfl

end State

end MessageBroker.Demo
