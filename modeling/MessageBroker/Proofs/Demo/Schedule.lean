import MessageBroker.Proofs.Demo.Conduct

/-!
# The demo comes to its end

`State.finish` takes the turns that `State.nextTurn` chooses, in which time passes only when
everyone waits. The turns that are left are counted by `State.left`: what the main task still has to
do, and for either desk what its run can still do with the orders that are left, with a surcharge
for a run that sleeps while it has something to do. Each turn lowers this number
(`State.Sound.left_nextTurn`), which is below the turns that are granted, so the demo is done in time
(`State.Sound.exists_finish`).
-/

namespace MessageBroker.Demo

open Broker Fleet

/-! ## Turns left at a desk -/

/-- The turns that a call may still take, the settlement included; a rejected order that has failed
needs fewer, since it does not fail again. -/
def Stage.left (tries : Nat) : Stage → Nat
  | .guarding => 7 - 4 * tries
  | .acting _ | .paused _ _ => 6 - 4 * tries
  | .marking => 2
  | .settling none _ => 1
  | .settling (some _) _ => 5

/-- The turns that a run may still take, if there are so many orders: eight for each, or four if it
has failed. A run that waits takes two to look again when its time has come, and until then it is
charged with something, depending on how many orders it has dealt with. -/
def Post.left (orders : Nat) (charge : Nat → Nat) (now : Span) (p : Post) : Nat :=
  match p.phase with
  | .checking => 8 * (orders - p.queue.processed) - 4 * p.tries + 1
  | .polling wake =>
    8 * (orders - p.queue.processed) - 4 * p.tries +
      if wake ≤ now then 2 else charge p.queue.processed
  | .handling call => 8 * (orders - p.queue.processed - 1) + Stage.left p.tries call.stage + 1
  | .ended _ => 0

/-- An order fails once at most. -/
theorem Post.Sound.tries_le {d : Desk} {arrived : Nat} {p : Post} (h : p.Sound d arrived) :
    p.tries ≤ 1 := by
  have hposition := h.position
  generalize p.tries = tries at hposition ⊢
  generalize p.phase = phase at hposition
  generalize p.queue.messages = line at hposition
  cases hposition with
  | free => exact Nat.zero_le 1
  | facing _ _ _ _ htries | handling _ _ _ _ htries =>
    rcases htries with rfl | ⟨rfl, -⟩
    · exact Nat.zero_le 1
    · exact Nat.le_refl 1

/-- An order that has failed is one that is rejected. -/
theorem tries_of_accepted {rejected : Bool} {tries : Nat}
    (htries : tries = 0 ∨ tries = 1 ∧ rejected = true) (hnot : rejected = false) : tries = 0 := by
  rcases htries with htries | ⟨-, hrejected⟩
  · exact htries
  · rw [hnot] at hrejected
    cases hrejected

/-- The handling of an order comes nearer to its end. -/
theorem Advance.left_lt {rejected : Bool} {tries : Nat} {stage stage' : Stage}
    (h : Advance rejected tries stage stage') (htries : tries = 0 ∨ tries = 1 ∧ rejected = true) :
    Stage.left tries stage' < Stage.left tries stage := by
  have hle : tries ≤ 1 := by omega
  cases h with
  | skips | calls | succeeds | marked => simp only [Stage.left]; omega
  | fails hfailing =>
    obtain ⟨-, rfl⟩ := tries_of_failing hfailing
    exact Nat.lt_succ_self 5
  | marks hnot =>
    obtain rfl := tries_of_accepted htries hnot
    show 2 < 6
    decide

/-- Where an order is in line, not all that arrived are dealt with. -/
theorem Post.Sound.processed_lt {d : Desk} {arrived : Nat} {p : Post} (h : p.Sound d arrived)
    {m : Message} {rest : List Message} (hmessages : p.queue.messages = m :: rest) :
    p.queue.processed < arrived := by
  have haccounted := h.accounted
  rw [hmessages, List.length_cons] at haccounted
  omega

/-- A step leaves fewer turns at the desk, if it is not charged with a waiting that it begins. -/
theorem Post.Step.left_lt {d : Desk} {now : Span} {p p' : Post} (h : p.Step d now p')
    {arrived orders : Nat} (hs : p.Sound d arrived) (hle : arrived ≤ orders)
    (hpoll : Span.zero < d.pollInterval) {charge : Nat → Nat}
    (hcharge : (p.worker.cancelled || p.worker.stopped) = false → p.queue.messages = [] →
      charge p.queue.processed = 0) :
    p'.left orders charge now < p.left orders charge now := by
  have htries := hs.tries_le
  have hlt : ∀ {m rest}, p.queue.messages = m :: rest → p.queue.processed < arrived :=
    fun hmessages => hs.processed_lt hmessages
  cases h with
  | ends => exact Nat.succ_pos _
  | @waits q w tries hsignal hempty =>
    have hinterval : w.pollInterval = d.pollInterval := hs.pollInterval
    have hlater : ¬ now + w.pollInterval ≤ now := by
      rw [hinterval, Span.le_iff, Span.nanos_add]
      have hpos : 0 < d.pollInterval.nanos := hpoll
      omega
    have hfree : charge q.processed = 0 := hcharge hsignal hempty
    -- The waiting that begins is neither over nor charged, so the turn for the check is gone.
    simp only [Post.left]
    rw [if_neg hlater, hfree]
    exact Nat.lt_succ_self _
  | @leases q w tries m rest handle deadline _ hmessages =>
    have hprocessed : q.processed < arrived := hlt hmessages
    -- The turns of the order in front are now those of its handling.
    simp only [Post.left, Stage.left] at htries ⊢
    omega
  | @proceeds q w w' tries calls m began stage stage' log hadvance hworker =>
    obtain ⟨rest, -, -, -, -, -, -, hagain, -⟩ := hs.position.exists_of_handling
    have hstage := hadvance.left_lt hagain
    simp only [Post.left]
    omega
  | @acknowledges q w tries m rest began elapsed hmessages =>
    have hprocessed : q.processed < arrived := hlt hmessages
    simp only [Post.left, Stage.left]
    omega
  | @givesBack q w tries m rest began elapsed reason hmessages =>
    have hprocessed : q.processed < arrived := hlt hmessages
    simp only [Post.left, Stage.left]
    omega

/-- A run that begins to wait does so for the poll interval. -/
theorem Post.Step.wake_eq {d : Desk} {now wake : Span} {p p' : Post} (h : p.Step d now p')
    {arrived : Nat} (hs : p.Sound d arrived) (hphase : p'.phase = .polling wake) :
    wake = now + d.pollInterval := by
  cases h with
  | waits =>
    obtain rfl := Phase.polling.inj hphase
    exact congrArg (now + ·) hs.pollInterval
  | ends | leases | proceeds | acknowledges | givesBack => cases hphase

/-- A run whose time has come looks again. -/
theorem Post.left_checking_lt {p : Post} {now wake : Span} (hphase : p.phase = .polling wake)
    (hdue : wake ≤ now) (orders : Nat) (charge : Nat → Nat) :
    Post.left orders charge now { p with phase := .checking } < p.left orders charge now := by
  unfold Post.left
  rw [hphase]
  dsimp only
  rw [if_pos hdue]
  exact Nat.lt_succ_self _

/-- What is left at a desk depends on little. -/
theorem Post.Like.left_le {p p' : Post} (h : p.Like p') {charge charge' : Nat → Nat} {extra : Nat}
    (hcharge : ∀ dealt, charge' dealt ≤ charge dealt + extra) (orders : Nat) (now : Span) :
    p'.left orders charge' now ≤ p.left orders charge now + extra := by
  have hdealt := hcharge p.queue.processed
  unfold Post.left
  rw [h.phase, h.processed, h.tries]
  split
  · omega
  · split <;> omega
  · omega
  · omega

/-! ## Turns left altogether -/

namespace Progress

/-- The turns that the main task may still take, without those in which it finds a queue busy or a
run pending; the first orders and the draining are charged with the waiting that follows. -/
def left (orders : Nat) : Progress → Nat
  | .publishing next => 4 * (orders + 1 - next) + 28
  | .delivering number _ targets _ => 4 * (orders - number) + targets.length + 29
  | .draining unchecked => unchecked.length + 15
  | .stopping workers => workers.length + 12
  | .joining => 1
  | .done => 0

/-- What a run that sleeps is charged with, if it has dealt with so many orders: time will have to
pass for it if it has something to do, that is to deal with orders, or else to end. -/
def charge (orders : Nat) : Progress → Nat → Nat
  | .publishing _, _ | .delivering _ _ _ _, _ | .done, _ => 0
  | .draining _, dealt | .stopping _, dealt => if dealt < orders then 5 else 0
  | .joining, _ => 5

end Progress

namespace State

/-- The turns left at the desk of a worker. -/
def leftAt (s : State) (posts : Role → Post) (role : Role) : Nat :=
  (posts role).left s.orders (s.progress.charge s.orders) s.fleet.clock.uptime

/-- The turns left altogether, at most. -/
def left (s : State) (posts : Role → Post) : Nat :=
  s.progress.left s.orders + s.leftAt posts .notifier + s.leftAt posts .auditor

/-- The runs that wait do so since the last time that time passed, or their time has come. -/
def Timely (poll : Span) (s : State) (posts : Role → Post) : Prop :=
  ∀ role wake, (posts role).phase = .polling wake →
    wake ≤ s.fleet.clock.uptime ∨ wake = s.fleet.clock.uptime + poll

/-- No run can go on: each has ended, or waits for a time that has not come. -/
def Asleep (s : State) (posts : Role → Post) : Prop :=
  ∀ role, (posts role).phase.isEnded = true ∨
    ∃ wake, (posts role).phase = .polling wake ∧ ¬ wake ≤ s.fleet.clock.uptime

variable {poll : Span} {failEvery : Nat} {s : State} {posts : Role → Post}

/-- A turn at one desk that lowers what is left there, and leaves the main task as it is. -/
theorem left_update_lt {s' : State} (hprogress : s'.progress = s.progress)
    (horders : s'.orders = s.orders) (hclock : s'.fleet.clock = s.fleet.clock) {role : Role}
    {p : Post} (hlt : p.left s.orders (s.progress.charge s.orders) s.fleet.clock.uptime <
      s.leftAt posts role) :
    s'.left (Function.update posts role p) < s.left posts := by
  have hself : s'.leftAt (Function.update posts role p) role < s.leftAt posts role := by
    unfold leftAt
    rw [Function.update_self, hprogress, horders, hclock]
    exact hlt
  have hothers : ∀ other, other ≠ role →
      s'.leftAt (Function.update posts role p) other = s.leftAt posts other := by
    intro other hne
    unfold leftAt
    rw [Function.update_of_ne hne, hprogress, horders, hclock]
  unfold left
  rw [hprogress, horders]
  cases role with
  | notifier =>
    have hother := hothers .auditor nofun
    omega
  | auditor =>
    have hother := hothers .notifier nofun
    omega

/-- A turn at one desk, after which the run there waits no longer than from now on. -/
theorem Timely.update (h : s.Timely poll posts) {s' : State}
    (hclock : s'.fleet.clock = s.fleet.clock) {role : Role} {p : Post}
    (hp : ∀ wake, p.phase = .polling wake → wake = s.fleet.clock.uptime + poll) :
    s'.Timely poll (Function.update posts role p) := by
  intro other wake hphase
  rw [hclock]
  by_cases heq : other = role
  · subst heq
    rw [Function.update_self] at hphase
    exact .inr (hp wake hphase)
  · rw [Function.update_of_ne heq] at hphase
    exact h other wake hphase

/-- The main task keeps the clocks and the number of orders. -/
theorem stepMain_keeps (s : State) :
    s.stepMain.fleet.clock = s.fleet.clock ∧ s.stepMain.orders = s.orders := by
  unfold stepMain
  split
  any_goals exact ⟨rfl, rfl⟩
  · split <;> exact ⟨rfl, rfl⟩
  · split <;> exact ⟨rfl, rfl⟩

/-- A turn of the main task that does not wait leaves it less to do, also counting what the sleeping
runs are charged with afterwards. -/
theorem Sound.exists_left_stepMain (h : s.Sound poll failEvery posts)
    (hwaiting : s.isMainWaiting = false) (hne : s.progress ≠ .done) :
    ∃ extra, s.stepMain.progress.left s.orders + 2 * extra < s.progress.left s.orders ∧
      ∀ dealt, s.stepMain.progress.charge s.orders dealt ≤
        s.progress.charge s.orders dealt + extra := by
  have hagrees := h.agrees
  have hqueues : s.pipeline.queues.length = 2 := by
    rw [h.pipeline]
    rfl
  have hworkers : s.pipeline.workers.length = 2 := by
    rw [h.pipeline]
    rfl
  unfold isMainWaiting at hwaiting
  unfold stepMain
  split <;> rename_i hprogress <;> rw [hprogress] at hagrees hwaiting ⊢
  · rename_i next
    split
    · rename_i hle
      obtain ⟨m, hbegun⟩ := h.exists_progress_beginOrder next
      rw [hbegun]
      refine ⟨0, ?_, fun dealt => Nat.le_refl 0⟩
      show 4 * (s.orders - next) + 2 + 29 < 4 * (s.orders + 1 - next) + 28
      omega
    · -- From here on the runs are charged, which the main task has kept turns for.
      refine ⟨5, ?_, fun dealt => ?_⟩
      · simp only [Progress.left]
        omega
      · simp only [Progress.charge]
        split <;> omega
  · refine ⟨0, ?_, fun dealt => Nat.le_refl _⟩
    simp only [Progress.left, List.length_cons]
    omega
  · refine ⟨0, ?_, fun dealt => Nat.le_refl _⟩
    simp only [Progress.left, List.length_nil]
    omega
  · dsimp only at hwaiting
    rw [hwaiting, if_neg Bool.false_ne_true]
    refine ⟨0, ?_, fun dealt => Nat.le_refl _⟩
    simp only [Progress.left, List.length_cons]
    omega
  · refine ⟨0, ?_, fun dealt => Nat.le_refl _⟩
    simp only [Progress.left, List.length_nil]
    omega
  · refine ⟨0, ?_, fun dealt => Nat.le_refl _⟩
    simp only [Progress.left, List.length_cons]
    omega
  · refine ⟨5, ?_, fun dealt => ?_⟩
    · simp only [Progress.left, List.length_nil]
      omega
    · exact Nat.le_add_left _ _
  · dsimp only at hwaiting
    rw [hwaiting, if_neg Bool.false_ne_true]
    exact ⟨0, Nat.zero_lt_one, fun dealt => Nat.zero_le _⟩
  · exact absurd hprogress hne

/-! ## The schedule -/

namespace Sound

variable (h : s.Sound poll failEvery posts)
include h

/-- Both runs are there. -/
theorem mem_runRefs (role : Role) : role.run ∈ s.fleet.runRefs := by
  unfold Fleet.runRefs
  rw [h.staffed.runs]
  cases role
  · exact List.mem_cons_self
  · exact List.mem_cons_of_mem _ List.mem_cons_self

/-- A run can go on if its post says so. -/
theorem isActive_eq (role : Role) : s.fleet.isActive role.run = (posts role).phase.isActive := by
  unfold Fleet.isActive
  rw [h.staffed.run role]
  rfl

/-- The time of a run has come if its post says so. -/
theorem isDue_eq (role : Role) : s.fleet.isDue s.fleet.clock.uptime role.run =
    (posts role).phase.wake?.any (· ≤ s.fleet.clock.uptime) := by
  unfold Fleet.isDue
  rw [h.staffed.run role]
  rfl

/-- The next turn is one of a run that can go on or whose time has come, or neither is the case for
any, and then it is one of the main task if that does not wait, or else time passes. -/
theorem nextTurn_cases :
    (∃ role : Role, s.nextTurn = .run role.run ∧ ((posts role).phase.isActive = true ∨
      (posts role).phase.wake?.any (· ≤ s.fleet.clock.uptime) = true)) ∨
    (∀ role, (posts role).phase.isActive = false ∧
      (posts role).phase.wake?.any (· ≤ s.fleet.clock.uptime) = false) ∧
      s.nextTurn = if s.isMainWaiting then .elapse s.untilWake else .main := by
  unfold nextTurn
  dsimp only
  -- The schedule looks for the first run that is ready; both roles are among the runs.
  cases hfind : s.fleet.runRefs.find? fun ref =>
      s.fleet.isActive ref || s.fleet.isDue s.fleet.clock.uptime ref with
  | some ref =>
    have hready := List.find?_some hfind
    have hrun : ∃ run, s.fleet.run? ref = some run := by
      unfold Fleet.isActive Fleet.isDue at hready
      cases hrun : s.fleet.run? ref with
      | some run => exact ⟨run, rfl⟩
      | none =>
        rw [hrun] at hready
        cases hready
    obtain ⟨run, hrun⟩ := hrun
    obtain ⟨role, rfl⟩ := h.exists_role hrun
    rw [h.isActive_eq, h.isDue_eq] at hready
    exact .inl ⟨role, rfl, Bool.or_eq_true_iff.mp hready⟩
  | none =>
    refine .inr ⟨fun role => ?_, rfl⟩
    have hready := List.find?_eq_none.mp hfind _ (h.mem_runRefs role)
    rw [h.isActive_eq, h.isDue_eq] at hready
    exact Bool.or_eq_false_iff.mp (Bool.eq_false_iff.mpr hready)

/-- A run that cannot go on has ended, or waits for a time that has not come. -/
theorem asleep (hnone : ∀ role, (posts role).phase.isActive = false ∧
      (posts role).phase.wake?.any (· ≤ s.fleet.clock.uptime) = false) : s.Asleep posts := by
  intro role
  obtain ⟨hactive, hdue⟩ := hnone role
  cases hwake : (posts role).phase.wake? with
  | some wake =>
    rw [hwake] at hdue
    exact .inr ⟨wake, (h.staffed.sound role).phase_of_wake hwake, of_decide_eq_false hdue⟩
  | none =>
    unfold Phase.isActive at hactive
    rw [hwake] at hactive
    exact .inl (by simpa using hactive)

/-- A run that is there is the one of a worker. -/
theorem exists_role_of_mem {run : Run} (hmem : run ∈ s.fleet.runs) :
    ∃ role : Role, run = ⟨role.worker, (posts role).phase⟩ := by
  obtain ⟨index, hindex⟩ := List.mem_iff_getElem?.mp hmem
  have hrun : s.fleet.run? ⟨index⟩ = some run := hindex
  obtain ⟨role, hrole⟩ := h.exists_role hrun
  rw [← hrole, h.staffed.run role] at hrun
  exact ⟨role, (Option.some.inj hrun).symm⟩

/-- Where the runs that sleep do so until the same time, that time is awaited. -/
theorem untilWake_eq (hall : ∀ role wake, (posts role).phase.wake? = some wake →
      wake = s.fleet.clock.uptime + poll)
    (hsome : ∃ role wake, (posts role).phase.wake? = some wake) : s.untilWake = poll := by
  have hwakes : ∀ wake ∈ s.fleet.runs.filterMap (·.phase.wake?),
      wake = s.fleet.clock.uptime + poll := by
    intro wake hmem
    obtain ⟨run, hrun, hwake⟩ := List.mem_filterMap.mp hmem
    obtain ⟨role, rfl⟩ := h.exists_role_of_mem hrun
    exact hall role wake hwake
  -- The earliest of several equal times is that time.
  have hfold : ∀ l : List Span, (∀ wake ∈ l, wake = s.fleet.clock.uptime + poll) →
      l.foldl earlier (s.fleet.clock.uptime + poll) = s.fleet.clock.uptime + poll := by
    intro l
    induction l with
    | nil => exact fun _ => rfl
    | cons wake rest ih =>
      intro hl
      have hself : earlier (s.fleet.clock.uptime + poll) wake = s.fleet.clock.uptime + poll := by
        rw [hl wake List.mem_cons_self]
        exact ite_self _
      rw [List.foldl_cons, hself]
      exact ih fun other hother => hl other (List.mem_cons_of_mem _ hother)
  unfold untilWake
  cases hlist : s.fleet.runs.filterMap (·.phase.wake?) with
  | nil =>
    obtain ⟨role, wake, hwake⟩ := hsome
    have hmem : wake ∈ s.fleet.runs.filterMap (·.phase.wake?) :=
      List.mem_filterMap.mpr ⟨_, List.mem_of_getElem? (h.staffed.run role), hwake⟩
    rw [hlist] at hmem
    cases hmem
  | cons first rest =>
    rw [hlist] at hwakes
    have hfirst := hwakes first List.mem_cons_self
    dsimp only
    rw [hfirst, hfold rest fun wake hmem => hwakes wake (List.mem_cons_of_mem _ hmem)]
    exact congrArg Span.mk (Nat.add_sub_cancel_left _ _)

/-- A run that would begin to wait is charged with nothing. -/
theorem charge_eq_zero {role : Role}
    (hsignal : ((posts role).worker.cancelled || (posts role).worker.stopped) = false)
    (hempty : (posts role).queue.messages = []) :
    s.progress.charge s.orders (posts role).queue.processed = 0 := by
  have hagrees := h.agrees
  have hdealt := (h.staffed.sound role).dealt_iff.mpr hempty
  generalize s.progress = progress at hagrees hdealt
  cases progress with
  | publishing | delivering | done => rfl
  | draining | stopping =>
    rw [hdealt]
    exact if_neg (Nat.lt_irrefl _)
  | joining =>
    rw [hagrees.2 role] at hsignal
    cases hsignal

/-- A turn of a run that can go on, or whose time has come, leaves fewer turns. -/
theorem exists_left_run (htimely : s.Timely poll posts) (hpoll : Span.zero < poll)
    (hne : s.progress ≠ .done) {role : Role} (hready : (posts role).phase.isActive = true ∨
      (posts role).phase.wake?.any (· ≤ s.fleet.clock.uptime) = true) :
    ∃ posts', (s.stepRun role.run).Sound poll failEvery posts' ∧
      (s.stepRun role.run).Timely poll posts' ∧
      (s.stepRun role.run).left posts' < s.left posts := by
  obtain ⟨-, horders, hprogress⟩ := s.stepRun_keeps role.run
  rcases hready with hactive | hdue
  · obtain ⟨p, hstep, hsound, hclock⟩ := h.exists_stepRun_of_active hne hactive
    have hpost := h.staffed.sound role
    have hlt : p.left s.orders (s.progress.charge s.orders) s.fleet.clock.uptime < _ :=
      hstep.left_lt hpost (h.agrees.arrived_le _) hpoll h.charge_eq_zero
    exact ⟨_, hsound, htimely.update hclock fun wake => hstep.wake_eq hpost,
      left_update_lt hprogress horders hclock hlt⟩
  · obtain ⟨wake, hwake, hle⟩ := (Option.any_eq_true _ _).mp hdue
    have hphase := (h.staffed.sound role).phase_of_wake hwake
    obtain ⟨hsound, hclock⟩ := h.stepRun_of_due hne hphase (of_decide_eq_true hle)
    have hlt := Post.left_checking_lt hphase (of_decide_eq_true hle) s.orders
      (s.progress.charge s.orders)
    exact ⟨_, hsound, htimely.update hclock nofun, left_update_lt hprogress horders hclock hlt⟩

/-- A turn of the main task that does not wait leaves fewer turns. -/
theorem exists_left_main (htimely : s.Timely poll posts) (hwaiting : s.isMainWaiting = false)
    (hne : s.progress ≠ .done) :
    ∃ posts', s.stepMain.Sound poll failEvery posts' ∧ s.stepMain.Timely poll posts' ∧
      s.stepMain.left posts' < s.left posts := by
  obtain ⟨posts', hlike, hsound⟩ := h.exists_stepMain
  obtain ⟨hclock, horders⟩ := s.stepMain_keeps
  obtain ⟨extra, hlt, hcharge⟩ := h.exists_left_stepMain hwaiting hne
  refine ⟨posts', hsound, fun role wake hphase => ?_, ?_⟩
  · rw [hclock]
    exact htimely role wake ((hlike role).phase.symm.trans hphase)
  · have hle := fun role => (hlike role).left_le hcharge s.orders s.fleet.clock.uptime
    have hnotifier := hle .notifier
    have hauditor := hle .auditor
    unfold State.left leftAt
    rw [hclock, horders]
    omega

/-- Where time has to pass, a run sleeps that is charged with it. -/
theorem exists_charged (hwaiting : s.isMainWaiting = true) (hasleep : s.Asleep posts) :
    ∃ role wake, (posts role).phase = .polling wake ∧
      s.progress.charge s.orders (posts role).queue.processed = 5 := by
  have hagrees := h.agrees
  unfold isMainWaiting at hwaiting
  split at hwaiting
  · rename_i queue rest hprogress
    rw [hprogress] at hagrees
    obtain ⟨⟨hsuffix, -⟩, hduty⟩ := hagrees
    obtain ⟨role, rfl⟩ := exists_role_of_mem_queues (hsuffix.subset List.mem_cons_self)
    have hpost := h.staffed.sound role
    -- A queue is busy, so its worker has orders left to deal with.
    rcases hasleep role with hended | ⟨wake, hphase, -⟩
    · rw [(hduty role).pending] at hended
      cases hended
    · refine ⟨role, wake, hphase, ?_⟩
      rw [hprogress] at hpost ⊢
      unfold isBusy at hwaiting
      rw [h.staffed.queue role] at hwaiting
      have hpos : 0 < (posts role).queue.messages.length := of_decide_eq_true hwaiting
      have haccounted : _ + _ = s.orders := hpost.accounted
      exact if_pos (by omega)
  · rename_i hprogress
    -- A run is pending, so it has not noticed its signal yet.
    obtain ⟨run, hmem, hpending⟩ := List.any_eq_true.mp hwaiting
    obtain ⟨role, rfl⟩ := h.exists_role_of_mem hmem
    rcases hasleep role with hended | ⟨wake, hphase, -⟩
    · rw [hended] at hpending
      cases hpending
    · refine ⟨role, wake, hphase, ?_⟩
      rw [hprogress]
      rfl
  · cases hwaiting

omit h in
/-- What is left at a desk when time passes: a run that wakes up takes two turns to look again, and
is no longer charged. -/
theorem leftAt_elapse {role : Role} {wake : Span} (hphase : (posts role).phase = .polling wake)
    (hearly : ¬ wake ≤ s.fleet.clock.uptime) (hwake : wake = s.fleet.clock.uptime + poll) :
    ({ s with fleet := s.fleet.elapse poll } : State).leftAt posts role +
      s.progress.charge s.orders (posts role).queue.processed = s.leftAt posts role + 2 := by
  have hdue : wake ≤ (s.fleet.elapse poll).clock.uptime := Nat.le_of_eq (congrArg Span.nanos hwake)
  unfold leftAt Post.left
  dsimp only
  rw [hphase]
  dsimp only
  rw [if_neg hearly, if_pos hdue]
  omega

omit h in
/-- Nothing is left at the desk of a run that has ended. -/
theorem leftAt_of_ended {role : Role} (hended : (posts role).phase.isEnded = true) :
    s.leftAt posts role = 0 := by
  unfold leftAt Post.left
  generalize (posts role).phase = phase at hended
  cases phase with
  | ended => rfl
  | checking | polling | handling => cases hended

/-- When everyone waits, time passes until the sleeping runs wake up, and fewer turns are left. -/
theorem left_elapse (htimely : s.Timely poll posts) (hwaiting : s.isMainWaiting = true)
    (hasleep : s.Asleep posts) :
    s.untilWake = poll ∧
      ({ s with fleet := s.fleet.elapse poll } : State).Timely poll posts ∧
      ({ s with fleet := s.fleet.elapse poll } : State).left posts < s.left posts := by
  have hlater : ∀ role wake, (posts role).phase = .polling wake →
      ¬ wake ≤ s.fleet.clock.uptime ∧ wake = s.fleet.clock.uptime + poll := by
    intro role wake hphase
    rcases hasleep role with hended | ⟨other, hphase', hearly⟩
    · rw [hphase] at hended
      cases hended
    · obtain rfl := Phase.polling.inj (hphase.symm.trans hphase')
      exact ⟨hearly, (htimely role wake hphase).resolve_left hearly⟩
  have hle : ∀ role, ({ s with fleet := s.fleet.elapse poll } : State).leftAt posts role ≤
      s.leftAt posts role + 2 := by
    intro role
    rcases hasleep role with hended | ⟨wake, hphase, hearly⟩
    · exact Nat.le_trans (Nat.le_of_eq (leftAt_of_ended hended)) (Nat.zero_le _)
    · exact Nat.le_trans (Nat.le_add_right _ _)
        (Nat.le_of_eq (leftAt_elapse hphase hearly (hlater role wake hphase).2))
  obtain ⟨charged, wake, hphase, hcharge⟩ := h.exists_charged hwaiting hasleep
  have hcharged := leftAt_elapse hphase (hlater _ _ hphase).1 (hlater _ _ hphase).2
  rw [hcharge] at hcharged
  refine ⟨?_, fun role wake hphase => .inl ?_, ?_⟩
  · refine h.untilWake_eq (fun role wake hwake => ?_) ⟨charged, wake, by rw [hphase]; rfl⟩
    exact (hlater role wake ((h.staffed.sound role).phase_of_wake hwake)).2
  · exact Nat.le_of_eq (congrArg Span.nanos (hlater role wake hphase).2)
  · -- The charged run gains two turns for its five, the other one gains two at most.
    unfold State.left
    cases charged with
    | notifier =>
      have hother := hle .auditor
      dsimp only
      omega
    | auditor =>
      have hother := hle .notifier
      dsimp only
      omega

/-- The next turn leaves fewer turns. -/
theorem left_nextTurn (htimely : s.Timely poll posts) (hpoll : Span.zero < poll)
    (hne : s.progress ≠ .done) :
    ∃ posts', (s.take s.nextTurn).Sound poll failEvery posts' ∧
      (s.take s.nextTurn).Timely poll posts' ∧ (s.take s.nextTurn).left posts' < s.left posts := by
  rcases h.nextTurn_cases with ⟨role, hturn, hready⟩ | ⟨hnone, hturn⟩
  · rw [hturn]
    exact h.exists_left_run htimely hpoll hne hready
  · rw [hturn]
    cases hwaiting : s.isMainWaiting with
    | false =>
      rw [if_neg Bool.false_ne_true]
      exact h.exists_left_main htimely hwaiting hne
    | true =>
      obtain ⟨huntil, htimely', hlt⟩ := h.left_elapse htimely hwaiting (h.asleep hnone)
      rw [if_pos rfl, huntil]
      exact ⟨posts, h.elapse poll, htimely', hlt⟩

end Sound

/-- A turn keeps the number of orders. -/
theorem orders_take (s : State) (turn : Turn) : (s.take turn).orders = s.orders := by
  cases turn with
  | main => exact s.stepMain_keeps.2
  | run ref => exact (s.stepRun_keeps ref).2.1
  | elapse span => rfl

/-- With more turns than are left, the demo is done. -/
theorem Sound.exists_finish (hpoll : Span.zero < poll) {fuel : Nat} {s : State}
    {posts : Role → Post} (h : s.Sound poll failEvery posts) (htimely : s.Timely poll posts)
    (hfuel : s.left posts < fuel) :
    ∃ s' posts', s.finish fuel = some s' ∧ s'.Sound poll failEvery posts' ∧ s'.progress = .done ∧
      s'.orders = s.orders := by
  induction fuel generalizing s posts with
  | zero => exact absurd hfuel (Nat.not_lt_zero _)
  | succ fuel ih =>
    unfold finish
    by_cases hdone : s.progress = .done
    · rw [if_pos hdone]
      exact ⟨s, posts, rfl, h, hdone, rfl⟩
    · rw [if_neg hdone]
      obtain ⟨posts', hsound, htimely', hlt⟩ := h.left_nextTurn htimely hpoll hdone
      obtain ⟨s', posts'', hfinish, hsound', hdone', horders⟩ :=
        ih hsound htimely' (Nat.lt_of_lt_of_le hlt (Nat.le_of_lt_succ hfuel))
      exact ⟨s', posts'', hfinish, hsound', hdone', horders.trans (s.orders_take s.nextTurn)⟩

end State

end MessageBroker.Demo
