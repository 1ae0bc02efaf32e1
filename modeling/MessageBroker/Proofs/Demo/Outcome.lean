import MessageBroker.Demo.Program
import MessageBroker.Proofs.Demo.Schedule

/-!
# The beginning and the end of the demo

When the workers have just been started, both queues are empty and both runs are about to look for a
message, so what holds throughout the demo holds there (`State.sound_create`). Once the demo is done,
it says what the counters of the broker and of the workers are, and which lines were logged last
(`State.Sound.exact`).
-/

namespace MessageBroker.Demo

open Broker Fleet

namespace Role

/-- The handler of the worker. -/
def handler (failEvery : Nat) : Role → Handler
  | .notifier => ⟨fun _ m => notify failEvery m, none⟩
  | .auditor => ⟨fun _ m => audit m, some ⟨0⟩⟩

/-- The name of the worker's queue. -/
def queueName : Role → String
  | .notifier => Pipeline.notificationsName
  | .auditor => Pipeline.auditsName

/-- The leases after which the worker's queue gives an order up. -/
def leases : Role → Nat
  | .notifier => Pipeline.notificationLeases
  | .auditor => Pipeline.auditLeases

/-- An order can be leased twice at least. -/
theorem two_le_leases (role : Role) : 2 ≤ role.leases := by
  cases role <;> decide

/-- The post of the worker when it has just been started. -/
def opening (settings : Config.Settings) (failEvery : Nat) (role : Role) : Post where
  queue := .create role.queueName settings.queueDefaults.visibilityTimeout role.leases
    (some Pipeline.standard.deadLetters)
  worker := { Worker.create role.name role.queue (role.handler failEvery) settings.pollInterval with
    running := true }
  phase := .checking
  tries := 0

/-- The handlers fail as they should and do nothing else. -/
theorem obeys (failEvery : Nat) (role : Role) :
    Obeys (role.handler failEvery) (role.rejects failEvery) := by
  cases role with
  | notifier =>
    refine ⟨fun {m number tries} horder hcount calls => ?_, fun _ => rfl⟩
    show Suits (isFailing (rejectsEvery failEvery number) tries) (.acting (notify failEvery m))
    -- The handler tells the first lease by the retry count, the desk by the failures before it.
    have hfirst : m.retryCount = 1 ↔ tries = 0 := by omega
    rw [horder.notify_eq failEvery]
    cases hrejected : rejectsEvery failEvery number with
    | false =>
      rw [if_neg (by simp)]
      rfl
    | true =>
      by_cases htries : tries = 0
      · subst htries
        rw [if_pos ⟨rfl, hfirst.mpr rfl⟩]
        exact ⟨_, rfl⟩
      · have hnot : isFailing true tries = false := by
          simp [isFailing, htries]
        rw [if_neg fun hand => htries (hfirst.mp hand.2), hnot]
        rfl
  | auditor =>
    refine ⟨fun {m number tries} horder _ calls => ?_, fun h => ?_⟩
    · show Suits false (.acting (audit m))
      rw [horder.audit_eq]
      rfl
    · cases h

end Role

/-- The demo begins soundly. -/
theorem State.sound_create (settings : Config.Settings) {orders : Nat}
    (horders : orders ≤ greatestNumber) (failEvery : Nat) (clock : Clock) :
    (State.create settings orders failEvery clock).Sound settings.pollInterval failEvery
      (Role.opening settings failEvery) := by
  have hwired : Wired (State.create settings orders failEvery clock).fleet.broker :=
    ⟨rfl, ⟨_, rfl, rfl⟩, rfl, _, rfl, rfl⟩
  refine ⟨rfl, horders, ⟨hwired, rfl, fun role => ?_, fun role => ?_⟩, ?_⟩
  · cases role <;> exact ⟨rfl, rfl, rfl⟩
  · exact {
      position := .free rfl
      accounted := rfl
      received := rfl
      noneLost := rfl
      budget := role.two_le_leases
      queue := rfl
      name := rfl
      pollInterval := rfl
      handler := role.obeys failEvery
      processed := rfl
      failed := (rejections_zero (role.rejects failEvery)).symm }
  · exact ⟨⟨Nat.le_refl _, Nat.le_add_left _ _⟩, fun role => ⟨rfl, rfl, rfl⟩⟩

/-! ## The end -/

/-- The counters of the broker after so many orders: all of them were put in both queues and
acknowledged there, and none was given up. -/
def exactStats (orders : Nat) : BrokerStats where
  topicCount := 1
  queueCount := 3
  queues := .ofList [
    ("audit", ⟨orders, orders, 0, 0⟩),
    ("dead-letters", ⟨0, 0, 0, 0⟩),
    ("notifications", ⟨orders, orders, 0, 0⟩)]

/-- The line that says what a worker has done in the end. -/
def finalLine (worker : String) (processed failed : Nat) : LogLine :=
  .info "worker finished" [
    ("worker", worker),
    ("processed", LogLine.countText processed),
    ("failed", LogLine.countText failed)]

/-- The demo has dealt with so many orders, of which every k-th one failed once: so the counters of
the broker say, and the counters of both workers, and the last two lines of the log. -/
structure State.Exact (s : State) (orders failEvery : Nat) : Prop where
  stats : s.fleet.broker.stats = exactStats orders
  notifier : ∃ w, s.fleet.worker? s.pipeline.notifier = some w ∧ w.name = "notification-worker" ∧
    w.processed = orders ∧ w.failed = orders / failEvery
  auditor : ∃ w, s.fleet.worker? s.pipeline.auditor = some w ∧ w.name = "audit-worker" ∧
    w.processed = orders ∧ w.failed = 0
  reports : ∃ earlier, s.log.reverse = earlier ++
    [finalLine "notification-worker" orders (orders / failEvery), finalLine "audit-worker" orders 0]

/-- The stats of a queue that has dealt with all orders. -/
theorem Post.Sound.stats {d : Desk} {arrived : Nat} {p : Post} (h : p.Sound d arrived)
    (hdealt : p.queue.processed = arrived) : p.queue.stats = ⟨arrived, arrived, 0, 0⟩ := by
  unfold Queue.stats Queue.size
  rw [h.received, hdealt, h.noneLost, h.dealt_iff.mp hdealt]
  rfl

/-- The counters of the broker by those of its three queues. -/
theorem Wired.stats_eq {b : Broker} (h : Wired b) {audits notifications : Queue}
    (haudits : b.queue? Pipeline.standard.audits = some audits)
    (hnotifications : b.queue? Pipeline.standard.notifications = some notifications) :
    b.stats = ⟨1, 3, .ofList [
      ("audit", audits.stats),
      ("dead-letters", ⟨0, 0, 0, 0⟩),
      ("notifications", notifications.stats)]⟩ := by
  obtain ⟨letters, hletters, hnone⟩ := h.deadLetters
  have hsize : b.queueNames.size = 3 := by
    unfold NameTable.size
    rw [h.queues]
    rfl
  unfold Broker.stats
  rw [h.topics, hsize, h.queues]
  simp only [List.filterMap_cons, haudits, hletters, hnotifications, Option.map_some, hnone]
  rfl

/-- Both workers have reported how often they failed. -/
theorem rejections_role (failEvery orders : Nat) :
    rejections (Role.notifier.rejects failEvery) orders = orders / failEvery ∧
      rejections (Role.auditor.rejects failEvery) orders = 0 :=
  ⟨rejections_rejectsEvery failEvery orders, rejections_none orders⟩

/-- Once the demo is done, its counters and its last lines are exact. -/
theorem State.Sound.exact {poll : Span} {failEvery : Nat} {s : State} {posts : Role → Post}
    (h : s.Sound poll failEvery posts) (hdone : s.progress = .done) :
    s.Exact s.orders failEvery := by
  obtain ⟨hpipeline, -, hstaffed, hagrees⟩ := h
  rw [hdone] at hstaffed hagrees
  obtain ⟨hdealt, -, earlier, hlog⟩ := hagrees
  obtain ⟨hnotifier, hauditor⟩ := rejections_role failEvery s.orders
  have hsound : ∀ role : Role, (posts role).Sound (role.desk poll failEvery) s.orders :=
    hstaffed.sound
  have hworker : ∀ role : Role, ∃ w, s.fleet.worker? role.worker = some w ∧ w.name = role.name ∧
      w.processed = s.orders ∧ w.failed = rejections (role.rejects failEvery) s.orders := by
    intro role
    have hrole := hsound role
    refine ⟨_, hstaffed.worker role, hrole.name, hrole.processed.trans (hdealt role), ?_⟩
    rw [hrole.failed, hrole.tries_of_dealt (hdealt role), hdealt role]
    rfl
  refine ⟨?_, ?_, ?_, earlier.reverse, ?_⟩
  · rw [hstaffed.wired.stats_eq (hstaffed.queue .auditor) (hstaffed.queue .notifier),
      (hsound .auditor).stats (hdealt .auditor), (hsound .notifier).stats (hdealt .notifier)]
    rfl
  · rw [hpipeline, ← hnotifier]
    exact hworker .notifier
  · rw [hpipeline, ← hauditor]
    exact hworker .auditor
  · rw [hlog, List.reverse_cons, List.reverse_cons, List.append_assoc]
    unfold Role.report
    rw [hnotifier, hauditor]
    rfl

/-! ## The whole demo -/

namespace State

/-- Turns keep the number of orders. -/
theorem orders_takeAll (s : State) (turns : List Turn) : (s.takeAll turns).orders = s.orders := by
  induction turns generalizing s with
  | nil => rfl
  | cons turn rest ih => exact (ih (s.take turn)).trans (s.orders_take turn)

/-- The schedule is one of the possible runs. -/
theorem exists_takeAll_of_finish {fuel : Nat} {s s' : State} (h : s.finish fuel = some s') :
    ∃ turns, s.takeAll turns = s' := by
  induction fuel generalizing s with
  | zero => cases h
  | succ fuel ih =>
    unfold finish at h
    split at h
    · exact ⟨[], Option.some.inj h⟩
    · obtain ⟨turns, hturns⟩ := ih h
      exact ⟨s.nextTurn :: turns, hturns⟩

/-- The orders that there are to publish. -/
theorem orders_create (settings : Config.Settings) (orders failEvery : Nat) (clock : Clock) :
    (State.create settings orders failEvery clock).orders = orders := rfl

/-- The turns that are granted are enough. -/
theorem left_create_lt (settings : Config.Settings) (orders failEvery : Nat) (clock : Clock) :
    (State.create settings orders failEvery clock).left (Role.opening settings failEvery) <
      turnsNeeded orders := by
  show 4 * (orders + 1 - 1) + 28 + (8 * (orders - 0) - 4 * 0 + 1) + (8 * (orders - 0) - 4 * 0 + 1) <
    20 * orders + 50
  omega

end State

/-- The program runs the demo with the arguments and the settings that it is given. -/
theorem run_eq_work {w : World} {a : Arguments} {settings : Config.Settings}
    (harguments : Request.ofArguments w.arguments = .ok (.run a))
    (hload : Config.Settings.load w.files a.config (Program.environment w) = .ok settings) :
    Program.run w = Program.work a settings w.clock := by
  unfold Program.run
  rw [harguments]
  dsimp only
  rw [hload]

/-- The demo that is done in time shows its log and its counters. -/
theorem work_eq_finished {a : Arguments} {settings : Config.Settings} {clock : Clock} {s : State}
    (h : (State.create settings a.orders a.failEvery clock).finish (State.turnsNeeded a.orders) =
      some s) :
    Program.work a settings clock =
      .finished (Program.shownLines s (Program.level a settings)) s.fleet.broker.stats := by
  unfold Program.work
  dsimp only
  rw [h]
  rfl

/-- A command line for three orders, every second one of which is rejected once. -/
def threeOrders : World where
  arguments := ["--orders", "3", "--fail-every=2"]
  environment := []
  files := []
  clock := ⟨.first, .zero⟩

end MessageBroker.Demo
