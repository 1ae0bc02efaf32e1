import MessageBroker.Proofs.Broker.Copies
import MessageBroker.Proofs.Consumer.Loops
import MessageBroker.Proofs.Demo.Orders

/-!
# One worker of the demo at its queue

A desk is a queue of the demo with the one worker that consumes it. Its orders come in by number and
none is hidden from the worker, so it deals with them one after the other: an order that is rejected
fails at its first lease, is given back, and stays in front for the second one, which is below the
budget of both queues. `Post.Sound` says how the counters of the queue and the worker, the messages
in line and the phase of the run fit together. `Post.Step` lists what the next step of the run does
at a sound post, `Desk.Holds.exists_step` says that it does one of these and touches nothing beyond the
desk, and `Post.Step.sound` that the post stays sound.
-/

namespace MessageBroker.Demo

open Broker Fleet

/-! ## Messages in line -/

/-- The orders behind a number stand in line in order of number, none of them leased so far. -/
def InLine : Nat → List Message → Prop
  | _, [] => True
  | number, m :: rest =>
    (IsOrder m (number + 1) ∧ m.retryCount = 0 ∧ m.hiddenUntil = none) ∧ InLine (number + 1) rest

/-- The next order comes last. -/
theorem InLine.concat {number : Nat} {line : List Message} (h : InLine number line) {m : Message}
    (horder : IsOrder m (number + line.length + 1)) (hcount : m.retryCount = 0)
    (hvisible : m.hiddenUntil = none) : InLine number (line ++ [m]) := by
  induction line generalizing number with
  | nil => exact ⟨⟨horder, hcount, hvisible⟩, trivial⟩
  | cons first rest ih =>
    have hnumber : number + (first :: rest).length + 1 = number + 1 + rest.length + 1 := by
      rw [List.length_cons]
      omega
    exact ⟨h.1, ih h.2 (hnumber ▸ horder)⟩

/-! ## Desks -/

/-- A queue with its worker and the worker's run. The orders with the numbers that it rejects fail
once. -/
structure Desk where
  queue : QueueRef
  worker : WorkerRef
  run : RunRef
  name : String
  pollInterval : Span
  rejects : Nat → Bool

/-- What there is at a desk: the queue, the worker, the phase of its run, and how often the order in
front has failed. -/
structure Post where
  queue : Queue
  worker : Worker
  phase : Phase
  tries : Nat

/-- The run handles no message. -/
def isIdle : Phase → Bool
  | .handling _ => false
  | _ => true

/-- A call of a handler is to fail: that of a rejected order which has not failed before. -/
def isFailing (rejected : Bool) (tries : Nat) : Bool := rejected && tries == 0

/-- The handling of a message can stand at a stage, if it is to fail, or else to succeed. -/
def Suits (failing : Bool) : Stage → Prop
  | .guarding => True
  | .acting todo => if failing then ∃ reason, todo = [.fail reason] else todo = []
  | .paused _ _ => False
  | .marking => failing = false
  | .settling failure _ => failure.isSome = failing

/-- A call with nothing to do is no failing one. -/
theorem not_failing_of_suits {failing : Bool} (h : Suits failing (.acting [])) :
    failing = false := by
  cases failing with
  | false => rfl
  | true =>
    obtain ⟨reason, hreason⟩ := h
    cases hreason

/-- A call with something to do is a failing one, and that is all it does. -/
theorem failing_of_suits {failing : Bool} {action : Action} {todo : List Action}
    (h : Suits failing (.acting (action :: todo))) :
    failing = true ∧ ∃ reason, action :: todo = [.fail reason] := by
  cases failing with
  | false => cases h
  | true => exact ⟨rfl, h⟩

/-- The handler fails at the first lease of rejected orders and does nothing else. Skipping a call
would be no failure, so a handler that rejects orders has no guard. -/
structure Obeys (h : Handler) (rejects : Nat → Bool) : Prop where
  plan : ∀ {m number tries}, IsOrder m number → m.retryCount = tries + 1 → ∀ calls,
    Suits (isFailing (rejects number) tries) (.acting (h.plan calls m))
  unguarded : ∀ {number}, rejects number = true → h.guard = none

/-- A guarded handler rejects no order. -/
theorem Obeys.accepts {h : Handler} {rejects : Nat → Bool} (hobeys : Obeys h rejects)
    {store : StoreRef} (hguard : h.guard = some store) (number : Nat) : rejects number = false := by
  refine Bool.eq_false_iff.mpr fun hrejected => ?_
  rw [hobeys.unguarded hrejected] at hguard
  cases hguard

/-- Where a run stands that has dealt with some orders, and has failed at the next one so often. -/
inductive Position (rejects : Nat → Bool) (dealt : Nat) : Nat → List Message → Phase → Prop where
  /-- No order is there. -/
  | free {phase : Phase} (hidle : isIdle phase = true) : Position rejects dealt 0 [] phase
  /-- The next order is in front, free to be leased. -/
  | facing {tries : Nat} {m : Message} {rest : List Message} {phase : Phase}
    (horder : IsOrder m (dealt + 1)) (hcount : m.retryCount = tries)
    (hvisible : m.hiddenUntil = none) (hline : InLine (dealt + 1) rest)
    (htries : tries = 0 ∨ tries = 1 ∧ rejects (dealt + 1) = true) (hidle : isIdle phase = true) :
    Position rejects dealt tries (m :: rest) phase
  /-- The next order is in front and is being handled. -/
  | handling {tries : Nat} {m : Message} {rest : List Message} {began : Span} {stage : Stage}
    {handle : Ident} (horder : IsOrder m (dealt + 1)) (hcount : m.retryCount = tries + 1)
    (hreceipt : m.receipt = some handle) (hline : InLine (dealt + 1) rest)
    (htries : tries = 0 ∨ tries = 1 ∧ rejects (dealt + 1) = true)
    (hstage : Suits (isFailing (rejects (dealt + 1)) tries) stage) :
    Position rejects dealt tries (m :: rest) (.handling ⟨m, began, stage⟩)

/-- The post is that of a desk where so many orders have arrived: all of them have been dealt with
or are in line, and the counters say how they went. -/
structure Post.Sound (d : Desk) (arrived : Nat) (p : Post) : Prop where
  position : Position d.rejects p.queue.processed p.tries p.queue.messages p.phase
  accounted : p.queue.processed + p.queue.messages.length = arrived
  received : p.queue.received = arrived
  noneLost : p.queue.failed = 0
  budget : 2 ≤ p.queue.maxRetries
  queue : p.worker.queue = d.queue
  name : p.worker.name = d.name
  pollInterval : p.worker.pollInterval = d.pollInterval
  handler : Obeys p.worker.handler d.rejects
  processed : p.worker.processed = p.queue.processed
  failed : p.worker.failed = rejections d.rejects p.queue.processed + p.tries

/-- The post stands at the desk. -/
structure Desk.Holds (d : Desk) (f : Fleet) (p : Post) : Prop where
  queue : f.broker.queue? d.queue = some p.queue
  worker : f.worker? d.worker = some p.worker
  run : f.run? d.run = some ⟨d.worker, p.phase⟩

/-- Nothing beyond the desk has changed, except for the stores. -/
structure Desk.Alone (d : Desk) (f f' : Fleet) : Prop where
  queue? : ∀ ref, ref ≠ d.queue → f'.broker.queue? ref = f.broker.queue? ref
  worker? : ∀ ref, ref ≠ d.worker → f'.worker? ref = f.worker? ref
  run? : ∀ ref, ref ≠ d.run → f'.run? ref = f.run? ref
  runs : f'.runs.length = f.runs.length
  objects : SameObjects f.broker f'.broker
  clock : f'.clock = f.clock

/-- A desk with another queue, worker and run keeps its post. -/
theorem Desk.Alone.holds {d other : Desk} {f f' : Fleet} (h : d.Alone f f')
    (hqueue : other.queue ≠ d.queue) (hworker : other.worker ≠ d.worker) (hrun : other.run ≠ d.run)
    {p : Post} (hp : other.Holds f p) : other.Holds f' p where
  queue := (h.queue? _ hqueue).trans hp.queue
  worker := (h.worker? _ hworker).trans hp.worker
  run := (h.run? _ hrun).trans hp.run

/-- A change to the queue, the worker and the phase of a desk. -/
theorem Desk.Holds.update {d : Desk} {f g : Fleet} {p : Post} (h : d.Holds f p)
    (hothers : g.workers = f.workers ∧ g.runs = f.runs) (hclock : g.clock = f.clock) {q : Queue}
    (hchange : Changes f.broker g.broker d.queue p.queue q) (w : Worker) (phase : Phase)
    (tries : Nat) :
    d.Holds ((g.setWorker d.worker w).setPhase d.run phase) ⟨q, w, phase, tries⟩ ∧
      d.Alone f ((g.setWorker d.worker w).setPhase d.run phase) := by
  obtain ⟨hworkers, hruns⟩ := hothers
  have hworker : g.worker? d.worker = some p.worker := by
    unfold Fleet.worker?
    rw [hworkers]
    exact h.worker
  have hrun : ∀ ref, (g.setWorker d.worker w).run? ref = f.run? ref := by
    intro ref
    show g.runs[ref.index]? = f.runs[ref.index]?
    rw [hruns]
  constructor
  · refine ⟨(hchange.queue? _).trans (if_pos rfl), ?_, ?_⟩
    · exact (worker?_setWorker hworker w _).trans (if_pos rfl)
    · rw [run?_setPhase, if_pos rfl, hrun, h.run]
      rfl
  · refine ⟨fun ref hne => (hchange.queue? ref).trans (if_neg hne), fun ref hne => ?_,
      fun ref hne => ?_, ?_, hchange.sameObjects, hclock⟩
    · have hother : g.worker? ref = f.worker? ref := by
        unfold Fleet.worker?
        rw [hworkers]
      exact ((worker?_setWorker hworker w ref).trans (if_neg hne)).trans hother
    · rw [run?_setPhase, if_neg hne, hrun]
    · show (g.runs.modify _ _).length = _
      rw [List.length_modify, hruns]

/-! ## Steps -/

/-- How the handling of an order goes on that is rejected or not, and has failed so often. -/
inductive Advance (rejected : Bool) (tries : Nat) : Stage → Stage → Prop where
  | skips {elapsed : Span} (hnot : rejected = false) :
    Advance rejected tries .guarding (.settling none elapsed)
  | calls {todo : List Action} (hsuits : Suits (isFailing rejected tries) (.acting todo)) :
    Advance rejected tries .guarding (.acting todo)
  | fails {todo : List Action} {reason : String} {elapsed : Span}
    (hfailing : isFailing rejected tries = true) :
    Advance rejected tries (.acting todo) (.settling (some reason) elapsed)
  | succeeds {todo : List Action} {elapsed : Span} (hnot : isFailing rejected tries = false) :
    Advance rejected tries (.acting todo) (.settling none elapsed)
  | marks {todo : List Action} (hnot : rejected = false) :
    Advance rejected tries (.acting todo) .marking
  | marked {elapsed : Span} (hnot : isFailing rejected tries = false) :
    Advance rejected tries .marking (.settling none elapsed)

/-- The next stage suits the call. -/
theorem Advance.suits {rejected : Bool} {tries : Nat} {stage stage' : Stage}
    (h : Advance rejected tries stage stage') : Suits (isFailing rejected tries) stage' := by
  cases h with
  | skips hnot =>
    rw [hnot]
    rfl
  | calls hsuits => exact hsuits
  | fails hfailing => exact hfailing.symm
  | succeeds hnot | marked hnot => exact hnot.symm
  | marks hnot =>
    rw [hnot]
    rfl

/-- What the next step of the run does at a post, when the monotonic clock has that reading. -/
inductive Post.Step (d : Desk) (now : Span) : Post → Post → Prop where
  | ends {q : Queue} {w : Worker} {tries : Nat} (hsignal : (w.cancelled || w.stopped) = true) :
    Step d now ⟨q, w, .checking, tries⟩
      ⟨q, { w with running := false }, .ended (.ofSignal w.cancelled), tries⟩
  | waits {q : Queue} {w : Worker} {tries : Nat} (hsignal : (w.cancelled || w.stopped) = false)
    (hempty : q.messages = []) :
    Step d now ⟨q, w, .checking, tries⟩ ⟨q, w, .polling (now + w.pollInterval), tries⟩
  | leases {q : Queue} {w : Worker} {tries : Nat} {m : Message} {rest : List Message}
    {handle : Ident} {deadline : Instant} (hsignal : (w.cancelled || w.stopped) = false)
    (hmessages : q.messages = m :: rest) :
    Step d now ⟨q, w, .checking, tries⟩
      ⟨{ q with messages := m.leased handle deadline :: rest }, w,
        .handling ⟨m.leased handle deadline, now, .guarding⟩, tries⟩
  | proceeds {q : Queue} {w w' : Worker} {tries calls : Nat} {m : Message} {began : Span}
    {stage stage' : Stage} {log : List Event}
    (hadvance : Advance (d.rejects (q.processed + 1)) tries stage stage')
    (hworker : w' = { w with calls := calls, log := log }) :
    Step d now ⟨q, w, .handling ⟨m, began, stage⟩, tries⟩
      ⟨q, w', .handling ⟨m, began, stage'⟩, tries⟩
  | acknowledges {q : Queue} {w : Worker} {tries : Nat} {m : Message} {rest : List Message}
    {began elapsed : Span} (hmessages : q.messages = m :: rest) :
    Step d now ⟨q, w, .handling ⟨m, began, .settling none elapsed⟩, tries⟩
      ⟨{ q with messages := rest, processed := q.processed + 1 },
        { w with processed := w.processed + 1, processTime := w.processTime + elapsed },
        .checking, 0⟩
  | givesBack {q : Queue} {w : Worker} {tries : Nat} {m : Message} {rest : List Message}
    {began elapsed : Span} {reason : String} (hmessages : q.messages = m :: rest) :
    Step d now ⟨q, w, .handling ⟨m, began, .settling (some reason) elapsed⟩, tries⟩
      ⟨{ q with messages := m.released :: rest }, { w with failed := w.failed + 1 },
        .checking, tries + 1⟩

/-- The first orders in line are the next ones. -/
theorem InLine.position {rejects : Nat → Bool} {dealt : Nat} {line : List Message}
    (h : InLine dealt line) {phase : Phase} (hidle : isIdle phase = true) :
    Position rejects dealt 0 line phase := by
  cases line with
  | nil => exact .free hidle
  | cons m rest =>
    obtain ⟨⟨horder, hcount, hvisible⟩, hline⟩ := h
    exact .facing horder hcount hvisible hline (.inl rfl) hidle

/-- A run that handles no message can do so in any other way. -/
theorem Position.idle {rejects : Nat → Bool} {dealt tries : Nat} {line : List Message}
    {phase phase' : Phase} (h : Position rejects dealt tries line phase)
    (hidle : isIdle phase = true) (hidle' : isIdle phase' = true) :
    Position rejects dealt tries line phase' := by
  cases h with
  | free => exact .free hidle'
  | facing horder hcount hvisible hline htries =>
    exact .facing horder hcount hvisible hline htries hidle'
  | handling => cases hidle

/-- A run that handles no message has the next order in front, free to be leased, or nothing. -/
theorem Position.cases_of_idle {rejects : Nat → Bool} {dealt tries : Nat} {line : List Message}
    {phase : Phase} (h : Position rejects dealt tries line phase) (hidle : isIdle phase = true) :
    (line = [] ∧ tries = 0) ∨
      ∃ m rest, line = m :: rest ∧ IsOrder m (dealt + 1) ∧ m.retryCount = tries ∧
        m.hiddenUntil = none ∧ InLine (dealt + 1) rest ∧
        (tries = 0 ∨ tries = 1 ∧ rejects (dealt + 1) = true) := by
  cases h with
  | free => exact .inl ⟨rfl, rfl⟩
  | facing horder hcount hvisible hline htries =>
    exact .inr ⟨_, _, rfl, horder, hcount, hvisible, hline, htries⟩
  | handling => cases hidle

/-- A run that handles a message handles the one in front. -/
theorem Position.exists_of_handling {rejects : Nat → Bool} {dealt tries : Nat}
    {line : List Message} {m : Message} {began : Span} {stage : Stage}
    (h : Position rejects dealt tries line (.handling ⟨m, began, stage⟩)) :
    ∃ rest handle, line = m :: rest ∧ IsOrder m (dealt + 1) ∧ m.retryCount = tries + 1 ∧
      m.receipt = some handle ∧ InLine (dealt + 1) rest ∧
      (tries = 0 ∨ tries = 1 ∧ rejects (dealt + 1) = true) ∧
      Suits (isFailing (rejects (dealt + 1)) tries) stage := by
  cases h with
  | free hidle | facing _ _ _ _ _ hidle => cases hidle
  | handling horder hcount hreceipt hline htries hstage =>
    exact ⟨_, _, rfl, horder, hcount, hreceipt, hline, htries, hstage⟩

/-- A rejected order that is to fail has not failed so far. -/
theorem tries_of_failing {rejected : Bool} {tries : Nat} (h : isFailing rejected tries = true) :
    rejected = true ∧ tries = 0 := by
  unfold isFailing at h
  simpa using h

/-- An order that succeeds has failed before if it is rejected. -/
theorem tries_of_succeeding {rejected : Bool} {tries : Nat} (h : isFailing rejected tries = false)
    (htries : tries = 0 ∨ tries = 1 ∧ rejected = true) : (if rejected then 1 else 0) = tries := by
  rcases htries with rfl | ⟨rfl, rfl⟩
  · cases rejected with
    | false => rfl
    | true => cases h
  · rfl

/-- An order that has failed once at most is leased for the next time. -/
theorem nextCount_of_few {m : Message} {tries : Nat} {p : Prop} (hcount : m.retryCount = tries)
    (htries : tries = 0 ∨ tries = 1 ∧ p) : m.nextCount = tries + 1 := by
  have hlt : m.retryCount < Message.greatestCount := by
    unfold Message.greatestCount
    omega
  rw [Message.nextCount_of_lt hlt, hcount]

/-- A step leaves a sound post. -/
theorem Post.Step.sound {d : Desk} {now : Span} {p p' : Post} (h : p.Step d now p') {arrived : Nat}
    (hs : p.Sound d arrived) : p'.Sound d arrived := by
  have hposition := hs.position
  have haccounted := hs.accounted
  cases h with
  | ends | waits => exact { hs with position := hposition.idle rfl rfl }
  -- The order in front is leased once more, and so far it has been leased as often as it failed.
  | leases _ hmessages =>
    rcases hposition.cases_of_idle rfl with
      ⟨hempty, -⟩ | ⟨m, rest, hline', horder, hcount, -, hline, htries⟩
    · exact absurd (hmessages.symm.trans hempty) (List.cons_ne_nil _ _)
    · obtain ⟨rfl, rfl⟩ := List.cons.inj (hmessages.symm.trans hline')
      have hfew := nextCount_of_few hcount htries
      refine { hs with
        position := .handling (horder.of_payload rfl) hfew rfl hline htries trivial
        accounted := ?_ }
      rw [← haccounted, hmessages]
      rfl
  | proceeds hadvance hworker =>
    subst hworker
    obtain ⟨rest, handle, hmessages, horder, hcount, hreceipt, hline, htries, -⟩ :=
      hposition.exists_of_handling
    refine { hs with position := ?_ }
    dsimp only at hmessages ⊢
    rw [hmessages]
    exact .handling horder hcount hreceipt hline htries hadvance.suits
  -- The next order comes to the front, and what its predecessor failed is counted for good.
  | acknowledges hmessages =>
    obtain ⟨rest, handle, hline', -, -, -, hline, htries, hstage⟩ := hposition.exists_of_handling
    obtain rfl := (List.cons.inj (hmessages.symm.trans hline')).2
    refine { hs with
      position := hline.position rfl
      accounted := ?_
      processed := congrArg (· + 1) hs.processed
      failed := ?_ }
    · dsimp only at haccounted ⊢
      rw [← haccounted, hmessages, List.length_cons]
      omega
    · have hfailed := hs.failed
      have htimes := tries_of_succeeding hstage.symm htries
      rw [rejections_succ, htimes]
      exact hfailed
  -- Only the first call of a rejected order fails, so this was its first failure.
  | givesBack hmessages =>
    obtain ⟨rest, handle, hline', horder, hcount, -, hline, -, hstage⟩ :=
      hposition.exists_of_handling
    obtain rfl := (List.cons.inj (hmessages.symm.trans hline')).2
    obtain ⟨hrejected, rfl⟩ := tries_of_failing hstage.symm
    refine { hs with
      position := .facing (horder.of_payload rfl) hcount rfl hline (.inr ⟨rfl, hrejected⟩) rfl
      accounted := ?_
      failed := congrArg (· + 1) hs.failed }
    rw [← haccounted, hmessages]
    rfl

/-- A free order in front is visible at any time. -/
theorem visibleAt_of_visible {m : Message} (h : m.hiddenUntil = none) (now : Instant) :
    m.VisibleAt now := by
  intro deadline hdeadline
  rw [h] at hdeadline
  cases hdeadline

/-- What a check finds at a sound post: the order in front, or nothing. -/
theorem Desk.Holds.receive_cases {d : Desk} {f : Fleet} {p : Post} (h : d.Holds f p) {arrived : Nat}
    (hs : p.Sound d arrived) (hphase : p.phase = .checking) (now : Instant) :
    (p.queue.messages = [] ∧ f.broker.receive d.queue now = (none, f.broker)) ∨
    ∃ m rest handle deadline b, p.queue.messages = m :: rest ∧
      f.broker.receive d.queue now = (some (m.leased handle deadline), b) ∧
      Changes f.broker b d.queue p.queue
        { p.queue with messages := m.leased handle deadline :: rest } := by
  rcases hs.position.cases_of_idle (by rw [hphase]; rfl) with
    ⟨hempty, -⟩ | ⟨m, rest, hmessages, -, -, hvisible, -, -⟩
  · refine .inl ⟨hempty, receive_eq_none fun m hm => ?_⟩
    rw [contents_of_queue? h.queue, hempty] at hm
    cases hm
  · have hsplit : p.queue.messages = [] ++ m :: rest := hmessages
    obtain ⟨b, hreceive, hchange⟩ := receive_changes h.queue hsplit
      (fun x hx => absurd hx List.not_mem_nil) (visibleAt_of_visible hvisible now)
    exact .inr ⟨m, rest, _, _, b, hmessages, hreceive, hchange⟩

/-- A leased message is settled under its handle. -/
theorem handle_of_receipt {m : Message} {handle : Ident} (h : m.receipt = some handle) :
    m.handle = handle := by
  unfold Message.handle
  rw [h]
  rfl

section Settling

variable {f : Fleet} {ref : QueueRef} {q : Queue} {m : Message} {rest : List Message}
  {handle : Ident} (hq : f.broker.queue? ref = some q) (hmessages : q.messages = m :: rest)
  (hreceipt : m.receipt = some handle)
include hq hmessages hreceipt

/-- An acknowledge of the message in front is accepted. -/
theorem settle_acknowledge : f.broker.settle ref m.handle .acknowledge =
    .ok (f.broker.setQueue ref { q with messages := rest, processed := q.processed + 1 }) := by
  have hsplit : q.messages = [] ++ m :: rest := hmessages
  rw [handle_of_receipt hreceipt]
  exact acknowledge_eq_ok hq hsplit (fun x hx => absurd hx List.not_mem_nil) hreceipt

/-- A nack of the message in front, below the budget, is accepted and leaves it there. -/
theorem settle_nack (hlt : m.retryCount < q.maxRetries) : f.broker.settle ref m.handle .nack =
    .ok (f.broker.setQueue ref { q with messages := m.released :: rest }) := by
  have hsplit : q.messages = [] ++ m :: rest := hmessages
  rw [handle_of_receipt hreceipt]
  exact nack_eq_release hq hsplit (fun x hx => absurd hx List.not_mem_nil) hreceipt hlt

end Settling

/-- A desk's queue that stays as it is. -/
theorem Desk.Holds.unchanged {d : Desk} {f : Fleet} {p : Post} (h : d.Holds f p) :
    Changes f.broker f.broker d.queue p.queue p.queue := by
  have hset := changes_setQueue h.queue p.queue rfl
  rwa [setQueue_self h.queue] at hset

/-- What the settlement after a call does at a sound post. -/
theorem Desk.Holds.exists_settling {d : Desk} {f : Fleet} {q : Queue} {w : Worker} {m : Message}
    {began elapsed : Span} {failure : Option String} {tries : Nat}
    (h : d.Holds f ⟨q, w, .handling ⟨m, began, .settling failure elapsed⟩, tries⟩) {arrived : Nat}
    (hs : Post.Sound d arrived ⟨q, w, .handling ⟨m, began, .settling failure elapsed⟩, tries⟩) :
    ∃ q' tries', Post.Step d f.clock.uptime
        ⟨q, w, .handling ⟨m, began, .settling failure elapsed⟩, tries⟩
        ⟨q', w.counted failure elapsed (f.broker.accepts w.queue m.handle (.after failure)),
          .checking, tries'⟩ ∧
      Changes f.broker (f.broker.orUnchanged (f.broker.settle w.queue m.handle (.after failure)))
        d.queue q q' := by
  have hqueue : w.queue = d.queue := hs.queue
  have hbudget : 2 ≤ q.maxRetries := hs.budget
  obtain ⟨rest, handle, hmessages, -, hcount, hreceipt, -, -, hstage⟩ :=
    hs.position.exists_of_handling
  rw [hqueue]
  cases failure with
  | none =>
    have hsettle := settle_acknowledge h.queue hmessages hreceipt
    refine ⟨{ q with messages := rest, processed := q.processed + 1 }, 0, ?_, ?_⟩
    · unfold Broker.accepts Settlement.after
      rw [hsettle]
      exact .acknowledges hmessages
    · unfold Settlement.after
      rw [hsettle]
      exact changes_setQueue h.queue _ rfl
  | some reason =>
    obtain ⟨-, rfl⟩ := tries_of_failing hstage.symm
    -- The order has been leased once, which is below the budget: it goes back into the line.
    have hlt : m.retryCount < q.maxRetries := by
      rw [hcount]
      exact hbudget
    have hsettle := settle_nack h.queue hmessages hreceipt hlt
    refine ⟨{ q with messages := m.released :: rest }, 1, .givesBack hmessages, ?_⟩
    unfold Settlement.after
    rw [hsettle]
    exact changes_setQueue h.queue _ rfl

/-- What a step of the run of a sound post does to its queue. -/
theorem Desk.Holds.exists_step_of_effect {d : Desk} {f g : Fleet} {p : Post} (h : d.Holds f p)
    {arrived : Nat} (hs : p.Sound d arrived) {w : Worker} {phase : Phase}
    (heffect : f.Effect p.worker p.phase w phase g) :
    ∃ q tries, p.Step d f.clock.uptime ⟨q, w, phase, tries⟩ ∧
      Changes f.broker g.broker d.queue p.queue q ∧ g.clock = f.clock := by
  have hkeep := h.unchanged
  have hreceive := h.receive_cases hs
  have hqueue := hs.queue
  have hhandler := hs.handler
  have hposition := hs.position
  obtain ⟨q, w, phase, tries⟩ := p
  dsimp only at *
  cases heffect with
  | ends hsignal => exact ⟨q, tries, .ends hsignal, hkeep, rfl⟩
  | waits hsignal hrec =>
    rw [hqueue] at hrec
    rcases hreceive rfl f.clock.wall with ⟨hempty, hnone⟩ | ⟨_, _, _, _, _, _, hsome, _⟩
    · obtain ⟨-, rfl⟩ := Prod.mk.inj (hnone.symm.trans hrec)
      exact ⟨q, tries, .waits hsignal hempty, hkeep, rfl⟩
    · exact nomatch (Prod.mk.inj (hsome.symm.trans hrec)).1
  | leases hsignal hrec =>
    rw [hqueue] at hrec
    rcases hreceive rfl f.clock.wall with ⟨_, hnone⟩ | ⟨_, _, _, _, _, hmessages, hsome, hchange⟩
    · exact nomatch (Prod.mk.inj (hnone.symm.trans hrec)).1
    · obtain ⟨hm, rfl⟩ := Prod.mk.inj (hsome.symm.trans hrec)
      obtain rfl := Option.some.inj hm
      exact ⟨_, tries, .leases hsignal hmessages, hchange, rfl⟩
  | settles =>
    obtain ⟨q', tries', hstep, hchange⟩ := h.exists_settling hs
    exact ⟨q', tries', hstep, hchange, rfl⟩
  | skips hguard =>
    obtain ⟨store, hstore, -⟩ := (Option.any_eq_true _ _).mp hguard
    exact ⟨q, tries, .proceeds (.skips (hhandler.accepts hstore _)) rfl, hkeep, rfl⟩
  | calls hguard =>
    obtain ⟨-, -, -, horder, hcount, -, -, -, -⟩ := hposition.exists_of_handling
    exact ⟨q, tries, .proceeds (.calls (hhandler.plan horder hcount _)) rfl, hkeep, rfl⟩
  | succeeds hguard =>
    obtain ⟨-, -, -, -, -, -, -, -, hstage⟩ := hposition.exists_of_handling
    exact ⟨q, tries, .proceeds (.succeeds (not_failing_of_suits hstage)) rfl, hkeep, rfl⟩
  | succeedsGuarded hguard =>
    exact ⟨q, tries, .proceeds (.marks (hhandler.accepts hguard _)) rfl, hkeep, rfl⟩
  | fails =>
    obtain ⟨-, -, -, -, -, -, -, -, hstage⟩ := hposition.exists_of_handling
    exact ⟨q, tries, .proceeds (.fails (failing_of_suits hstage).1) rfl, hkeep, rfl⟩
  | marks | marksNothing =>
    obtain ⟨-, -, -, -, -, -, -, -, hstage⟩ := hposition.exists_of_handling
    exact ⟨q, tries, .proceeds (.marked hstage) rfl, hkeep, rfl⟩
  | _ =>
    -- A handler that obeys takes none of the other actions.
    obtain ⟨-, -, -, -, -, -, -, -, hstage⟩ := hposition.exists_of_handling
    obtain ⟨-, reason, hreason⟩ := failing_of_suits hstage
    cases hreason

/-- A step of the run of a sound post that can go on is one of those listed, and touches nothing
beyond the desk. -/
theorem Desk.Holds.exists_step {d : Desk} {f : Fleet} {p : Post} (h : d.Holds f p) {arrived : Nat}
    (hs : p.Sound d arrived) (hactive : p.phase.isActive = true) :
    ∃ p', p.Step d f.clock.uptime p' ∧ d.Holds (f.step d.run) p' ∧ d.Alone f (f.step d.run) := by
  obtain ⟨w, phase, g, heffect, hstep⟩ := exists_effect h.run h.worker hactive
  obtain ⟨q, tries, hpost, hchange, hclock⟩ := h.exists_step_of_effect hs heffect
  obtain ⟨hholds, halone⟩ := h.update heffect.others hclock hchange w phase tries
  rw [hstep]
  exact ⟨_, hpost, hholds, halone⟩

/-! ## What else happens at a desk -/

/-- The next order comes to the end of the line, whatever the run does. -/
theorem Position.concat {rejects : Nat → Bool} {dealt tries : Nat} {line : List Message}
    {phase : Phase} (h : Position rejects dealt tries line phase) {m : Message}
    (horder : IsOrder m (dealt + line.length + 1)) (hcount : m.retryCount = 0)
    (hvisible : m.hiddenUntil = none) : Position rejects dealt tries (line ++ [m]) phase := by
  have hbehind : ∀ {first : Message} {rest : List Message}, line = first :: rest →
      IsOrder m (dealt + 1 + rest.length + 1) := by
    rintro first rest rfl
    have hnumber : dealt + (first :: rest).length + 1 = dealt + 1 + rest.length + 1 := by
      rw [List.length_cons]
      omega
    exact hnumber ▸ horder
  cases h with
  | free hidle => exact .facing horder hcount hvisible trivial (.inl rfl) hidle
  | facing horder' hcount' hvisible' hline htries hidle =>
    exact .facing horder' hcount' hvisible' (hline.concat (hbehind rfl) hcount hvisible) htries
      hidle
  | handling horder' hcount' hreceipt hline htries hstage =>
    exact .handling horder' hcount' hreceipt (hline.concat (hbehind rfl) hcount hvisible) htries
      hstage

namespace Post.Sound

variable {d : Desk} {arrived : Nat} {p : Post} (hs : p.Sound d arrived)
include hs

/-- The next order arrives. -/
theorem enqueue {m : Message} (horder : IsOrder m (arrived + 1)) (hcount : m.retryCount = 0)
    (hvisible : m.hiddenUntil = none) :
    Post.Sound d (arrived + 1) { p with queue := p.queue.enqueue m } := by
  have haccounted := hs.accounted
  refine { hs with
    position := hs.position.concat (haccounted.symm ▸ horder) hcount hvisible
    accounted := ?_
    received := congrArg (· + 1) hs.received }
  show p.queue.processed + (p.queue.messages ++ [m]).length = arrived + 1
  rw [List.length_append, ← Nat.add_assoc, haccounted]
  rfl

/-- A run that waits for a reading of the clock has found no message. -/
theorem phase_of_wake {wake : Span} (hwake : p.phase.wake? = some wake) :
    p.phase = .polling wake := by
  have hposition := hs.position
  generalize p.phase = phase at hwake hposition
  cases phase with
  | polling other => exact congrArg Phase.polling (Option.some.inj hwake)
  | checking | ended => cases hwake
  | handling call =>
    obtain ⟨m, began, stage⟩ := call
    obtain ⟨-, -, -, -, -, -, -, -, hstage⟩ := hposition.exists_of_handling
    cases stage with
    | paused => exact hstage.elim
    | guarding | acting | marking | settling => cases hwake

/-- A run that has found no message looks again. -/
theorem awake (hidle : isIdle p.phase = true) :
    Post.Sound d arrived { p with phase := .checking } :=
  { hs with position := hs.position.idle hidle rfl }

/-- All orders that arrived are dealt with exactly if none is in line. -/
theorem dealt_iff : p.queue.processed = arrived ↔ p.queue.messages = [] := by
  have haccounted := hs.accounted
  rw [← List.length_eq_zero_iff]
  omega

/-- Once all orders are dealt with, no order has failed that was not given back. -/
theorem tries_of_dealt (h : p.queue.processed = arrived) : p.tries = 0 := by
  have hposition := hs.position
  rw [hs.dealt_iff.mp h] at hposition
  generalize p.tries = tries at hposition
  generalize p.phase = phase at hposition
  generalize hline : ([] : List Message) = line at hposition
  cases hposition with
  | free => rfl
  | facing | handling => cases hline

end Post.Sound

end MessageBroker.Demo
