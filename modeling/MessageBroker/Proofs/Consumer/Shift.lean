import Mathlib.Logic.Function.Basic
import MessageBroker.Proofs.Consumer.Effect
import MessageBroker.Proofs.Custody.Sound

/-!
# A fleet at work

A `Shift` is a fleet with the journal of its broker and with notes on what the loops of its workers
do. Its moves are the atomic steps of all who take part: a step of some run, a call on the broker by
anybody else, a signal to a worker or a start of one, the end of some waiting, the passing of time,
and the steps of *guests*, who call guarded handlers without a worker. Any order of moves is a run
of the machine, so other tasks may act between any two steps of a loop, and a nack may be
interrupted between its two halves (`halve`). What a move does to the fleet is what the fleet's own
functions do; the journal and the notes only record.

The executions of guarded handlers are noted apart. An execution has the place of its first note as
its number, and `execution` tells the number of the one a caller is in.

`Chronicle` is the part of a shift that the broker sees: `Reachable.chronicle` carries over all that
is known about the journal.
-/

namespace MessageBroker

open Broker Custody

/-! ## Notes -/

/-- Something that a loop of a worker does. -/
inductive Deed where
  /-- It checked the signals of its worker, and found these. -/
  | checked (cancelled stopped : Bool)
  | leased (message : Message)
  /-- It called the handler. -/
  | called (message : Message)
  /-- The handler returned. -/
  | returned (failure : Option String)
  /-- It tried to settle the message of that handle, and was accepted or refused. -/
  | settled (handle : Ident) (how : Settlement) (accepted : Bool)
  | ended (outcome : Outcome)
deriving DecidableEq

/-- A deed of some run of a worker, and the reading of the monotonic clock. -/
structure Note where
  worker : WorkerRef
  run : RunRef
  time : Span
  deed : Deed
deriving DecidableEq

/-- Somebody who calls guarded handlers: a run of a worker, or a guest. -/
inductive Caller where
  | run (run : RunRef)
  | guest (place : Nat)
deriving DecidableEq

/-- Something that happens to an execution of a guarded handler. -/
inductive GuardDeed where
  /-- The store did not count the id as processed: the handler begins to act. -/
  | admitted (store : StoreRef) (id : Ident)
  /-- The handler returned without an error. -/
  | succeeded (execution : Nat)
  /-- The id was marked in the store. -/
  | marked (execution : Nat)
deriving DecidableEq

/-- What happened to an execution, by whom, and the reading of the monotonic clock. -/
structure GuardNote where
  caller : Caller
  time : Span
  deed : GuardDeed
deriving DecidableEq

namespace Fleet

/-- What the next step of a run is noted as. -/
def deeds (f : Fleet) (w : Worker) : Phase → List Deed
  | .checking =>
    .checked w.cancelled w.stopped ::
      if w.cancelled || w.stopped then [.ended (.ofSignal w.cancelled)]
      else (f.broker.receive w.queue f.clock.wall).1.toList.map .leased
  | .handling ⟨m, _, .guarding⟩ =>
    .called m :: if w.handler.guard.any (f.isProcessed · m.id) then [.returned none] else []
  | .handling ⟨_, _, .acting []⟩ => if w.handler.guard.isSome then [] else [.returned none]
  | .handling ⟨_, _, .acting (.fail reason :: _)⟩ => [.returned (some reason)]
  | .handling ⟨_, _, .marking⟩ => [.returned none]
  | .handling ⟨m, _, .settling failure _⟩ =>
    [.settled m.handle (.after failure) (f.broker.accepts w.queue m.handle (.after failure))]
  | _ => []

section Deeds

variable {f : Fleet} {w : Worker} {m : Message} {began : Span}

/-- A check that finds a signal ends the loop. -/
theorem deeds_of_signal (hsignal : (w.cancelled || w.stopped) = true) :
    f.deeds w .checking =
      [.checked w.cancelled w.stopped, .ended (.ofSignal w.cancelled)] := by
  unfold deeds
  rw [if_pos hsignal]

/-- A check that finds no signal leases what is received. -/
theorem deeds_of_receive {result : Option Message} {b : Broker}
    (hsignal : (w.cancelled || w.stopped) = false)
    (hrec : f.broker.receive w.queue f.clock.wall = (result, b)) :
    f.deeds w .checking = .checked w.cancelled w.stopped :: result.toList.map .leased := by
  unfold deeds
  rw [if_neg (Bool.eq_false_iff.mp hsignal), hrec]

/-- A call returns at once if the guard skips it. -/
theorem deeds_of_guard {skip : Bool}
    (hguard : w.handler.guard.any (f.isProcessed · m.id) = skip) :
    f.deeds w (.handling ⟨m, began, .guarding⟩) =
      .called m :: if skip then [.returned none] else [] := by
  subst hguard
  rfl

/-- Behind its last action a handler returns, unless its guard has yet to mark the message. -/
theorem deeds_of_last {guard : Option StoreRef} (hguard : w.handler.guard = guard) :
    f.deeds w (.handling ⟨m, began, .acting []⟩) =
      if guard.isSome then [] else [.returned none] := by
  subst hguard
  rfl

end Deeds

/-- What the next step of a run is to the execution it is in, if its handler is guarded. -/
def guardDeed? (f : Fleet) (w : Worker) (execution : Nat) (phase : Phase) : Option GuardDeed :=
  w.handler.guard.bind fun store =>
    match phase with
    | .handling ⟨m, _, .guarding⟩ =>
      if f.isProcessed store m.id then none else some (.admitted store m.id)
    | .handling ⟨_, _, .acting []⟩ => some (.succeeded execution)
    | .handling ⟨_, _, .marking⟩ => some (.marked execution)
    | _ => none

/-- The store exists. -/
def HasStore (f : Fleet) (store : StoreRef) : Prop := store.index < f.stores.length

instance (f : Fleet) (store : StoreRef) : Decidable (f.HasStore store) :=
  inferInstanceAs (Decidable (_ < _))

end Fleet

/-! ## The machine -/

/-- How far a guest has come. -/
inductive GuestStage where
  | acting
  | marking
  | gone
deriving DecidableEq

/-- A call of a guarded handler without a worker, for a message of that id. -/
structure Guest where
  store : StoreRef
  id : Ident
  stage : GuestStage
deriving DecidableEq

/-- A fleet with the journal of its broker, the letters on their way, its guests, and the notes so
far, oldest first. -/
structure Shift where
  fleet : Fleet
  journal : List Custody.Entry
  flying : List (Nat × DeadLetter)
  guests : List Guest
  notes : List Note
  guardNotes : List GuardNote
  execution : Caller → Nat

namespace Shift

/-- A new broker without workers, guests and notes. -/
def create (defaults : QueueDefaults) (clock : Clock) : Shift :=
  ⟨.create (.create defaults) clock, [], [], [], [], [], fun _ => 0⟩

/-- The part that the broker sees. -/
def chronicle (s : Shift) : Chronicle := ⟨s.fleet.broker, s.journal, s.flying⟩

/-- Changes the part that the broker sees. -/
def withChronicle (s : Shift) (c : Chronicle) : Shift :=
  { s with fleet := { s.fleet with broker := c.broker }, journal := c.journal, flying := c.flying }

/-- Changes the rest of the fleet. -/
def withFleet (s : Shift) (change : Fleet → Fleet) : Shift := { s with fleet := change s.fleet }

/-- Notes what happened to an execution; a caller that is admitted is in a new one. -/
def noteGuard (s : Shift) (caller : Caller) : Option GuardDeed → Shift
  | none => s
  | some deed =>
    { s with
      guardNotes := s.guardNotes ++ [⟨caller, s.fleet.clock.uptime, deed⟩]
      execution :=
        match deed with
        | .admitted .. => Function.update s.execution caller s.guardNotes.length
        | _ => s.execution }

/-- A step of a run of a worker, from a phase in which it can go on. -/
def stepFrom (s : Shift) (run : RunRef) (worker : WorkerRef) (w : Worker) (phase : Phase) : Shift :=
  let c := (s.fleet.call? w phase).elim s.chronicle s.chronicle.perform
  let noted := s.noteGuard (.run run) (s.fleet.guardDeed? w (s.execution (.run run)) phase)
  { noted with
    fleet := s.fleet.step run
    journal := c.journal
    flying := c.flying
    notes := s.notes ++
      (s.fleet.deeds w phase).map fun deed => ⟨worker, run, s.fleet.clock.uptime, deed⟩ }

/-- A step of a run, if it can go on. -/
def step (s : Shift) (run : RunRef) : Shift :=
  match s.fleet.run? run with
  | none => s
  | some ⟨worker, phase⟩ =>
    match s.fleet.worker? worker with
    | none => s
    | some w => if phase.isActive then s.stepFrom run worker w phase else s

/-- A step of a run that is about to give a message back, up to the first half of the nack. -/
def halve (s : Shift) (run : RunRef) : Shift :=
  match s.fleet.run? run with
  | some ⟨worker, .handling ⟨m, _, .settling (some _) _⟩⟩ =>
    match s.fleet.worker? worker with
    | some w => (s.step run).withChronicle (s.chronicle.giveBack w.queue m.handle)
    | none => s
  | _ => s

/-- Somebody calls a guarded handler, and acts as a guest unless the call is skipped. -/
def ask (s : Shift) (store : StoreRef) (id : Ident) : Shift :=
  if s.fleet.isProcessed store id then s
  else
    { s.noteGuard (.guest s.guests.length) (some (.admitted store id)) with
      guests := s.guests ++ [⟨store, id, .acting⟩] }

/-- The handler of a guest returns, without an error or with one. -/
def reply (s : Shift) (i : Nat) (success : Bool) : Shift :=
  match s.guests[i]? with
  | some ⟨store, id, .acting⟩ =>
    if success then
      { s.noteGuard (.guest i) (some (.succeeded (s.execution (.guest i)))) with
        guests := s.guests.set i ⟨store, id, .marking⟩ }
    else { s with guests := s.guests.set i ⟨store, id, .gone⟩ }
  | _ => s

/-- A guest whose handler has succeeded marks the id. -/
def mark (s : Shift) (i : Nat) : Shift :=
  match s.guests[i]? with
  | some ⟨store, id, .marking⟩ =>
    { s.noteGuard (.guest i) (some (.marked (s.execution (.guest i)))) with
      fleet := s.fleet.markProcessed store id
      guests := s.guests.set i ⟨store, id, .gone⟩ }
  | _ => s

/-- An atomic step of somebody. -/
inductive Move where
  /-- A call on the broker, or a part of one, by somebody else than a loop. -/
  | broker (move : Chronicle.Move)
  | addStore (retention : Span)
  | addWorker (name : String) (queue : QueueRef) (handler : Handler) (pollInterval : Span)
  /-- A worker is started; its loop, if there is a new one, takes no step yet. -/
  | start (worker : WorkerRef)
  | stop (worker : WorkerRef)
  | signal (worker : WorkerRef) (cancel : Bool)
  | step (run : RunRef)
  | halve (run : RunRef)
  /-- The waiting of a run ends. -/
  | wake (run : RunRef)
  | elapse (span : Span)
  /-- The wall clock is set. -/
  | setWall (reading : Instant)
  | ask (store : StoreRef) (id : Ident)
  | reply (guest : Nat) (success : Bool)
  | mark (guest : Nat)

/-- The state after a move. -/
def apply (s : Shift) : Move → Shift
  | .broker v => s.withChronicle (s.chronicle.apply v)
  | .addStore retention => s.withFleet fun f => (f.addStore retention).2
  | .addWorker name queue handler pollInterval =>
    s.withFleet fun f => (f.addWorker (.create name queue handler pollInterval)).2
  | .start worker => s.withFleet (·.launch worker)
  | .stop worker => s.withFleet (·.stop worker)
  | .signal worker cancel => s.withFleet (·.signal worker cancel)
  | .step run => s.step run
  | .halve run => s.halve run
  | .wake run => s.withFleet (·.rouse run)
  | .elapse span => s.withFleet (·.elapse span)
  | .setWall reading => s.withFleet fun f => { f with clock := ⟨reading, f.clock.uptime⟩ }
  | .ask store id => s.ask store id
  | .reply i success => s.reply i success
  | .mark i => s.mark i

/-- The objects that a move refers to exist. -/
def Move.Valid (f : Fleet) : Move → Prop
  | .broker v => v.Valid f.broker
  | .addWorker _ queue handler _ =>
    f.broker.HasQueue queue ∧ handler.guard.all (fun store => f.HasStore store) = true
  | .ask store _ => f.HasStore store
  | _ => True

instance (f : Fleet) : (v : Move) → Decidable (v.Valid f)
  | .broker v => inferInstanceAs (Decidable (v.Valid f.broker))
  | .addWorker .. => inferInstanceAs (Decidable (_ ∧ _))
  | .ask store _ => inferInstanceAs (Decidable (f.HasStore store))
  | .addStore _ | .start _ | .stop _ | .signal .. | .step _ | .halve _ | .wake _ | .elapse _
  | .setWall _ | .reply .. | .mark _ => inferInstanceAs (Decidable True)

/-- The states that runs from a new broker lead to. -/
inductive Reachable : Shift → Prop
  | create (defaults : QueueDefaults) (clock : Clock) : Reachable (.create defaults clock)
  | apply {s : Shift} {v : Move} : Reachable s → v.Valid s.fleet → Reachable (s.apply v)

/-- The state after several moves in turn. -/
def run (s : Shift) (moves : List Move) : Shift := moves.foldl apply s

/-- Each of several moves in turn refers to objects that exist by then. -/
def Admits (s : Shift) : List Move → Prop
  | [] => True
  | v :: rest => v.Valid s.fleet ∧ (s.apply v).Admits rest

instance decidableAdmits (s : Shift) : (moves : List Move) → Decidable (s.Admits moves)
  | [] => .isTrue trivial
  | v :: rest =>
    have := decidableAdmits (s.apply v) rest
    inferInstanceAs (Decidable (_ ∧ _))

/-- A run leads from one reachable state to another. -/
theorem Reachable.run {s : Shift} (h : s.Reachable) {moves : List Move} (hv : s.Admits moves) :
    (s.run moves).Reachable := by
  induction moves generalizing s with
  | nil => exact h
  | cons v rest ih => exact ih (h.apply hv.1) hv.2

end Shift

end MessageBroker
