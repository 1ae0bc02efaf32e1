import Mathlib.Logic.Relation
import MessageBroker.Consumer.Guard
import MessageBroker.Proofs.Consumer.Affects

/-!
# Sessions are runs of the machine

A program that uses a fleet calls its functions one after another: `start` lets a run go on until it
waits, `advance` lets time pass and wakes the runs that are due, `handleGuarded` goes through a
whole guarded call. Each of these is a sequence of moves of the machine, so every fleet that such
calls lead to is the fleet of a reachable shift (`Fleet.Serving.exists_shift`), and what is proved
of all reachable shifts holds of it. The machine has more runs, since its moves can come in any
order.
-/

namespace MessageBroker

open Broker

namespace Shift

/-- A valid move leads from one state to the other. -/
def Goes (s s' : Shift) : Prop := ∃ v, v.Valid s.fleet ∧ s.apply v = s'

/-- Valid moves lead from a state to one with that fleet and the same guests. -/
def Attains (s : Shift) (f : Fleet) : Prop :=
  ∃ s', Relation.ReflTransGen Goes s s' ∧ s'.fleet = f ∧ s'.guests = s.guests

/-- Moves lead from reachable states to reachable ones. -/
theorem Reachable.of_goes {s s' : Shift} (hs : s.Reachable) (h : Relation.ReflTransGen Goes s s') :
    s'.Reachable := by
  induction h with
  | refl => exact hs
  | tail _ hlast ih =>
    obtain ⟨v, hv, rfl⟩ := hlast
    exact ih.apply hv

namespace Attains

variable {s : Shift} {f g : Fleet}

/-- No move at all. -/
theorem refl (s : Shift) : s.Attains s.fleet := ⟨s, .refl, rfl, rfl⟩

/-- A single move that makes no guest. -/
theorem of_move {v : Move} (hv : v.Valid s.fleet) (hfleet : (s.apply v).fleet = f)
    (hguests : (s.apply v).guests = s.guests) : s.Attains f :=
  ⟨s.apply v, .single ⟨v, hv, rfl⟩, hfleet, hguests⟩

/-- Moves go on from what others have attained. -/
theorem trans (h : s.Attains f) (hnext : ∀ s' : Shift, s'.fleet = f → s'.Attains g) :
    s.Attains g := by
  obtain ⟨s', hgoes, hfleet, hguests⟩ := h
  obtain ⟨s'', hgoes', hfleet', hguests'⟩ := hnext s' hfleet
  exact ⟨s'', hgoes.trans hgoes', hfleet', hguests'.trans hguests⟩

end Attains

/-! ## Runs -/

/-- The fleet takes the step that the run is given. -/
theorem fleet_step (s : Shift) (run : RunRef) : (s.step run).fleet = s.fleet.step run := by
  unfold step
  cases hrun : s.fleet.run? run with
  | none =>
    unfold Fleet.step
    rw [hrun]
  | some r =>
    obtain ⟨worker, phase⟩ := r
    dsimp only
    cases hworker : s.fleet.worker? worker with
    | none =>
      unfold Fleet.step
      simp only [hrun, hworker]
    | some w =>
      dsimp only
      split
      · rfl
      · rename_i hwaits
        unfold Fleet.step
        simp only [hrun, hworker]
        cases phase with
        | checking => exact absurd rfl hwaits
        | polling wake | ended outcome => rfl
        | handling call =>
          obtain ⟨m, began, stage⟩ := call
          cases stage with
          | paused wake todo => rfl
          | _ => exact absurd rfl hwaits

/-- A step has nothing to do with guests. -/
theorem guests_step (s : Shift) (run : RunRef) : (s.step run).guests = s.guests := by
  rcases s.step_cases run with h | ⟨worker, w, w', phase, phase', g, h⟩
  · rw [h]
  · exact h.guests

/-- A run that goes on takes steps. -/
theorem attains_resume (run : RunRef) (fuel : Nat) (s : Shift) :
    s.Attains (Fleet.resume run fuel s.fleet) := by
  induction fuel generalizing s with
  | zero => exact .refl s
  | succ fuel ih =>
    rw [Fleet.resume]
    split
    · have hstep : s.Attains (s.fleet.step run) :=
        .of_move (v := .step run) trivial (s.fleet_step run) (s.guests_step run)
      exact hstep.trans fun s' hs' => hs' ▸ ih s'
    · exact .refl s

/-- A worker is started, and its run goes on. -/
theorem attains_start (s : Shift) (worker : WorkerRef) : s.Attains (s.fleet.start worker) := by
  have hlaunch : s.Attains (s.fleet.launch worker) := .of_move (v := .start worker) trivial rfl rfl
  exact hlaunch.trans fun s' hs' => by
    unfold Fleet.start
    rw [← hs']
    exact attains_resume _ _ s'

/-- A run whose time has come is woken, and goes on. -/
theorem attains_wake (s : Shift) (now : Span) (run : RunRef) :
    s.Attains (s.fleet.wake now run) := by
  unfold Fleet.wake
  split
  · have hrouse : s.Attains (s.fleet.rouse run) := .of_move (v := .wake run) trivial rfl rfl
    exact hrouse.trans fun s' hs' => hs' ▸ attains_resume run _ s'
  · exact .refl s

/-- Several runs are woken in turn. -/
theorem attains_wakes (now : Span) (refs : List RunRef) (s : Shift) :
    s.Attains (refs.foldl (fun f ref => f.wake now ref) s.fleet) := by
  induction refs generalizing s with
  | nil => exact .refl s
  | cons ref rest ih =>
    refine (s.attains_wake now ref).trans fun s' hs' => ?_
    rw [List.foldl_cons, ← hs']
    exact ih s'

/-- A millisecond passes. -/
theorem attains_tick (s : Shift) : s.Attains s.fleet.tick := by
  have helapse : s.Attains (s.fleet.elapse (.ofMillis 1)) :=
    .of_move (v := .elapse (.ofMillis 1)) trivial rfl rfl
  exact helapse.trans fun s' hs' => by
    unfold Fleet.tick
    rw [← hs']
    exact attains_wakes _ _ s'

/-- Milliseconds pass until a reading of the clock. -/
theorem attains_tickUntil (target : Span) (fuel : Nat) (s : Shift) :
    s.Attains (Fleet.tickUntil target fuel s.fleet) := by
  induction fuel generalizing s with
  | zero => exact .refl s
  | succ fuel ih =>
    rw [Fleet.tickUntil]
    split
    · exact s.attains_tick.trans fun s' hs' => hs' ▸ ih s'
    · exact .refl s

/-- Time passes. -/
theorem attains_advance (s : Shift) (span : Span) : s.Attains (s.fleet.advance span) := by
  unfold Fleet.advance
  split
  · exact attains_tickUntil _ _ s
  · exact .of_move (v := .elapse span) trivial rfl rfl

/-! ## Calls on the broker and on guarded handlers -/

/-- A call on the broker. -/
theorem attains_perform (s : Shift) {op : Operation} (hop : op.Valid s.fleet.broker) :
    s.Attains { s.fleet with broker := s.fleet.broker.perform op } := by
  refine .of_move (v := .broker (.call op)) hop ?_ rfl
  show { s.fleet with broker := (s.chronicle.perform op).broker } = _
  rw [Chronicle.broker_perform]
  rfl

/-- The actions of a call outside a worker. -/
theorem attains_act (m : Message) (actions : List Action) (s : Shift) :
    s.Attains (Fleet.act m actions s.fleet).1 := by
  induction actions generalizing s with
  | nil => exact .refl s
  | cons action rest ih =>
    cases action with
    | fail reason => exact .refl s
    | pause length | elapse length =>
      have helapse : s.Attains (s.fleet.elapse length) :=
        .of_move (v := .elapse length) trivial rfl rfl
      refine helapse.trans fun s' hs' => ?_
      show s'.Attains (Fleet.act m rest (s.fleet.elapse length)).1
      exact hs' ▸ ih s'
    | publish topic =>
      have hpublish : s.Attains (s.fleet.publish topic m).1 :=
        s.attains_perform (valid_publish s.fleet.broker topic m none fun _ => s.fleet.clock.uptime)
      refine hpublish.trans fun s' hs' => ?_
      show s'.Attains (Fleet.act m rest (s.fleet.publish topic m).1).1
      exact hs' ▸ ih s'
    | stop | signal cancel | settle how => exact ih s

/-- A whole call of a guarded handler: a guest comes, acts, and marks the id if it succeeds. -/
theorem exists_handleGuarded (s : Shift) {store : StoreRef} (hstore : s.fleet.HasStore store)
    (actions : List Action) (m : Message) :
    ∃ s', Relation.ReflTransGen Goes s s' ∧
      s'.fleet = (s.fleet.handleGuarded store actions m).1 := by
  unfold Fleet.handleGuarded
  cases hold : s.fleet.isProcessed store m.id with
  | true => exact ⟨s, .refl, rfl⟩
  | false =>
    have hask : Goes s (s.ask store m.id) := ⟨.ask store m.id, hstore, rfl⟩
    have hasked : (s.ask store m.id).fleet = s.fleet ∧
        (s.ask store m.id).guests = s.guests ++ [⟨store, m.id, .acting⟩] := by
      unfold ask
      rw [hold]
      exact ⟨rfl, rfl⟩
    obtain ⟨acted, hgoes, hfleet, hguests⟩ := attains_act m actions (s.ask store m.id)
    rw [hasked.1] at hfleet
    have hguest : acted.guests[s.guests.length]? = some ⟨store, m.id, .acting⟩ := by
      rw [hguests, hasked.2]
      exact List.getElem?_concat_length
    have hacted : Relation.ReflTransGen Goes s acted := .head hask hgoes
    cases hfailure : (Fleet.act m actions s.fleet).2.2 with
    | some reason =>
      refine ⟨acted, hacted, ?_⟩
      simp [hfailure, hfleet]
    | none =>
      have hreply : Goes acted (acted.reply s.guests.length true) := ⟨.reply _ true, trivial, rfl⟩
      have hreplied : (acted.reply s.guests.length true).fleet = acted.fleet ∧
          (acted.reply s.guests.length true).guests[s.guests.length]? =
            some ⟨store, m.id, .marking⟩ := by
        unfold reply
        rw [hguest]
        refine ⟨rfl, List.getElem?_set_self (List.getElem?_eq_some_iff.mp hguest).1⟩
      obtain ⟨hsame, hmarking⟩ := hreplied
      generalize acted.reply s.guests.length true = replied at hreply hsame hmarking
      have hmark : Goes replied (replied.mark s.guests.length) := ⟨.mark _, trivial, rfl⟩
      refine ⟨replied.mark s.guests.length, (hacted.tail hreply).tail hmark, ?_⟩
      unfold mark
      rw [hmarking]
      show replied.fleet.markProcessed store m.id = _
      simp [hfailure, hsame, hfleet]

end Shift

/-! ## Sessions -/

/-- The fleets that the calls of a program lead to, one after another. -/
inductive Fleet.Serving : Fleet → Prop
  | create (defaults : QueueDefaults) (clock : Clock) : Serving (.create (.create defaults) clock)
  | perform {f : Fleet} {op : Operation} (hop : op.Valid f.broker) :
    Serving f → Serving { f with broker := f.broker.perform op }
  | addStore {f : Fleet} (retention : Span) : Serving f → Serving (f.addStore retention).2
  | addWorker {f : Fleet} (name : String) (queue : QueueRef) (handler : Handler)
      (pollInterval : Span) (hqueue : f.broker.HasQueue queue)
      (hguard : handler.guard.all (fun store => f.HasStore store) = true) :
    Serving f → Serving (f.addWorker (.create name queue handler pollInterval)).2
  | start {f : Fleet} (worker : WorkerRef) : Serving f → Serving (f.start worker)
  | stop {f : Fleet} (worker : WorkerRef) : Serving f → Serving (f.stop worker)
  | signal {f : Fleet} (worker : WorkerRef) (cancel : Bool) :
    Serving f → Serving (f.signal worker cancel)
  | advance {f : Fleet} (span : Span) : Serving f → Serving (f.advance span)
  | shiftWall {f : Fleet} (nanos : Int) :
    Serving f → Serving { f with clock := f.clock.shiftWall nanos }
  | handleGuarded {f : Fleet} {store : StoreRef} (actions : List Action) (m : Message)
      (hstore : f.HasStore store) : Serving f → Serving (f.handleGuarded store actions m).1

/-- Every fleet that the calls of a program lead to is that of a reachable shift. -/
theorem Fleet.Serving.exists_shift {f : Fleet} (h : f.Serving) :
    ∃ s : Shift, s.Reachable ∧ s.fleet = f := by
  have hmoves : ∀ {s : Shift} {g : Fleet}, s.Reachable → s.Attains g →
      ∃ s' : Shift, s'.Reachable ∧ s'.fleet = g := fun hs ⟨s', hgoes, hfleet, _⟩ =>
    ⟨s', hs.of_goes hgoes, hfleet⟩
  induction h with
  | create defaults clock => exact ⟨.create defaults clock, .create defaults clock, rfl⟩
  | perform hop _ ih =>
    obtain ⟨s, hs, rfl⟩ := ih
    exact hmoves hs (s.attains_perform hop)
  | addStore retention _ ih =>
    obtain ⟨s, hs, rfl⟩ := ih
    exact hmoves hs (.of_move (v := .addStore retention) trivial rfl rfl)
  | addWorker name queue handler pollInterval hqueue hguard _ ih =>
    obtain ⟨s, hs, rfl⟩ := ih
    exact hmoves hs
      (.of_move (v := .addWorker name queue handler pollInterval) ⟨hqueue, hguard⟩ rfl rfl)
  | start worker _ ih =>
    obtain ⟨s, hs, rfl⟩ := ih
    exact hmoves hs (s.attains_start worker)
  | stop worker _ ih =>
    obtain ⟨s, hs, rfl⟩ := ih
    exact hmoves hs (.of_move (v := .stop worker) trivial rfl rfl)
  | signal worker cancel _ ih =>
    obtain ⟨s, hs, rfl⟩ := ih
    exact hmoves hs (.of_move (v := .signal worker cancel) trivial rfl rfl)
  | advance span _ ih =>
    obtain ⟨s, hs, rfl⟩ := ih
    exact hmoves hs (s.attains_advance span)
  | shiftWall nanos _ ih =>
    obtain ⟨s, hs, rfl⟩ := ih
    exact hmoves hs (.of_move (v := .setWall (s.fleet.clock.shiftWall nanos).wall) trivial rfl rfl)
  | handleGuarded actions m hstore _ ih =>
    obtain ⟨s, hs, rfl⟩ := ih
    obtain ⟨s', hgoes, hfleet⟩ := s.exists_handleGuarded hstore actions m
    exact ⟨s', hs.of_goes hgoes, hfleet⟩

end MessageBroker
