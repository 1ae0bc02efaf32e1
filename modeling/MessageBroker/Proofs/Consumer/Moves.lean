import MessageBroker.Proofs.Consumer.Loops
import MessageBroker.Proofs.Consumer.Shift

/-!
# The kinds of moves

Each function of the machine does nothing, or one definite thing; the results here say which, and no
later proof opens these functions again. A step of a run, whole or halved, is `Stepped`. `Kind`
lists what a move can be, with all steps of runs as one kind and all that guests do as another; what
holds of every move is shown by its cases. `run_cases` is the first such result: what can happen to
a run.
-/

namespace MessageBroker.Shift

/-! ## Steps of a loop -/

/-- The broker sees the call of a step, or only the first half of it, if the step is to give a
message back. -/
def Calls (s s' : Shift) (w : Worker) (phase : Phase) : Prop :=
  s'.chronicle = (s.fleet.call? w phase).elim s.chronicle s.chronicle.perform ∨
    ∃ m began reason elapsed, phase = .handling ⟨m, began, .settling (some reason) elapsed⟩ ∧
      s'.chronicle = s.chronicle.giveBack w.queue m.handle

/-- A run takes a step, whole or halved; the two differ in the broker alone. -/
structure Stepped (s s' : Shift) (run : RunRef) (worker : WorkerRef) (w w' : Worker)
    (phase phase' : Phase) (g : Fleet) : Prop where
  hrun : s.fleet.run? run = some ⟨worker, phase⟩
  hworker : s.fleet.worker? worker = some w
  active : phase.isActive = true
  effect : s.fleet.Effect w phase w' phase' g
  fleet : ∃ b, s'.fleet = { (g.setWorker worker w').setPhase run phase' with broker := b }
  notes : s'.notes = s.notes ++
    (s.fleet.deeds w phase).map fun deed => ⟨worker, run, s.fleet.clock.uptime, deed⟩
  guests : s'.guests = s.guests
  guards : ∃ noted, noted = s.noteGuard (.run run)
      (s.fleet.guardDeed? w (s.execution (.run run)) phase) ∧
    s'.guardNotes = noted.guardNotes ∧ s'.execution = noted.execution
  calls : s.Calls s' w phase

/-- A note on an execution leaves the rest alone. -/
theorem noteGuard_eq (s : Shift) (caller : Caller) (deed : Option GuardDeed) :
    s.noteGuard caller deed =
      { s with
        guardNotes := (s.noteGuard caller deed).guardNotes
        execution := (s.noteGuard caller deed).execution } := by
  cases deed <;> rfl

/-- A run that can go on takes a step. -/
theorem stepped {s : Shift} {run : RunRef} {worker : WorkerRef} {w : Worker} {phase : Phase}
    (hrun : s.fleet.run? run = some ⟨worker, phase⟩) (hworker : s.fleet.worker? worker = some w)
    (hactive : phase.isActive = true) :
    ∃ w' phase' g, s.Stepped (s.step run) run worker w w' phase phase' g := by
  obtain ⟨w', phase', g, heffect, hstep⟩ := Fleet.exists_effect hrun hworker hactive
  have heq : s.step run = s.stepFrom run worker w phase := by
    unfold step
    simp only [hrun, hworker, hactive, if_true]
  rw [heq]
  refine ⟨w', phase', g,
    ⟨hrun, hworker, hactive, heffect, ⟨g.broker, hstep⟩, rfl, ?_, ⟨_, rfl, rfl, rfl⟩, .inl ?_⟩⟩
  · unfold stepFrom
    rw [noteGuard_eq]
  · -- The fleet and the chronicle make the same call.
    have hbroker : (s.fleet.step run).broker =
        ((s.fleet.call? w phase).elim s.chronicle s.chronicle.perform).broker := by
      rw [hstep]
      refine heffect.broker.trans ?_
      cases s.fleet.call? w phase with
      | none => rfl
      | some op => exact (s.chronicle.broker_perform op).symm
    unfold stepFrom chronicle
    rw [hbroker]
    rfl

/-- A run that is given a step takes it, or nothing happens. -/
theorem step_cases (s : Shift) (run : RunRef) : s.step run = s ∨
    ∃ worker w w' phase phase' g, s.Stepped (s.step run) run worker w w' phase phase' g := by
  cases hrun : s.fleet.run? run with
  | none =>
    left
    unfold step
    rw [hrun]
  | some r =>
    obtain ⟨worker, phase⟩ := r
    cases hworker : s.fleet.worker? worker with
    | none =>
      left
      unfold step
      simp only [hrun, hworker]
    | some w =>
      cases hactive : phase.isActive with
      | false =>
        left
        unfold step
        simp [hrun, hworker, hactive]
      | true =>
        obtain ⟨w', phase', g, h⟩ := stepped hrun hworker hactive
        exact .inr ⟨worker, w, w', phase, phase', g, h⟩

/-- A run that is given half a step goes through the first half of the nack after a failure, or
nothing happens. -/
theorem halve_cases (s : Shift) (run : RunRef) : s.halve run = s ∨
    ∃ worker w w' phase phase' g, s.Stepped (s.halve run) run worker w w' phase phase' g := by
  unfold halve
  split
  · rename_i worker m began reason elapsed hrun
    cases hworker : s.fleet.worker? worker with
    | none => exact .inl rfl
    | some w =>
      right
      obtain ⟨w', phase', g, h⟩ := stepped hrun hworker rfl
      obtain ⟨b, hfleet⟩ := h.fleet
      refine ⟨worker, w, w', _, phase', g,
        { h with
          fleet := ⟨(s.chronicle.giveBack w.queue m.handle).broker, ?_⟩
          calls := .inr ⟨m, began, reason, elapsed, rfl, rfl⟩ }⟩
      show { (s.step run).fleet with broker := (s.chronicle.giveBack w.queue m.handle).broker } = _
      rw [hfleet]
  · exact .inl rfl

namespace Stepped

variable {s s' : Shift} {run : RunRef} {worker : WorkerRef} {w w' : Worker}
  {phase phase' : Phase} {g : Fleet} (h : s.Stepped s' run worker w w' phase phase' g)
include h

/-- The worker of the run is put in its place again. -/
theorem worker?_eq (ref : WorkerRef) :
    s'.fleet.worker? ref = if ref = worker then some w' else s.fleet.worker? ref := by
  obtain ⟨b, hfleet⟩ := h.fleet
  have hsame : g.worker? = s.fleet.worker? := by
    unfold Fleet.worker?
    rw [h.effect.others.1]
  rw [hfleet, ← hsame]
  exact Fleet.worker?_setWorker (hsame ▸ h.hworker) w' ref

/-- The runs after a step: one has moved to another phase. -/
theorem run?_eq (ref : RunRef) :
    s'.fleet.run? ref = if ref = run then some ⟨worker, phase'⟩ else s.fleet.run? ref := by
  obtain ⟨b, hfleet⟩ := h.fleet
  have hsame : g.run? = s.fleet.run? := by
    unfold Fleet.run?
    rw [h.effect.others.2]
  have hset := g.run?_setPhase run phase' ref
  rw [hsame] at hset
  rw [hfleet]
  refine Eq.trans hset ?_
  by_cases href : ref = run
  · rw [if_pos href, if_pos href, href, h.hrun]
    rfl
  · rw [if_neg href, if_neg href]

end Stepped

/-! ## Steps of a guest -/

/-- A call of a guarded handler is skipped, or makes a guest. -/
theorem ask_cases (s : Shift) (store : StoreRef) (id : Ident) : s.ask store id = s ∨
    s.fleet.isProcessed store id = false ∧
      s.ask store id =
        { s.noteGuard (.guest s.guests.length) (some (.admitted store id)) with
          guests := s.guests ++ [⟨store, id, .acting⟩] } := by
  unfold ask
  split
  · exact .inl rfl
  · rename_i h
    exact .inr ⟨Bool.eq_false_iff.mpr h, rfl⟩

/-- A reply is that of a guest whose handler acts, or nothing happens. -/
theorem reply_cases (s : Shift) (i : Nat) (success : Bool) : s.reply i success = s ∨
    ∃ store id, s.guests[i]? = some ⟨store, id, .acting⟩ ∧
      (success = true ∧
          s.reply i success =
            { s.noteGuard (.guest i) (some (.succeeded (s.execution (.guest i)))) with
              guests := s.guests.set i ⟨store, id, .marking⟩ } ∨
        success = false ∧
          s.reply i success = { s with guests := s.guests.set i ⟨store, id, .gone⟩ }) := by
  unfold reply
  split
  · rename_i store id hguest
    refine .inr ⟨store, id, hguest, ?_⟩
    cases success with
    | true => exact .inl ⟨rfl, rfl⟩
    | false => exact .inr ⟨rfl, rfl⟩
  · exact .inl rfl

/-- A mark is that of a guest whose handler has succeeded, or nothing happens. -/
theorem mark_cases (s : Shift) (i : Nat) : s.mark i = s ∨
    ∃ store id, s.guests[i]? = some ⟨store, id, .marking⟩ ∧
      s.mark i =
        { s.noteGuard (.guest i) (some (.marked (s.execution (.guest i)))) with
          fleet := s.fleet.markProcessed store id
          guests := s.guests.set i ⟨store, id, .gone⟩ } := by
  unfold mark
  split
  · rename_i store id hguest
    exact .inr ⟨store, id, hguest, rfl⟩
  · exact .inl rfl

/-! ## All moves -/

/-- What a move can be. -/
inductive Kind (s : Shift) : Move → Shift → Prop where
  | nothing {v : Move} : Kind s v s
  | steps {v : Move} {s' : Shift} {run : RunRef} {worker : WorkerRef} {w w' : Worker}
      {phase phase' : Phase} {g : Fleet} (hv : v = .step run ∨ v = .halve run)
      (h : s.Stepped s' run worker w w' phase phase' g) : Kind s v s'
  /-- Guests change the stores, at most, and are noted. -/
  | guests {v : Move} (stores : List IdempotencyStore) (guests : List Guest)
      (guardNotes : List GuardNote) (execution : Caller → Nat) :
    Kind s v { s with fleet := { s.fleet with stores }, guests, guardNotes, execution }
  | broker (v : Chronicle.Move) : Kind s (.broker v) (s.withChronicle (s.chronicle.apply v))
  | addStore (retention : Span) :
    Kind s (.addStore retention) (s.withFleet fun f => (f.addStore retention).2)
  | addWorker (name : String) (queue : QueueRef) (handler : Handler) (pollInterval : Span) :
    Kind s (.addWorker name queue handler pollInterval)
      (s.withFleet fun f => (f.addWorker (.create name queue handler pollInterval)).2)
  | start (worker : WorkerRef) : Kind s (.start worker) (s.withFleet (·.launch worker))
  | stop (worker : WorkerRef) : Kind s (.stop worker) (s.withFleet (·.stop worker))
  | signal (worker : WorkerRef) (cancel : Bool) :
    Kind s (.signal worker cancel) (s.withFleet (·.signal worker cancel))
  | wake (run : RunRef) : Kind s (.wake run) (s.withFleet (·.rouse run))
  | elapse (span : Span) : Kind s (.elapse span) (s.withFleet (·.elapse span))
  | setWall (reading : Instant) :
    Kind s (.setWall reading) (s.withFleet fun f => { f with clock := ⟨reading, f.clock.uptime⟩ })

/-- Every move is of some kind. -/
theorem kind (s : Shift) (v : Move) : s.Kind v (s.apply v) := by
  cases v with
  | step run =>
    rcases s.step_cases run with h | ⟨worker, w, w', phase, phase', g, h⟩
    · rw [apply, h]
      exact .nothing
    · exact .steps (.inl rfl) h
  | halve run =>
    rcases s.halve_cases run with h | ⟨worker, w, w', phase, phase', g, h⟩
    · rw [apply, h]
      exact .nothing
    · exact .steps (.inr rfl) h
  | ask store id =>
    rcases s.ask_cases store id with h | ⟨-, h⟩
    · rw [apply, h]
      exact .nothing
    · rw [apply, h]
      exact .guests s.fleet.stores _ _ _
  | reply i success =>
    rcases s.reply_cases i success with h | ⟨store, id, -, ⟨-, h⟩ | ⟨-, h⟩⟩
    · rw [apply, h]
      exact .nothing
    · rw [apply, h]
      exact .guests s.fleet.stores _ _ _
    · rw [apply, h]
      exact .guests s.fleet.stores _ _ _
  | mark i =>
    rcases s.mark_cases i with h | ⟨store, id, -, h⟩
    · rw [apply, h]
      exact .nothing
    · rw [apply, h]
      exact .guests (s.fleet.markProcessed store id).stores _ _ _
  | broker v => exact .broker v
  | addStore retention => exact .addStore retention
  | addWorker name queue handler pollInterval => exact .addWorker name queue handler pollInterval
  | start worker => exact .start worker
  | stop worker => exact .stop worker
  | signal worker cancel => exact .signal worker cancel
  | wake run => exact .wake run
  | elapse span => exact .elapse span
  | setWall reading => exact .setWall reading

/-- A move leaves a run as it is, begins it, ends its waiting, or is a step of it. -/
theorem run_cases (s : Shift) (v : Move) (run : RunRef) :
    (s.apply v).fleet.run? run = s.fleet.run? run ∨
      (∃ worker phase, v = .start worker ∧ s.fleet.run? run = none ∧
        (s.apply v).fleet.run? run = some ⟨worker, phase⟩ ∧
        (phase = .checking ∨ phase = .ended .finished)) ∨
      (∃ worker phase, v = .wake run ∧ s.fleet.run? run = some ⟨worker, phase⟩ ∧
        (s.apply v).fleet.run? run = some ⟨worker, phase.awake⟩) ∨
      ∃ worker w w' phase phase' g, (v = .step run ∨ v = .halve run) ∧
        s.Stepped (s.apply v) run worker w w' phase phase' g := by
  have hkind := s.kind v
  generalize s.apply v = s' at hkind ⊢
  cases hkind with
  | @steps v s' run' worker w w' phase phase' g hv h =>
    -- A step of a run moves that one alone.
    by_cases href : run = run'
    · subst href
      exact .inr (.inr (.inr ⟨worker, w, w', phase, phase', g, hv, h⟩))
    · exact .inl ((h.run?_eq run).trans (if_neg href))
  | start worker =>
    have hnew : ∀ r : Run, (s.fleet.launch worker).runs = s.fleet.runs ++ [r] →
        (s.fleet.launch worker).run? run = s.fleet.run? run ∨
          s.fleet.run? run = none ∧ (s.fleet.launch worker).run? run = some r := by
      intro r h
      unfold Fleet.run?
      rw [h, List.getElem?_append]
      split
      · exact .inl rfl
      · rename_i hge
        rw [List.getElem?_eq_none (Nat.le_of_not_lt hge)]
        cases run.index - s.fleet.runs.length with
        | zero => exact .inr ⟨rfl, rfl⟩
        | succ n => exact .inl rfl
    rcases s.fleet.runs_launch worker with h | h | h
    · left
      show (s.fleet.launch worker).runs[run.index]? = _
      rw [h]
      rfl
    · refine (hnew _ h).imp id fun hr => .inl ⟨worker, _, rfl, hr.1, hr.2, .inr rfl⟩
    · refine (hnew _ h).imp id fun hr => .inl ⟨worker, _, rfl, hr.1, hr.2, .inl rfl⟩
  | wake run' =>
    have heq := s.fleet.run?_rouse run' run
    by_cases href : run = run'
    · subst href
      rw [if_pos rfl] at heq
      cases hrun : s.fleet.run? run with
      | none => exact .inl (heq.trans (by rw [hrun]; rfl))
      | some r =>
        have hrun' : (s.fleet.rouse run).run? run = some ⟨r.worker, r.phase.awake⟩ :=
          heq.trans (by rw [hrun]; rfl)
        exact .inr (.inr (.inl ⟨r.worker, r.phase, rfl, rfl, hrun'⟩))
    · exact .inl (heq.trans (if_neg href))
  | _ => exact .inl rfl

/-- A move is noted only if it is a step of a run, whole or halved. -/
theorem notes_cases (s : Shift) (v : Move) : (s.apply v).notes = s.notes ∨
    ∃ run worker w w' phase phase' g, s.Stepped (s.apply v) run worker w w' phase phase' g := by
  have hkind := s.kind v
  generalize s.apply v = s' at hkind ⊢
  cases hkind with
  | @steps v s' run worker w w' phase phase' g hv h =>
    exact .inr ⟨run, worker, w, w', phase, phase', g, h⟩
  | _ => exact .inl rfl

end MessageBroker.Shift
