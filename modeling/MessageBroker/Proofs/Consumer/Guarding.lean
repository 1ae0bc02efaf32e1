import MessageBroker.Proofs.Consumer.Affects
import MessageBroker.Proofs.Consumer.Store

/-!
# What a move does to the executions of guarded handlers

An execution of a guarded handler begins when the store lets the id through, and ends when the
handler fails or the id is marked. `Shift.engaged?` tells which execution a caller is in, alike for
the runs of workers and for guests. `Fleet.Guarding` lists the five things that one step of a caller
can do to it, and `Shift.guards_cases` says that every move is such a step of one caller, or touches
no execution and no mark. Nothing below this point speaks of phases and stages again.
-/

namespace MessageBroker

/-! ## Executions in progress -/

/-- An execution in progress: of a handler that the store guards, for a message of the id. -/
structure Engagement where
  store : StoreRef
  id : Ident
  /-- The handler has returned without an error, and the id is about to be marked. -/
  done : Bool
deriving DecidableEq

/-- The execution that a loop of the worker is in. -/
def Worker.engaged? (w : Worker) : Phase → Option Engagement
  | .handling ⟨m, _, .acting _⟩ | .handling ⟨m, _, .paused _ _⟩ =>
    w.handler.guard.map fun store => ⟨store, m.id, false⟩
  | .handling ⟨m, _, .marking⟩ => w.handler.guard.map fun store => ⟨store, m.id, true⟩
  | _ => none

/-- A loop that has ended is in no execution. -/
theorem Worker.engaged?_of_ended (w : Worker) {phase : Phase} (h : phase.isEnded = true) :
    w.engaged? phase = none := by
  cases phase with
  | ended outcome => rfl
  | _ => cases h

/-- The end of some waiting does not change the execution. -/
theorem Worker.engaged?_awake (w : Worker) (phase : Phase) :
    w.engaged? phase.awake = w.engaged? phase := by
  unfold Phase.awake
  split <;> rfl

/-- The execution depends on nothing of the worker but its guard. -/
theorem Worker.engaged?_congr {w w' : Worker} (h : w'.handler = w.handler) (phase : Phase) :
    w'.engaged? phase = w.engaged? phase := by
  unfold Worker.engaged?
  rw [h]

/-- The execution that a guest is in. -/
def Guest.engaged? : Guest → Option Engagement
  | ⟨store, id, .acting⟩ => some ⟨store, id, false⟩
  | ⟨store, id, .marking⟩ => some ⟨store, id, true⟩
  | ⟨_, _, .gone⟩ => none

namespace Fleet

/-- What a step of a caller can do to its execution, which has a number: the execution before, what
is noted, the execution afterwards, and the stores afterwards. -/
inductive Guarding (f : Fleet) (execution : Nat) :
    Option Engagement → Option GuardDeed → Option Engagement → List IdempotencyStore → Prop where
  | stays {e : Option Engagement} : Guarding f execution e none e f.stores
  /-- The handler returns an error. -/
  | fails {e : Engagement} : Guarding f execution (some e) none none f.stores
  | admits {store : StoreRef} {id : Ident} (hstore : f.HasStore store)
      (hnew : f.isProcessed store id = false) :
    Guarding f execution none (some (.admitted store id)) (some ⟨store, id, false⟩) f.stores
  | succeeds {store : StoreRef} {id : Ident} :
    Guarding f execution (some ⟨store, id, false⟩) (some (.succeeded execution))
      (some ⟨store, id, true⟩) f.stores
  | marks {store : StoreRef} {id : Ident} :
    Guarding f execution (some ⟨store, id, true⟩) (some (.marked execution)) none
      (f.markProcessed store id).stores

/-- A step of a caller marks one id at most, and changes the stores in no other way. -/
theorem Guarding.stores {f : Fleet} {execution : Nat} {before after : Option Engagement}
    {deed : Option GuardDeed} {stores : List IdempotencyStore}
    (h : f.Guarding execution before deed after stores) :
    stores = f.stores ∨ ∃ store id, stores = (f.markProcessed store id).stores := by
  cases h with
  | marks => exact .inr ⟨_, _, rfl⟩
  | _ => exact .inl rfl

/-- What a step of a loop does to the execution it is in. -/
theorem Effect.guarding {f g : Fleet} {w w' : Worker} {phase phase' : Phase}
    (h : f.Effect w phase w' phase' g) (hstores : ∀ store ∈ w.handler.guard, f.HasStore store)
    (execution : Nat) :
    f.Guarding execution (w.engaged? phase) (f.guardDeed? w execution phase)
      (w'.engaged? phase') g.stores := by
  have hkeeps := h.keeps.2
  rw [Worker.engaged?_congr hkeeps]
  unfold guardDeed?
  cases hguard : w.handler.guard with
  | none =>
    -- Without a guard there are no executions.
    have hnone : ∀ p, w.engaged? p = none := fun p => by
      unfold Worker.engaged?
      rw [hguard]
      split <;> rfl
    rw [hnone, hnone]
    cases h with
    | marks hguard' => exact absurd (hguard.symm.trans hguard') (by simp)
    | _ => exact .stays
  | some store =>
    have hacting : ∀ m began todo,
        w.engaged? (.handling ⟨m, began, .acting todo⟩) = some ⟨store, m.id, false⟩ :=
      fun m began todo => by
        show w.handler.guard.map _ = _
        rw [hguard]
        rfl
    have hmarking : ∀ m began,
        w.engaged? (.handling ⟨m, began, .marking⟩) = some ⟨store, m.id, true⟩ :=
      fun m began => by
        show w.handler.guard.map _ = _
        rw [hguard]
        rfl
    cases h with
    | ends | waits | leases | settles => exact .stays
    | @skips m began hskip =>
      have hold : f.isProcessed store m.id = true := by simpa [hguard] using hskip
      show f.Guarding execution none (if f.isProcessed store m.id then none else _) none f.stores
      rw [if_pos hold]
      exact .stays
    | @calls m began hcall =>
      have hnew : f.isProcessed store m.id = false := by simpa [hguard] using hcall
      show f.Guarding execution none (if f.isProcessed store m.id then none else _) _ f.stores
      rw [hacting, if_neg (Bool.eq_false_iff.mp hnew)]
      exact .admits (hstores store hguard) hnew
    | pauses => exact .stays
    | elapses | stops | signals | settlesEarly | publishes =>
      rw [hacting, hacting]
      exact .stays
    | fails =>
      rw [hacting]
      exact .fails
    | succeeds hguard' => exact absurd (hguard.symm.trans hguard') (by simp)
    | succeedsGuarded =>
      rw [hacting, hmarking]
      exact .succeeds
    | marks hguard' =>
      obtain rfl := Option.some.inj (hguard.symm.trans hguard')
      rw [hmarking]
      exact .marks
    | marksNothing hguard' => exact absurd (hguard.symm.trans hguard') (by simp)

end Fleet

namespace Shift

/-! ## All moves -/

/-- The execution that a caller is in. -/
def engaged? (s : Shift) : Caller → Option Engagement
  | .run run =>
    (s.fleet.run? run).bind fun r => (s.fleet.worker? r.worker).bind (·.engaged? r.phase)
  | .guest i => s.guests[i]?.bind Guest.engaged?

/-- The execution that a run is in depends on its worker and its phase. -/
theorem engaged?_run {s : Shift} {run : RunRef} {ref : WorkerRef} {phase : Phase}
    (h : s.fleet.run? run = some ⟨ref, phase⟩) :
    s.engaged? (.run run) = (s.fleet.worker? ref).bind (·.engaged? phase) := by
  show (s.fleet.run? run).bind _ = _
  rw [h]
  rfl

/-- A run that does not exist is in no execution. -/
theorem engaged?_no_run {s : Shift} {run : RunRef} (h : s.fleet.run? run = none) :
    s.engaged? (.run run) = none := by
  show (s.fleet.run? run).bind _ = _
  rw [h]
  rfl

/-- A caller takes a step, all others stay in their executions, and the deed is noted. -/
structure Guards (s s' : Shift) (caller : Caller) (deed : Option GuardDeed) : Prop where
  guarding : s.fleet.Guarding (s.execution caller) (s.engaged? caller) deed (s'.engaged? caller)
    s'.fleet.stores
  others : ∀ c ≠ caller, s'.engaged? c = s.engaged? c
  notes : s'.guardNotes = (s.noteGuard caller deed).guardNotes
  execution : s'.execution = (s.noteGuard caller deed).execution

/-- All callers stay in their executions, and no store changes; one may be added. -/
structure Rests (s s' : Shift) : Prop where
  engaged : ∀ c, s'.engaged? c = s.engaged? c
  stores : ∃ new, s'.fleet.stores = s.fleet.stores ++ new
  notes : s'.guardNotes = s.guardNotes
  execution : s'.execution = s.execution

/-- Where nothing happens, all executions rest. -/
theorem rests_of_eq {s s' : Shift} (h : s' = s) : Rests s s' := by
  subst h
  exact ⟨fun _ => rfl, ⟨[], (List.append_nil _).symm⟩, rfl, rfl⟩

/-- A run that has not moved is in the execution it was in. -/
theorem engaged?_of_run {s : Shift} (hs : s.Reachable) (v : Move) {run : RunRef}
    (hrun : (s.apply v).fleet.run? run = s.fleet.run? run) :
    (s.apply v).engaged? (.run run) = s.engaged? (.run run) := by
  cases hr : s.fleet.run? run with
  | none => rw [engaged?_no_run hr, engaged?_no_run (hrun.trans hr)]
  | some r =>
    obtain ⟨ref, phase⟩ := r
    rw [engaged?_run hr, engaged?_run (hrun.trans hr)]
    rcases s.apply_cases v ref with h | ⟨w, w', news, hw, hw', -, h⟩ | ⟨hnone, -⟩
    · rw [h.worker]
    · rw [hw, hw']
      exact Worker.engaged?_congr h.keeps.2 phase
    · -- A worker that does not exist yet has no loop in progress.
      have hended : phase.isEnded = true := by
        by_contra hlive
        obtain ⟨⟨before, after, hloop, -⟩, -⟩ :=
          Fleet.loops_setPhase hr (Bool.eq_false_iff.mpr hlive) phase
        rw [(hs.stranger hnone).1] at hloop
        simp at hloop
      rw [hnone]
      cases (s.apply v).fleet.worker? ref with
      | none => rfl
      | some w' => exact w'.engaged?_of_ended hended

/-- A run that takes no step stays in its execution. -/
theorem engaged?_of_not_step {s : Shift} (hs : s.Reachable) {v : Move} {run : RunRef}
    (hstep : v ≠ .step run) (hhalve : v ≠ .halve run) :
    (s.apply v).engaged? (.run run) = s.engaged? (.run run) := by
  rcases s.run_cases v run with h | ⟨ref, phase, -, hnone, hnew, hphase⟩ |
    ⟨ref, phase, rfl, hr, hr'⟩ | ⟨-, -, -, -, -, -, hv | hv, -⟩
  · exact engaged?_of_run hs v h
  · rw [engaged?_no_run hnone, engaged?_run hnew]
    cases (s.apply v).fleet.worker? ref with
    | none => rfl
    | some w => rcases hphase with rfl | rfl <;> rfl
  · rw [engaged?_run hr, engaged?_run hr']
    exact congrArg _ (funext fun w => w.engaged?_awake phase)
  · exact absurd hv hstep
  · exact absurd hv hhalve

/-- A move that is no step of a run or a guest lets all executions rest. -/
theorem rests_of_not_step {s : Shift} (hs : s.Reachable) {v : Move}
    (hstep : ∀ run, v ≠ .step run) (hhalve : ∀ run, v ≠ .halve run)
    (hguests : (s.apply v).guests = s.guests)
    (hstores : ∃ new, (s.apply v).fleet.stores = s.fleet.stores ++ new)
    (hnotes : (s.apply v).guardNotes = s.guardNotes)
    (hexecution : (s.apply v).execution = s.execution) : Rests s (s.apply v) := by
  refine ⟨fun c => ?_, hstores, hnotes, hexecution⟩
  cases c with
  | run run => exact engaged?_of_not_step hs (hstep run) (hhalve run)
  | guest i =>
    show ((s.apply v).guests[i]?).bind _ = _
    rw [hguests]
    rfl

/-- A step of a run, whole or halved, is a step of it in its execution. -/
theorem guards_of_stepped {s : Shift} (hs : s.Reachable) {v : Move} {run : RunRef}
    {worker : WorkerRef} {w w' : Worker} {phase phase' : Phase} {g : Fleet}
    (hv : v = .step run ∨ v = .halve run)
    (h : s.Stepped (s.apply v) run worker w w' phase phase' g)
    (hstores : ∀ store ∈ w.handler.guard, s.fleet.HasStore store) :
    Guards s (s.apply v) (.run run) (s.fleet.guardDeed? w (s.execution (.run run)) phase) := by
  obtain ⟨noted, rfl, hnotes, hexecution⟩ := h.guards
  have hrun := (h.run?_eq run).trans (if_pos rfl)
  have hworker := (h.worker?_eq worker).trans (if_pos rfl)
  obtain ⟨b, hfleet⟩ := h.fleet
  refine ⟨?_, fun c hc => ?_, hnotes, hexecution⟩
  · rw [engaged?_run h.hrun, engaged?_run hrun, h.hworker, hworker, hfleet]
    exact h.effect.guarding hstores _
  · cases c with
    | run other =>
      have hne : other ≠ run := fun heq => hc (congrArg Caller.run heq)
      refine engaged?_of_not_step hs ?_ ?_ <;> rcases hv with rfl | rfl <;> simp [Ne.symm hne]
    | guest i =>
      show ((s.apply v).guests[i]?).bind _ = _
      rw [h.guests]
      rfl

/-- A change to one guest lets all others stay in their executions. -/
theorem engaged?_of_guest {s s' : Shift} {i : Nat} (hruns : s'.fleet.runs = s.fleet.runs)
    (hworkers : s'.fleet.workers = s.fleet.workers)
    (hguests : ∀ j ≠ i, s'.guests[j]? = s.guests[j]?) {c : Caller} (hc : c ≠ .guest i) :
    s'.engaged? c = s.engaged? c := by
  cases c with
  | run run =>
    unfold engaged? Fleet.run? Fleet.worker?
    rw [hruns, hworkers]
  | guest j =>
    show (s'.guests[j]?).bind _ = _
    rw [hguests j fun heq => hc (congrArg Caller.guest heq)]
    rfl

/-- The execution that an existing guest is in. -/
theorem engaged?_guest {s : Shift} {i : Nat} {guest : Guest} (h : s.guests[i]? = some guest) :
    s.engaged? (.guest i) = guest.engaged? := by
  show (s.guests[i]?).bind _ = _
  rw [h]
  rfl

/-- A step of a guest that changes what the guest is. -/
theorem guards_of_set {s s' : Shift} {i : Nat} {guest guest' : Guest} {deed : Option GuardDeed}
    (hguest : s.guests[i]? = some guest) (hguests : s'.guests = s.guests.set i guest')
    (hruns : s'.fleet.runs = s.fleet.runs) (hworkers : s'.fleet.workers = s.fleet.workers)
    (hguarding : s.fleet.Guarding (s.execution (.guest i)) guest.engaged? deed guest'.engaged?
      s'.fleet.stores)
    (hnotes : s'.guardNotes = (s.noteGuard (.guest i) deed).guardNotes)
    (hexecution : s'.execution = (s.noteGuard (.guest i) deed).execution) :
    Guards s s' (.guest i) deed := by
  have hguest' : s'.guests[i]? = some guest' := by
    rw [hguests]
    exact List.getElem?_set_self (List.getElem?_eq_some_iff.mp hguest).1
  refine ⟨?_, fun c hc => engaged?_of_guest hruns hworkers (fun j hj => ?_) hc, hnotes, hexecution⟩
  · rw [engaged?_guest hguest, engaged?_guest hguest']
    exact hguarding
  · rw [hguests]
    exact List.getElem?_set_ne hj.symm

/-- A call of a guarded handler by a new guest. -/
theorem guards_of_ask {s : Shift} {store : StoreRef} {id : Ident}
    (hstore : s.fleet.HasStore store) : Rests s (s.ask store id) ∨
      Guards s (s.ask store id) (.guest s.guests.length) (some (.admitted store id)) := by
  rcases s.ask_cases store id with h | ⟨hnew, h⟩
  · exact .inl (rests_of_eq h)
  · right
    have hfleet : (s.ask store id).fleet = s.fleet := by rw [h]; rfl
    have hguests : (s.ask store id).guests = s.guests ++ [⟨store, id, .acting⟩] := by rw [h]
    have hnone : s.engaged? (.guest s.guests.length) = none := by
      show (s.guests[s.guests.length]?).bind _ = _
      rw [List.getElem?_eq_none (Nat.le_refl _)]
      rfl
    have hnew' : (s.ask store id).guests[s.guests.length]? = some ⟨store, id, .acting⟩ := by
      rw [hguests]
      exact List.getElem?_concat_length
    have hothers : ∀ j ≠ s.guests.length, (s.ask store id).guests[j]? = s.guests[j]? := by
      intro j hj
      rw [hguests]
      rcases Nat.lt_or_gt_of_ne hj with hlt | hgt
      · exact List.getElem?_append_left hlt
      · rw [List.getElem?_eq_none (Nat.le_of_lt hgt), List.getElem?_eq_none]
        rw [List.length_append]
        exact hgt
    refine ⟨?_, fun c hc => ?_, by rw [h], by rw [h]⟩
    · rw [hnone, engaged?_guest hnew', hfleet]
      exact .admits hstore hnew
    · exact engaged?_of_guest (congrArg Fleet.runs hfleet) (congrArg Fleet.workers hfleet)
        hothers hc

/-- A reply to a guest. -/
theorem guards_of_reply (s : Shift) (i : Nat) (success : Bool) :
    Rests s (s.reply i success) ∨ ∃ deed, Guards s (s.reply i success) (.guest i) deed := by
  rcases s.reply_cases i success with h | ⟨store, id, hguest, ⟨-, h⟩ | ⟨-, h⟩⟩
  · exact .inl (rests_of_eq h)
  · rw [h]
    exact .inr ⟨_, guards_of_set hguest rfl rfl rfl .succeeds rfl rfl⟩
  · rw [h]
    exact .inr ⟨none, guards_of_set hguest rfl rfl rfl .fails rfl rfl⟩

/-- A mark by a guest. -/
theorem guards_of_mark (s : Shift) (i : Nat) :
    Rests s (s.mark i) ∨ ∃ deed, Guards s (s.mark i) (.guest i) deed := by
  rcases s.mark_cases i with h | ⟨store, id, hguest, h⟩
  · exact .inl (rests_of_eq h)
  · rw [h]
    exact .inr ⟨_, guards_of_set hguest rfl rfl rfl .marks rfl rfl⟩

/-- The guards of all workers exist. -/
def Stored (s : Shift) : Prop :=
  ∀ ref w, s.fleet.worker? ref = some w → ∀ store ∈ w.handler.guard, s.fleet.HasStore store

/-- Every move is a step of one caller in its execution, or lets all executions rest. -/
theorem Stored.guards_cases {s : Shift} (h : s.Stored) (hs : s.Reachable) {v : Move}
    (hv : v.Valid s.fleet) :
    Rests s (s.apply v) ∨ ∃ caller deed, Guards s (s.apply v) caller deed := by
  cases v with
  | step run =>
    rcases s.step_cases run with hsame | ⟨worker, w, w', phase, phase', g, hstep⟩
    · exact .inl (rests_of_eq hsame)
    · exact .inr ⟨_, _, guards_of_stepped hs (.inl rfl) hstep (h worker w hstep.hworker)⟩
  | halve run =>
    rcases s.halve_cases run with hsame | ⟨worker, w, w', phase, phase', g, hstep⟩
    · exact .inl (rests_of_eq hsame)
    · exact .inr ⟨_, _, guards_of_stepped hs (.inr rfl) hstep (h worker w hstep.hworker)⟩
  | ask store x => exact (guards_of_ask hv).imp_right fun hg => ⟨_, _, hg⟩
  | reply i success => exact (s.guards_of_reply i success).imp_right fun hg => ⟨_, hg⟩
  | mark i => exact (s.guards_of_mark i).imp_right fun hg => ⟨_, hg⟩
  | addStore retention =>
    exact .inl (rests_of_not_step hs (by simp) (by simp) rfl ⟨_, rfl⟩ rfl rfl)
  | start worker =>
    refine .inl (rests_of_not_step hs (by simp) (by simp) rfl ⟨[], ?_⟩ rfl rfl)
    rw [List.append_nil]
    exact (launch_frame s.fleet worker).2.2
  | broker | addWorker | stop | signal | wake | elapse | setWall =>
    exact .inl (rests_of_not_step hs (by simp) (by simp) rfl ⟨[], (List.append_nil _).symm⟩ rfl rfl)

/-- No move removes a store. -/
theorem Stored.hasStore_apply {s : Shift} (h : s.Stored) (hs : s.Reachable) {v : Move}
    (hv : v.Valid s.fleet) {store : StoreRef} (hstore : s.fleet.HasStore store) :
    (s.apply v).fleet.HasStore store := by
  unfold Fleet.HasStore at hstore ⊢
  rcases h.guards_cases hs hv with hrests | ⟨caller, deed, hguards⟩
  · obtain ⟨new, hnew⟩ := hrests.stores
    rw [hnew, List.length_append]
    exact Nat.lt_add_right _ hstore
  · rcases hguards.guarding.stores with hsame | ⟨store', id, hmark⟩
    · rw [hsame]
      exact hstore
    · rw [hmark]
      exact Nat.lt_of_lt_of_eq hstore (List.length_modify _ _ _).symm

/-- In every state of every run, the guards of all workers exist. -/
theorem Reachable.stored {s : Shift} (hs : s.Reachable) : s.Stored := by
  induction hs with
  | create defaults clock => exact fun ref w hw => nomatch hw
  | @apply s v hs hv ih =>
    intro ref w' hw' store hstore
    refine ih.hasStore_apply hs hv ?_
    rcases s.apply_cases v ref with h | ⟨w, w'', news, hw, hw'', -, h⟩ | ⟨hnone, hloop | h⟩
    · exact ih ref w' (h.worker.symm.trans hw') store hstore
    · obtain rfl := Option.some.inj (hw''.symm.trans hw')
      rw [h.keeps.2] at hstore
      exact ih ref w hw store hstore
    · exact absurd (hs.stranger hnone).1 hloop
    · obtain ⟨name, queue, handler, pollInterval, rfl, hnew, -⟩ := h
      obtain rfl := Option.some.inj (hnew.symm.trans hw')
      have hguard : handler.guard = some store := hstore
      have hall : handler.guard.all (fun store => s.fleet.HasStore store) = true := hv.2
      rw [hguard] at hall
      exact of_decide_eq_true hall

/-- In every state of every run, a valid move is a step of one caller in its execution, or lets all
executions rest. -/
theorem Reachable.guards_cases {s : Shift} (hs : s.Reachable) {v : Move} (hv : v.Valid s.fleet) :
    Rests s (s.apply v) ∨ ∃ caller deed, Guards s (s.apply v) caller deed :=
  hs.stored.guards_cases hs hv

end Shift

end MessageBroker
