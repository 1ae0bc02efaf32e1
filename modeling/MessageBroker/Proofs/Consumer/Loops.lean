import MessageBroker.Proofs.Consumer.Effect

/-!
# The loops of a worker

A start of an idle worker begins a loop. A run that has ended is no loop, and neither is a start of
a worker that was running, since that is over at once. `Fleet.loops` lists the phases of the loops
of a worker that are in progress; the results here say how a start, the end of some waiting, and a
step of one run change that list, and that they change it for one worker alone.
-/

namespace MessageBroker

/-- A phase, if it is one of a loop in progress. -/
def Phase.live (phase : Phase) : List Phase := if phase.isEnded then [] else [phase]

/-- A run that can go on has not ended. -/
theorem Phase.not_ended_of_active {phase : Phase} (h : phase.isActive = true) :
    phase.isEnded = false := by
  unfold isActive at h
  exact Bool.not_eq_true' _ ▸ (Bool.and_eq_true_iff.mp h).1

/-- A run that waits is in progress, before and after. -/
theorem Phase.isEnded_awake (phase : Phase) : phase.awake.isEnded = phase.isEnded := by
  unfold awake
  split <;> rfl

/-- The phase of a run, if it is a loop of the worker that goes on. -/
def Run.loop? (ref : WorkerRef) (run : Run) : Option Phase :=
  if run.worker = ref ∧ run.phase.isEnded = false then some run.phase else none

/-- A list whose element at one place is changed. -/
theorem getElem?_modify_if {α : Type} (l : List α) (i : Nat) (change : α → α) (j : Nat) :
    (l.modify i change)[j]? = if j = i then l[j]?.map change else l[j]? := by
  rw [List.getElem?_modify]
  by_cases hj : j = i
  · simp [hj]
  · simp [hj, Ne.symm hj]

namespace Fleet

/-- The phases of the loops of a worker that are in progress, in order of starting. -/
def loops (f : Fleet) (ref : WorkerRef) : List Phase := f.runs.filterMap (Run.loop? ref)

variable {f : Fleet} {run : RunRef} {worker : WorkerRef} {phase : Phase}

/-- A run that moves to a phase is the only one to change. -/
theorem loops_setPhase (hrun : f.run? run = some ⟨worker, phase⟩) (hlive : phase.isEnded = false)
    (phase' : Phase) :
    (∃ before after, f.loops worker = before ++ phase :: after ∧
      (f.setPhase run phase').loops worker = before ++ phase'.live ++ after) ∧
    ∀ other, other ≠ worker → (f.setPhase run phase').loops other = f.loops other := by
  unfold run? at hrun
  obtain ⟨hlt, hget⟩ := List.getElem?_eq_some_iff.mp hrun
  obtain ⟨before, r, after, hruns, hlength, hmodify⟩ :=
    List.exists_of_modify (fun r : Run => { r with phase := phase' }) hlt
  obtain rfl : r = ⟨worker, phase⟩ := by
    rw [← hget]
    simp [hruns, ← hlength]
  unfold loops setPhase
  dsimp only
  rw [hmodify, hruns]
  constructor
  · refine ⟨before.filterMap (Run.loop? worker), after.filterMap (Run.loop? worker), ?_, ?_⟩
    · simp [Run.loop?, hlive]
    · unfold Phase.live
      cases hended : phase'.isEnded <;> simp [Run.loop?, hended]
  · intro other hother
    simp [Run.loop?, Ne.symm hother]

/-- A run that moves to the phase it is in stays as it is. -/
theorem setPhase_self (hrun : f.run? run = some ⟨worker, phase⟩) : f.setPhase run phase = f := by
  unfold run? at hrun
  have hruns : f.runs.modify run.index (fun r => { r with phase }) = f.runs := by
    refine List.ext_getElem? fun i => ?_
    rw [getElem?_modify_if]
    split
    · rename_i hi
      rw [hi, hrun]
      rfl
    · rfl
  unfold setPhase
  rw [hruns]

/-- The end of a waiting changes one run, if it waits. -/
theorem rouse_eq (hrun : f.run? run = some ⟨worker, phase⟩) :
    f.rouse run = f.setPhase run phase.awake := by
  unfold run? at hrun
  unfold rouse setPhase
  congr 1
  refine List.ext_getElem? fun i => ?_
  rw [getElem?_modify_if, getElem?_modify_if]
  split
  · rename_i hi
    rw [hi, hrun]
    rfl
  · rfl

/-- There is no waiting to end where there is no run. -/
theorem rouse_eq_self (hrun : f.run? run = none) : f.rouse run = f := by
  unfold run? at hrun
  unfold rouse
  rw [List.modify_eq_self (List.getElem?_eq_none_iff.mp hrun)]

/-- The end of a waiting leaves the loops of a worker alone, or moves one of them. -/
theorem loops_rouse (f : Fleet) (run : RunRef) (ref : WorkerRef) :
    (f.rouse run).loops ref = f.loops ref ∨
      ∃ before phase after, f.loops ref = before ++ phase :: after ∧
        (f.rouse run).loops ref = before ++ phase.awake :: after := by
  cases hrun : f.run? run with
  | none => exact .inl (by rw [rouse_eq_self hrun])
  | some r =>
    obtain ⟨worker, phase⟩ := r
    rw [rouse_eq hrun]
    cases hended : phase.isEnded with
    | true =>
      have hawake : phase.awake = phase := by
        cases phase with
        | ended outcome => rfl
        | checking | polling | handling => cases hended
      rw [hawake, setPhase_self hrun]
      exact .inl rfl
    | false =>
      obtain ⟨⟨before, after, hloop, hloop'⟩, hothers⟩ := loops_setPhase hrun hended phase.awake
      by_cases href : ref = worker
      · subst href
        refine .inr ⟨before, phase, after, hloop, ?_⟩
        rw [hloop', Phase.live, phase.isEnded_awake, hended, if_neg Bool.false_ne_true,
          List.append_assoc]
        rfl
      · exact .inl (hothers ref href)

/-- A change to a worker, seen from another or itself. -/
theorem worker?_modifyWorker (f : Fleet) (worker : WorkerRef) (change : Worker → Worker)
    (ref : WorkerRef) : (f.modifyWorker worker change).worker? ref =
      if ref = worker then (f.worker? ref).map change else f.worker? ref := by
  obtain ⟨i⟩ := worker
  obtain ⟨j⟩ := ref
  unfold worker? modifyWorker
  dsimp only
  rw [getElem?_modify_if]
  simp only [WorkerRef.mk.injEq]

/-- A worker that runs is not started again, and one that is idle begins a loop. -/
theorem launch_eq {w : Worker} (hworker : f.worker? worker = some w) :
    f.launch worker =
      if w.running then { f with runs := f.runs ++ [⟨worker, .ended .finished⟩] }
      else ({ f with runs := f.runs ++ [⟨worker, .checking⟩] } : Fleet).setWorker worker
        { w with running := true } := by
  have hstarted : ({ f with runs := f.runs ++ [⟨worker, .checking⟩] } : Fleet).worker? worker =
      some w := hworker
  unfold launch
  simp only [hworker]
  split
  · rfl
  · exact modifyWorker_eq hstarted _

/-- A start touches no other worker. -/
theorem launch_others (f : Fleet) {worker ref : WorkerRef} (hne : ref ≠ worker) :
    (f.launch worker).worker? ref = f.worker? ref ∧ (f.launch worker).loops ref = f.loops ref := by
  cases hworker : f.worker? worker with
  | none =>
    rw [launch, hworker]
    exact ⟨rfl, rfl⟩
  | some w =>
    have hstarted : ({ f with runs := f.runs ++ [⟨worker, .checking⟩] } : Fleet).worker? worker =
        some w := hworker
    rw [launch_eq hworker]
    split
    · exact ⟨rfl, by simp [loops, Run.loop?, Ne.symm hne]⟩
    · refine ⟨(worker?_setWorker hstarted _ ref).trans (if_neg hne), ?_⟩
      simp [loops, setWorker, Run.loop?, Ne.symm hne]

/-- A start of a worker that runs changes neither the worker nor its loops. -/
theorem launch_running {w : Worker} (hworker : f.worker? worker = some w)
    (hrunning : w.running = true) : (f.launch worker).worker? worker = some w ∧
      (f.launch worker).loops worker = f.loops worker := by
  rw [launch_eq hworker, if_pos hrunning]
  exact ⟨hworker, by simp [loops, Run.loop?, Phase.isEnded]⟩

/-- A start of an idle worker begins a loop, which comes last. -/
theorem launch_idle {w : Worker} (hworker : f.worker? worker = some w) (hidle : w.running = false) :
    (f.launch worker).worker? worker = some { w with running := true } ∧
      (f.launch worker).loops worker = f.loops worker ++ [.checking] := by
  have hstarted : ({ f with runs := f.runs ++ [⟨worker, .checking⟩] } : Fleet).worker? worker =
      some w := hworker
  rw [launch_eq hworker, if_neg (Bool.eq_false_iff.mp hidle)]
  refine ⟨(worker?_setWorker hstarted _ worker).trans (if_pos rfl), ?_⟩
  simp [loops, setWorker, Run.loop?, Phase.isEnded]

/-! ## One run -/

/-- A run that moves to a phase, seen from another or itself. -/
theorem run?_setPhase (f : Fleet) (run : RunRef) (phase : Phase) (ref : RunRef) :
    (f.setPhase run phase).run? ref =
      if ref = run then (f.run? ref).map fun r => { r with phase } else f.run? ref := by
  obtain ⟨i⟩ := run
  obtain ⟨j⟩ := ref
  unfold run? setPhase
  dsimp only
  rw [getElem?_modify_if]
  simp only [RunRef.mk.injEq]

/-- A run whose waiting ends, seen from another or itself. -/
theorem run?_rouse (f : Fleet) (run ref : RunRef) :
    (f.rouse run).run? ref =
      if ref = run then (f.run? ref).map fun r => { r with phase := r.phase.awake }
      else f.run? ref := by
  obtain ⟨i⟩ := run
  obtain ⟨j⟩ := ref
  unfold run? rouse
  dsimp only
  rw [getElem?_modify_if]
  simp only [RunRef.mk.injEq]

/-- A start keeps the runs there are, and adds one at most. -/
theorem runs_launch (f : Fleet) (worker : WorkerRef) : (f.launch worker).runs = f.runs ∨
    (f.launch worker).runs = f.runs ++ [⟨worker, .ended .finished⟩] ∨
      (f.launch worker).runs = f.runs ++ [⟨worker, .checking⟩] := by
  cases hworker : f.worker? worker with
  | none => exact .inl (by rw [launch, hworker])
  | some w =>
    rw [launch_eq hworker]
    split
    · exact .inr (.inl rfl)
    · exact .inr (.inr rfl)

end Fleet

end MessageBroker
