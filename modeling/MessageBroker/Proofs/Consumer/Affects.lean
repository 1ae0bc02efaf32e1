import MessageBroker.Proofs.Broker.Standing
import MessageBroker.Proofs.Consumer.Moves

/-!
# What a move does to one worker

Of a worker, a move can change its record, the phases of its loops, and what is noted of them.
`Shift.apply_cases` says that all moves together do only six things to these: nothing, a start, two
kinds of signal, the end of some waiting, and a step of one loop, which is an `Effect`. An invariant
of workers is therefore shown by six cases (`Reachable.worker_induct`), and then holds whatever all
others do.

From there it follows that workers keep their queues, and so that the broker of a shift only sees
valid calls: `Reachable.chronicle`.
-/

namespace MessageBroker

open Broker

namespace Shift

/-- What is noted of a worker's loops. -/
def deeds (s : Shift) (ref : WorkerRef) : List Deed :=
  s.notes.filterMap fun note => if note.worker = ref then some note.deed else none

/-- What a move can do to a worker and to the phases of its loops, and what is noted of it. -/
inductive Affects (s : Shift) (w : Worker) :
    List Phase → Worker → List Phase → List Deed → Prop where
  | nothing {phases : List Phase} : Affects s w phases w phases []
  | starts {phases : List Phase} (hidle : w.running = false) :
    Affects s w phases { w with running := true } (phases ++ [.checking]) []
  | stops {phases : List Phase} : Affects s w phases { w with stopped := true } phases []
  | signals {phases : List Phase} (cancel : Bool) :
    Affects s w phases { w with cancelled := cancel } phases []
  | wakes {before after : List Phase} {phase : Phase} :
    Affects s w (before ++ phase :: after) w (before ++ phase.awake :: after) []
  | steps {before after : List Phase} {phase phase' : Phase} {w' : Worker} {g : Fleet}
      (heffect : s.fleet.Effect w phase w' phase' g) :
    Affects s w (before ++ phase :: after) w' (before ++ phase'.live ++ after)
      (s.fleet.deeds w phase)

/-! ## All moves -/

/-- A worker stays as it is, its loops do, and nothing is noted of them. -/
structure Unmoved (s s' : Shift) (ref : WorkerRef) : Prop where
  worker : s'.fleet.worker? ref = s.fleet.worker? ref
  loops : s'.fleet.loops ref = s.fleet.loops ref
  deeds : s'.deeds ref = s.deeds ref

/-- A worker is moved in one of the ways listed. -/
def Affected (s s' : Shift) (ref : WorkerRef) : Prop :=
  ∃ w w' news, s.fleet.worker? ref = some w ∧ s'.fleet.worker? ref = some w' ∧
    s'.deeds ref = s.deeds ref ++ news ∧
    s.Affects w (s.fleet.loops ref) w' (s'.fleet.loops ref) news

namespace Stepped

variable {s s' : Shift} {run : RunRef} {worker : WorkerRef} {w w' : Worker}
  {phase phase' : Phase} {g : Fleet} (h : s.Stepped s' run worker w w' phase phase' g)
include h

/-- The run moves to another phase. -/
theorem loops_eq (ref : WorkerRef) :
    s'.fleet.loops ref = (s.fleet.setPhase run phase').loops ref := by
  obtain ⟨b, hfleet⟩ := h.fleet
  unfold Fleet.loops
  rw [hfleet]
  show (g.runs.modify _ _).filterMap _ = _
  rw [h.effect.others.2]
  rfl

/-- A step moves no worker but that of the run. -/
theorem unmoved {ref : WorkerRef} (hne : ref ≠ worker) : Unmoved s s' ref := by
  have hphase := (Fleet.loops_setPhase h.hrun (Phase.not_ended_of_active h.active) phase').2
  refine ⟨(h.worker?_eq ref).trans (if_neg hne), (h.loops_eq ref).trans (hphase ref hne), ?_⟩
  unfold deeds
  rw [h.notes, List.filterMap_append, List.filterMap_map]
  simp [Ne.symm hne]

/-- What is noted of a step. -/
theorem deeds_eq : s'.deeds worker = s.deeds worker ++ s.fleet.deeds w phase := by
  unfold deeds
  rw [h.notes, List.filterMap_append, List.filterMap_map]
  simp

/-- What a step does to the worker of the run. -/
theorem affected : Affected s s' worker := by
  obtain ⟨⟨before, after, hloop, hloop'⟩, -⟩ :=
    Fleet.loops_setPhase h.hrun (Phase.not_ended_of_active h.active) phase'
  refine ⟨w, w', _, h.hworker, (h.worker?_eq worker).trans (if_pos rfl), h.deeds_eq, ?_⟩
  rw [h.loops_eq, hloop', hloop]
  exact .steps h.effect

/-- A step moves the worker of the run, and no other. -/
theorem unmoved_or_affected (ref : WorkerRef) : Unmoved s s' ref ∨ Affected s s' ref := by
  by_cases href : ref = worker
  · exact .inr (href ▸ h.affected)
  · exact .inl (h.unmoved href)

end Stepped

/-- What a change to one worker's record does to all workers. -/
theorem modify_cases (s : Shift) (worker : WorkerRef) {change : Worker → Worker}
    (hchange : ∀ w phases, s.Affects w phases (change w) phases []) (ref : WorkerRef) :
    Unmoved s (s.withFleet (·.modifyWorker worker change)) ref ∨
      Affected s (s.withFleet (·.modifyWorker worker change)) ref := by
  have hset := s.fleet.worker?_modifyWorker worker change ref
  by_cases href : ref = worker
  · rw [if_pos href] at hset
    cases hw : s.fleet.worker? ref with
    | none => exact .inl ⟨(hset.trans (by rw [hw]; rfl)).trans hw.symm, rfl, rfl⟩
    | some w =>
      rw [hw] at hset
      exact .inr ⟨w, change w, [], hw, hset, (List.append_nil _).symm, hchange w _⟩
  · exact .inl ⟨hset.trans (if_neg href), rfl, rfl⟩

/-- What a start does to all workers. -/
theorem launch_cases (s : Shift) (worker ref : WorkerRef) :
    Unmoved s (s.withFleet (·.launch worker)) ref ∨
      Affected s (s.withFleet (·.launch worker)) ref := by
  by_cases href : ref = worker
  · subst href
    cases hw : s.fleet.worker? ref with
    | none =>
      left
      have hself : s.fleet.launch ref = s.fleet := by rw [Fleet.launch, hw]
      rw [withFleet, hself]
      exact ⟨rfl, rfl, rfl⟩
    | some w =>
      cases hrunning : w.running with
      | true =>
        obtain ⟨hworker, hloops⟩ := Fleet.launch_running hw hrunning
        exact .inl ⟨hworker.trans hw.symm, hloops, rfl⟩
      | false =>
        obtain ⟨hworker, hloops⟩ := Fleet.launch_idle hw hrunning
        refine .inr ⟨w, _, [], hw, hworker, (List.append_nil _).symm, ?_⟩
        exact hloops ▸ .starts hrunning
  · obtain ⟨hworker, hloops⟩ := s.fleet.launch_others href
    exact .inl ⟨hworker, hloops, rfl⟩

/-- Every move leaves a worker unmoved or moves it in one of the ways listed, if it exists; and if
it does not, and has no loops, the move may add it as a new one. -/
theorem apply_cases (s : Shift) (v : Move) (ref : WorkerRef) :
    Unmoved s (s.apply v) ref ∨ Affected s (s.apply v) ref ∨
      s.fleet.worker? ref = none ∧ (s.fleet.loops ref ≠ [] ∨
        ∃ name queue handler pollInterval, v = .addWorker name queue handler pollInterval ∧
          (s.apply v).fleet.worker? ref = some (.create name queue handler pollInterval) ∧
          (s.apply v).fleet.loops ref = s.fleet.loops ref ∧
          (s.apply v).deeds ref = s.deeds ref) := by
  have hkind := s.kind v
  generalize s.apply v = s' at hkind ⊢
  cases hkind with
  | nothing => exact .inl ⟨rfl, rfl, rfl⟩
  | steps hv h => exact (h.unmoved_or_affected ref).imp_right .inl
  | guests | broker | addStore | elapse | setWall => exact .inl ⟨rfl, rfl, rfl⟩
  | addWorker name queue handler pollInterval =>
    have hnew : (s.fleet.addWorker (.create name queue handler pollInterval)).2.worker? ref =
        (s.fleet.workers ++ [.create name queue handler pollInterval])[ref.index]? := rfl
    rw [List.getElem?_append] at hnew
    split at hnew
    · exact .inl ⟨hnew, rfl, rfl⟩
    · rename_i hge
      have hnone : s.fleet.worker? ref = none := List.getElem?_eq_none (Nat.le_of_not_lt hge)
      by_cases hindex : ref.index - s.fleet.workers.length = 0
      · rw [hindex] at hnew
        exact .inr (.inr ⟨hnone, .inr ⟨name, queue, handler, pollInterval, rfl, hnew, rfl, rfl⟩⟩)
      · rw [List.getElem?_eq_none (Nat.one_le_iff_ne_zero.mpr hindex)] at hnew
        exact .inl ⟨hnew.trans hnone.symm, rfl, rfl⟩
  | start worker => exact (s.launch_cases worker ref).imp_right .inl
  | stop worker => exact (s.modify_cases worker (fun _ _ => .stops) ref).imp_right .inl
  | signal worker cancel =>
    exact (s.modify_cases worker (fun _ _ => .signals cancel) ref).imp_right .inl
  | wake run =>
    rcases s.fleet.loops_rouse run ref with h | ⟨before, phase, after, hloop, hloop'⟩
    · exact .inl ⟨rfl, h, rfl⟩
    · right
      cases hw : s.fleet.worker? ref with
      | none => exact .inr ⟨rfl, .inl (by rw [hloop]; simp)⟩
      | some w =>
        refine .inl ⟨w, w, [], hw, hw, (List.append_nil _).symm, ?_⟩
        show s.Affects w _ w ((s.fleet.rouse run).loops ref) []
        rw [hloop, hloop']
        exact .wakes

/-! ## Invariants of workers -/

/-- A worker that does not exist has no loops, and nothing is noted of it. -/
theorem Reachable.stranger {s : Shift} (hs : s.Reachable) {ref : WorkerRef}
    (hw : s.fleet.worker? ref = none) : s.fleet.loops ref = [] ∧ s.deeds ref = [] := by
  induction hs with
  | create defaults clock => exact ⟨rfl, rfl⟩
  | @apply s v hs hv ih =>
    rcases s.apply_cases v ref with h | ⟨w, w', news, -, hw', -⟩ | ⟨hnone, hloop | h⟩
    · rw [h.loops, h.deeds]
      exact ih (h.worker.symm.trans hw)
    · rw [hw'] at hw
      cases hw
    · exact absurd (ih hnone).1 hloop
    · obtain ⟨name, queue, handler, pollInterval, -, hnew, -⟩ := h
      rw [hnew] at hw
      cases hw

/-- What holds of every new worker, and is kept by everything that can happen to a worker, holds of
every worker in every state of every run. -/
theorem Reachable.worker_induct {P : Worker → List Phase → List Deed → Prop}
    (hcreate : ∀ name queue handler pollInterval,
      P (.create name queue handler pollInterval) [] [])
    (haffects : ∀ (s : Shift) w w' phases phases' deeds news, s.Reachable →
      s.Affects w phases w' phases' news → P w phases deeds → P w' phases' (deeds ++ news))
    {s : Shift} (hs : s.Reachable) {ref : WorkerRef} {w : Worker}
    (hw : s.fleet.worker? ref = some w) : P w (s.fleet.loops ref) (s.deeds ref) := by
  induction hs generalizing w with
  | create defaults clock => cases hw
  | @apply s v hs hv ih =>
    rcases s.apply_cases v ref with h | ⟨w₀, w', news, hw₀, hw', hdeeds, h⟩ | ⟨hnone, hloop | h⟩
    · rw [h.loops, h.deeds]
      exact ih (h.worker.symm.trans hw)
    · obtain rfl := Option.some.inj (hw'.symm.trans hw)
      rw [hdeeds]
      exact haffects s w₀ _ _ _ _ _ hs h (ih hw₀)
    · exact absurd (hs.stranger hnone).1 hloop
    · obtain ⟨name, queue, handler, pollInterval, -, hnew, hloops, hdeeds⟩ := h
      obtain rfl := Option.some.inj (hnew.symm.trans hw)
      rw [hloops, hdeeds, (hs.stranger hnone).1, (hs.stranger hnone).2]
      exact hcreate name queue handler pollInterval

/-! ## What the broker sees -/

/-- Whatever happens to a worker, it keeps its queue and its handler. -/
theorem Affects.keeps {s : Shift} {w w' : Worker} {phases phases' : List Phase} {news : List Deed}
    (h : s.Affects w phases w' phases' news) : w'.queue = w.queue ∧ w'.handler = w.handler := by
  cases h with
  | steps heffect => exact heffect.keeps
  | _ => exact ⟨rfl, rfl⟩

/-- A publication is given no queue and no topic, only a name. -/
theorem valid_publish (b : Broker) (topic : String) (m : Message) (deadline : Option Span)
    (clock : Nat → Span) : (Operation.publish topic m deadline clock).Valid b :=
  ⟨fun _ href => absurd href List.not_mem_nil, fun _ href => absurd href List.not_mem_nil⟩

/-- The call of a step is given a queue that exists. -/
theorem valid_of_call? {f : Fleet} {w : Worker} {phase : Phase} {op : Operation}
    (hqueue : f.broker.HasQueue w.queue) (h : f.call? w phase = some op) : op.Valid f.broker := by
  have hone : ∀ ref ∈ [w.queue], f.broker.HasQueue ref := fun ref href =>
    List.mem_singleton.mp href ▸ hqueue
  unfold Fleet.call? at h
  split at h
  · split at h
    · cases h
    · cases h
      exact ⟨hone, fun ref href => absurd href List.not_mem_nil⟩
  · rename_i how _
    cases h
    cases how <;> exact ⟨hone, fun ref href => absurd href List.not_mem_nil⟩
  · cases h
    exact valid_publish _ _ _ _ _
  · rename_i failure _
    cases h
    cases failure <;> exact ⟨hone, fun ref href => absurd href List.not_mem_nil⟩
  · cases h

/-- A start leaves the broker, the clocks and the stores alone. -/
theorem launch_frame (f : Fleet) (worker : WorkerRef) : (f.launch worker).broker = f.broker ∧
    (f.launch worker).clock = f.clock ∧ (f.launch worker).stores = f.stores := by
  cases hworker : f.worker? worker with
  | none =>
    rw [Fleet.launch, hworker]
    exact ⟨rfl, rfl, rfl⟩
  | some w =>
    rw [Fleet.launch_eq hworker]
    split <;> exact ⟨rfl, rfl, rfl⟩

/-- A move of a shift whose workers have queues is one valid move for the broker at most. -/
theorem chronicle_apply {s : Shift} {v : Move} (hv : v.Valid s.fleet)
    (hqueues : ∀ ref w, s.fleet.worker? ref = some w → s.fleet.broker.HasQueue w.queue) :
    (s.apply v).chronicle = s.chronicle ∨
      ∃ u : Chronicle.Move, u.Valid s.fleet.broker ∧
        (s.apply v).chronicle = s.chronicle.apply u := by
  have hkind := s.kind v
  generalize s.apply v = s' at hkind ⊢
  cases hkind with
  | broker u => exact .inr ⟨u, hv, rfl⟩
  | @steps v s' run worker w w' phase phase' g hstep h =>
    rcases h.calls with hc | ⟨m, began, reason, elapsed, -, hc⟩
    · cases hcall : s.fleet.call? w phase with
      | none => exact .inl (by rw [hc, hcall]; rfl)
      | some op =>
        refine .inr ⟨.call op, valid_of_call? (hqueues worker w h.hworker) hcall, ?_⟩
        rw [hc, hcall]
        rfl
    · exact .inr ⟨.giveBack w.queue m.handle, trivial, hc⟩
  | start worker =>
    left
    show (⟨(s.fleet.launch worker).broker, s.journal, s.flying⟩ : Chronicle) = _
    rw [(launch_frame s.fleet worker).1]
    rfl
  | _ => exact .inl rfl

end Shift

/-- No move removes a queue. -/
theorem Chronicle.Sound.hasQueue_apply {c : Chronicle} (hs : c.Sound) {v : Chronicle.Move}
    (hv : v.Valid c.broker) {q : QueueRef} (hq : c.broker.HasQueue q) :
    (c.apply v).broker.HasQueue q := by
  cases v with
  | call op =>
    show (c.perform op).broker.HasQueue q
    rw [c.broker_perform]
    cases hregisters : op.registers with
    | false => exact ((sameObjects_perform hs.closed hv hregisters).hasQueue q).mpr hq
    | true =>
      unfold HasQueue at hq ⊢
      rcases (c.broker.perform_of_registers hregisters).2 with h | ⟨name, timeout, budget, dead, h⟩
      · rw [h]
        exact hq
      · rw [h, List.length_append]
        exact Nat.lt_add_right _ hq
  | deliver topic m target =>
    obtain ⟨qu, hqu⟩ := HasQueue.queue? hv
    obtain ⟨copy, hchange⟩ := deliver_changes hqu topic m
    exact (hchange.hasQueue q).mpr hq
  | giveBack ref h =>
    show (c.giveBack ref h).broker.HasQueue q
    unfold Chronicle.giveBack
    cases he : c.broker.giveBack ref h with
    | error fault => exact hq
    | ok result =>
      obtain ⟨b, letter⟩ := result
      have hsame := ((sameObjects_giveBack he).hasQueue q).mpr hq
      cases letter <;> exact hsame
  | land i =>
    show (c.land i).broker.HasQueue q
    unfold Chronicle.land
    cases c.flying[i]? with
    | none => exact hq
    | some x => exact ((sameObjects_deposit hs.closed x.2).hasQueue q).mpr hq

namespace Shift

/-- In every state of every run, the broker has seen valid moves only, and the queue of every worker
exists. -/
theorem Reachable.provided {s : Shift} (hs : s.Reachable) : s.chronicle.Reachable ∧
    ∀ ref w, s.fleet.worker? ref = some w → s.fleet.broker.HasQueue w.queue := by
  induction hs with
  | create defaults clock => exact ⟨.create defaults, fun ref w hw => nomatch hw⟩
  | @apply s v hs hv ih =>
    obtain ⟨hc, hqueues⟩ := ih
    have hstays : (s.apply v).chronicle.Reachable ∧
        ∀ q, s.fleet.broker.HasQueue q → (s.apply v).fleet.broker.HasQueue q := by
      rcases chronicle_apply hv hqueues with h | ⟨u, hu, h⟩
      · have hbroker : (s.apply v).fleet.broker = s.fleet.broker := congrArg Chronicle.broker h
        rw [h, hbroker]
        exact ⟨hc, fun q hq => hq⟩
      · have hbroker : (s.apply v).fleet.broker = (s.chronicle.apply u).broker :=
          congrArg Chronicle.broker h
        rw [h, hbroker]
        exact ⟨hc.apply hu, fun q hq => hc.sound.hasQueue_apply hu hq⟩
    refine ⟨hstays.1, fun ref w' hw' => hstays.2 _ ?_⟩
    rcases s.apply_cases v ref with h | ⟨w, w'', news, hw, hw'', -, h⟩ | ⟨hnone, hloop | h⟩
    · exact hqueues ref w' (h.worker.symm.trans hw')
    · obtain rfl := Option.some.inj (hw''.symm.trans hw')
      rw [h.keeps.1]
      exact hqueues ref w hw
    · exact absurd (hs.stranger hnone).1 hloop
    · obtain ⟨name, queue, handler, pollInterval, rfl, hnew, -⟩ := h
      obtain rfl := Option.some.inj (hnew.symm.trans hw')
      exact hv.1

/-- What the broker sees of a run is a run of the broker. -/
theorem Reachable.chronicle {s : Shift} (hs : s.Reachable) : s.chronicle.Reachable := hs.provided.1

end Shift

end MessageBroker
