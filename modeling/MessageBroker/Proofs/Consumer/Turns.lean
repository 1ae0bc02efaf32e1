import MessageBroker.Proofs.Consumer.Affects

/-!
# The turns of a loop

A loop goes round in turns. Each begins with a check of the signals. It ends the loop, or finds no
message, or hands one message through: a lease, a call of the handler, its return, and one attempt
to settle the message with the handle of that lease. `Reachable.orderly` says that what is noted of
a worker is a sequence of whole turns and of what its loop in progress, if there is one, has done of
the next; and that there is never more than one loop, which is in progress exactly while the worker
counts as running.
-/

namespace MessageBroker

/-- A turn of a loop, from one check to the next. -/
inductive Turn where
  /-- The check found a signal, and the loop ended. -/
  | ends (cancelled stopped : Bool) (signal : (cancelled || stopped) = true)
  /-- No message was visible. -/
  | waits
  /-- A message was leased, handled, and settled if that was accepted. -/
  | handles (message : Message) (failure : Option String) (accepted : Bool)

/-- What a turn is noted as. -/
def Turn.deeds : Turn → List Deed
  | .ends cancelled stopped _ => [.checked cancelled stopped, .ended (.ofSignal cancelled)]
  | .waits => [.checked false false]
  | .handles m failure accepted =>
    [.checked false false, .leased m, .called m, .returned failure,
      .settled m.handle (.after failure) accepted]

/-- What a loop has done of its turn. -/
def Phase.begun : Phase → List Deed
  | .handling ⟨m, _, .guarding⟩ => [.checked false false, .leased m]
  | .handling ⟨m, _, .settling failure _⟩ =>
    [.checked false false, .leased m, .called m, .returned failure]
  | .handling ⟨m, _, _⟩ => [.checked false false, .leased m, .called m]
  | .checking | .polling _ | .ended _ => []

/-- A loop that waits has done the same of its turn when the waiting ends. -/
theorem Phase.begun_awake (phase : Phase) : phase.awake.begun = phase.begun := by
  unfold awake
  split <;> rfl

/-- A step goes on in a turn, or completes it. -/
theorem Fleet.Effect.turns {f g : Fleet} {w w' : Worker} {phase phase' : Phase}
    (h : f.Effect w phase w' phase' g) :
    ∃ turns : List Turn,
      phase.begun ++ f.deeds w phase = turns.flatMap Turn.deeds ++ phase'.begun := by
  cases h with
  | ends hsignal =>
    rw [deeds_of_signal hsignal]
    exact ⟨[.ends w.cancelled w.stopped hsignal], rfl⟩
  | waits hsignal hrec =>
    obtain ⟨hcancel, hstop⟩ := Bool.or_eq_false_iff.mp hsignal
    rw [deeds_of_receive hsignal hrec, hcancel, hstop]
    exact ⟨[.waits], rfl⟩
  | leases hsignal hrec =>
    obtain ⟨hcancel, hstop⟩ := Bool.or_eq_false_iff.mp hsignal
    rw [deeds_of_receive hsignal hrec, hcancel, hstop]
    exact ⟨[], rfl⟩
  | skips hguard | calls hguard =>
    rw [deeds_of_guard hguard]
    exact ⟨[], rfl⟩
  | succeeds hguard | succeedsGuarded hguard =>
    rw [deeds_of_last hguard]
    exact ⟨[], rfl⟩
  | @settles m began failure elapsed =>
    exact ⟨[.handles m failure (f.broker.accepts w.queue m.handle (.after failure))], rfl⟩
  | _ => exact ⟨[], rfl⟩

/-- A step ends the loop and the running of the worker together. -/
theorem Fleet.Effect.running {f g : Fleet} {w w' : Worker} {phase phase' : Phase}
    (h : f.Effect w phase w' phase' g) (hrunning : w.running = true) :
    w'.running = !phase'.isEnded := by
  cases h with
  | ends => rfl
  | settles =>
    unfold Worker.counted
    split <;> exact hrunning
  | _ => exact hrunning

/-- Where there is a loop for a running worker only, a loop is the only one. -/
theorem loop_alone {before after : List Phase} {phase : Phase} {w : Worker}
    (h : (before ++ phase :: after).length = w.running.toNat) :
    before = [] ∧ after = [] ∧ w.running = true := by
  have hle := w.running.toNat_le
  simp only [List.length_append, List.length_cons] at h
  refine ⟨List.eq_nil_of_length_eq_zero (by omega), List.eq_nil_of_length_eq_zero (by omega), ?_⟩
  exact Bool.toNat_eq_one.mp (by omega)

/-- A worker has one loop if it is running and none else, and what is noted of it is whole turns and
what its loop has done of the next. -/
def Orderly (w : Worker) (phases : List Phase) (deeds : List Deed) : Prop :=
  phases.length = w.running.toNat ∧
    ∃ turns : List Turn, deeds = turns.flatMap Turn.deeds ++ phases.flatMap Phase.begun

namespace Shift

/-- Whatever happens to a worker, it stays orderly. -/
theorem Affects.orderly {s : Shift} {w w' : Worker} {phases phases' : List Phase}
    {deeds news : List Deed} (h : s.Affects w phases w' phases' news)
    (horderly : Orderly w phases deeds) : Orderly w' phases' (deeds ++ news) := by
  obtain ⟨hone, turns, rfl⟩ := horderly
  cases h with
  | nothing | stops | signals => exact ⟨hone, turns, List.append_nil _⟩
  | starts hidle =>
    rw [hidle] at hone
    have hnone := List.eq_nil_of_length_eq_zero hone
    subst hnone
    exact ⟨rfl, turns, by simp [Phase.begun]⟩
  | @wakes before after phase =>
    refine ⟨by simpa using hone, turns, ?_⟩
    simp [phase.begun_awake]
  | @steps before after phase phase' w' g heffect =>
    obtain ⟨rfl, rfl, hrunning⟩ := loop_alone hone
    obtain ⟨more, hmore⟩ := heffect.turns
    have hrunning' := heffect.running hrunning
    unfold Phase.live
    cases hended : phase'.isEnded with
    | true =>
      have hbegun : phase'.begun = [] := by
        cases phase' with
        | ended outcome => rfl
        | checking | polling | handling => cases hended
      rw [hended] at hrunning'
      refine ⟨by rw [hrunning']; rfl, turns ++ more, ?_⟩
      simp [hmore, hbegun]
    | false =>
      rw [hended] at hrunning'
      refine ⟨by rw [hrunning']; rfl, turns ++ more, ?_⟩
      simp [hmore]

/-- In every state of every run, every worker is orderly. -/
theorem Reachable.orderly {s : Shift} (hs : s.Reachable) {ref : WorkerRef} {w : Worker}
    (hw : s.fleet.worker? ref = some w) : Orderly w (s.fleet.loops ref) (s.deeds ref) := by
  refine hs.worker_induct (P := Orderly) (fun _ _ _ _ => ⟨rfl, [], rfl⟩) ?_ hw
  intro s w w' phases phases' deeds news _ h horderly
  exact h.orderly horderly

/-- In every state of every run, a loop in progress is the only one of its worker. -/
theorem Reachable.loops_of_run {s : Shift} (hs : s.Reachable) {ref : WorkerRef} {w : Worker}
    (hw : s.fleet.worker? ref = some w) {run : RunRef} {phase : Phase}
    (hrun : s.fleet.run? run = some ⟨ref, phase⟩) (hlive : phase.isEnded = false) :
    s.fleet.loops ref = [phase] := by
  obtain ⟨⟨before, after, hloops, -⟩, -⟩ := Fleet.loops_setPhase hrun hlive phase
  have hone := (hs.orderly hw).1
  rw [hloops] at hone ⊢
  obtain ⟨rfl, rfl, -⟩ := loop_alone hone
  rfl

end Shift

end MessageBroker
