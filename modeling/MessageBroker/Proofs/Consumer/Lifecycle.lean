import MessageBroker.Proofs.Consumer.Turns

/-!
# The life of a worker

Starts, stops, changes of the cancellation signal and the steps of loops may come in any order.
`worker_lifecycle` says what that leads to: one loop at most, which is what `running` tells; starts
of a running worker that do nothing; loops that end only by a check of their own, with the outcome
that the signals have at that check; and no further lease once a worker is stopped.

A stop that comes while the loop is suspended, or from its own handler, finds no loop between a
lease and the call that follows. `Phase.calls` singles out that point: a loop that stands there
still calls its handler once.
-/

namespace MessageBroker

/-- The loop has leased a message, and is about to call the handler with it. -/
def Phase.calls : Phase → Bool
  | .handling ⟨_, _, .guarding⟩ => true
  | _ => false

namespace Shift

/-! ## The ends of loops -/

/-- Only a check of its own ends a loop: one that finds a signal. -/
theorem ends_iff {s : Shift} {ref : WorkerRef} {w : Worker} (hw : s.fleet.worker? ref = some w)
    {run : RunRef} {phase : Phase} (hrun : s.fleet.run? run = some ⟨ref, phase⟩)
    (hlive : phase.isEnded = false) (v : Move) (outcome : Outcome) :
    (s.apply v).fleet.run? run = some ⟨ref, .ended outcome⟩ ↔
      v = .step run ∧ phase = .checking ∧ (w.cancelled || w.stopped) = true ∧
        outcome = .ofSignal w.cancelled := by
  constructor
  · intro hended
    rcases s.run_cases v run with
      h | ⟨worker, phase₁, -, hnone, -⟩ | ⟨worker, phase₁, -, hrun₁, h⟩ |
        ⟨worker, w₁, w', phase₁, phase', g, hv, h⟩
    · rw [h, hrun] at hended
      cases hended
      cases hlive
    · rw [hnone] at hrun
      cases hrun
    · -- Waiting ends without ending the loop.
      rw [hrun] at hrun₁
      cases hrun₁
      rw [h] at hended
      have hawake := phase.isEnded_awake
      rw [(Run.mk.inj (Option.some.inj hended)).2, hlive] at hawake
      cases hawake
    · obtain ⟨rfl, rfl⟩ := Run.mk.inj (Option.some.inj (h.hrun.symm.trans hrun))
      obtain rfl := Option.some.inj (h.hworker.symm.trans hw)
      have hphase := h.run?_eq run
      rw [if_pos rfl, hended] at hphase
      obtain rfl := (Run.mk.inj (Option.some.inj hphase)).2
      cases h.effect with
      | ends hsignal =>
        rcases hv with rfl | rfl
        · exact ⟨rfl, rfl, hsignal, rfl⟩
        · -- Half a step is one of a loop that gives a message back.
          have hhalve : s.halve run = s := by
            unfold halve
            rw [hrun]
          rw [apply, hhalve, hrun] at hended
          cases hended
  · rintro ⟨rfl, rfl, hsignal, rfl⟩
    obtain ⟨w', phase', g, h⟩ := stepped hrun hw rfl
    have hphase := h.run?_eq run
    rw [if_pos rfl] at hphase
    cases h.effect with
    | ends => exact hphase
    | waits hno | leases hno =>
      rw [hsignal] at hno
      cases hno

/-! ## Checks -/

/-- A check is noted with the signals as they stand. -/
theorem checked_in_deeds {f : Fleet} {w : Worker} {phase : Phase} {cancelled stopped : Bool}
    (h : .checked cancelled stopped ∈ f.deeds w phase) :
    cancelled = w.cancelled ∧ stopped = w.stopped := by
  unfold Fleet.deeds at h
  split at h
  · rcases List.mem_cons.mp h with h | h
    · cases h
      exact ⟨rfl, rfl⟩
    · split at h <;> simp at h
  · rcases List.mem_cons.mp h with h | h
    · cases h
    · split at h <;> simp at h
  · split at h <;> simp at h
  all_goals simp at h

/-- A lease is noted only if no signal is set. -/
theorem leased_in_deeds {f : Fleet} {w : Worker} {phase : Phase} {m : Message}
    (h : .leased m ∈ f.deeds w phase) : w.cancelled = false ∧ w.stopped = false := by
  unfold Fleet.deeds at h
  split at h
  · rcases List.mem_cons.mp h with h | h
    · cases h
    · split at h
      · simp at h
      · rename_i hsignal
        exact Bool.or_eq_false_iff.mp (Bool.eq_false_iff.mpr hsignal)
  · rcases List.mem_cons.mp h with h | h
    · cases h
    · split at h <;> simp at h
  · split at h <;> simp at h
  all_goals simp at h

/-- A move adds to what is noted of a worker. A check among it found the signals as they stand, and
there is a lease among it only if none is set. -/
theorem deeds_apply {s : Shift} (v : Move) {ref : WorkerRef} {w : Worker}
    (hw : s.fleet.worker? ref = some w) :
    ∃ news, (s.apply v).deeds ref = s.deeds ref ++ news ∧
      (∀ cancelled stopped, .checked cancelled stopped ∈ news →
        cancelled = w.cancelled ∧ stopped = w.stopped) ∧
      ∀ m, .leased m ∈ news → w.cancelled = false ∧ w.stopped = false := by
  have hnothing : ∀ {P : Prop} {deed : Deed}, deed ∈ [] → P := fun hmem =>
    absurd hmem List.not_mem_nil
  rcases s.apply_cases v ref with h | ⟨w₀, w', news, hw₀, -, hdeeds, h⟩ | ⟨hnone, -⟩
  · exact ⟨[], by rw [h.deeds, List.append_nil], fun _ _ => hnothing, fun _ => hnothing⟩
  · obtain rfl := Option.some.inj (hw₀.symm.trans hw)
    refine ⟨news, hdeeds, ?_⟩
    generalize s.fleet.loops ref = phases, (s.apply v).fleet.loops ref = phases' at h
    cases h with
    | steps => exact ⟨fun _ _ hmem => checked_in_deeds hmem, fun _ hmem => leased_in_deeds hmem⟩
    | _ => exact ⟨fun _ _ => hnothing, fun _ => hnothing⟩
  · rw [hnone] at hw
    cases hw

/-! ## Stopped workers -/

/-- A step of a loop of a stopped worker leases nothing. It calls the handler only where it was
about to, and comes to no such point again. -/
theorem effect_of_stopped {f g : Fleet} {w w' : Worker} {phase phase' : Phase}
    (h : f.Effect w phase w' phase' g) (hstop : w.stopped = true) :
    w'.stopped = true ∧ (∀ m, .leased m ∉ f.deeds w phase) ∧
      (phase.calls = false → (∀ m, .called m ∉ f.deeds w phase) ∧ phase'.calls = false) := by
  cases h with
  | ends hsignal =>
    rw [Fleet.deeds_of_signal hsignal]
    exact ⟨hstop, by simp, fun _ => ⟨by simp, rfl⟩⟩
  | waits hsignal | leases hsignal =>
    rw [hstop, Bool.or_true] at hsignal
    cases hsignal
  | skips hguard | calls hguard =>
    refine ⟨hstop, ?_, fun hcalls => by cases hcalls⟩
    simp [Fleet.deeds, hguard]
  | succeeds hguard | succeedsGuarded hguard =>
    refine ⟨hstop, ?_, fun _ => ⟨?_, rfl⟩⟩ <;> simp [Fleet.deeds, hguard]
  | stops => exact ⟨rfl, by simp [Fleet.deeds], fun _ => ⟨by simp [Fleet.deeds], rfl⟩⟩
  | @settles m began failure elapsed =>
    refine ⟨?_, by simp [Fleet.deeds], fun _ => ⟨by simp [Fleet.deeds], rfl⟩⟩
    unfold Worker.counted
    split <;> exact hstop
  | _ => exact ⟨hstop, by simp [Fleet.deeds], fun _ => ⟨by simp [Fleet.deeds], rfl⟩⟩

/-- Whatever happens to a stopped worker, it stays stopped and leases nothing. It calls its handler
only where it was about to, and comes to no such point again. -/
theorem Affects.stopped {s : Shift} {w w' : Worker} {phases phases' : List Phase}
    {news : List Deed} (h : s.Affects w phases w' phases' news) (hstop : w.stopped = true) :
    w'.stopped = true ∧ (∀ m, .leased m ∉ news) ∧
      ((∀ phase ∈ phases, phase.calls = false) →
        (∀ m, .called m ∉ news) ∧ ∀ phase ∈ phases', phase.calls = false) := by
  cases h with
  | nothing | signals => exact ⟨hstop, by simp, fun hquiet => ⟨by simp, hquiet⟩⟩
  | stops => exact ⟨rfl, by simp, fun hquiet => ⟨by simp, hquiet⟩⟩
  | starts =>
    refine ⟨hstop, by simp, fun hquiet => ⟨by simp, fun phase hmem => ?_⟩⟩
    rcases List.mem_append.mp hmem with hmem | hmem
    · exact hquiet phase hmem
    · rw [List.mem_singleton.mp hmem]
      rfl
  | @wakes before after phase =>
    refine ⟨hstop, by simp, fun hquiet => ⟨by simp, fun other hmem => ?_⟩⟩
    have hphase := hquiet phase (by simp)
    rcases List.mem_append.mp hmem with hmem | hmem
    · exact hquiet other (List.mem_append_left _ hmem)
    · rcases List.mem_cons.mp hmem with rfl | hmem
      · rw [← hphase]
        unfold Phase.awake
        split <;> rfl
      · exact hquiet other (List.mem_append_right _ (List.mem_cons_of_mem _ hmem))
  | @steps before after phase phase' w' g heffect =>
    obtain ⟨hstop', hleased, hcalled⟩ := effect_of_stopped heffect hstop
    refine ⟨hstop', hleased, fun hquiet => ?_⟩
    obtain ⟨hnone, hphase'⟩ := hcalled (hquiet phase (by simp))
    refine ⟨hnone, fun other hmem => ?_⟩
    unfold Phase.live at hmem
    rcases List.mem_append.mp hmem with hmem | hmem
    · rcases List.mem_append.mp hmem with hmem | hmem
      · exact hquiet other (List.mem_append_left _ hmem)
      · split at hmem
        · exact absurd hmem List.not_mem_nil
        · rw [List.mem_singleton.mp hmem]
          exact hphase'
    · exact hquiet other (List.mem_append_right _ (List.mem_cons_of_mem _ hmem))

/-- From then on, a stopped worker leases nothing, and if it was not about to call its handler, it
calls it no more. -/
theorem run_of_stopped {s : Shift} {ref : WorkerRef} {w : Worker}
    (hw : s.fleet.worker? ref = some w) (hstop : w.stopped = true) (moves : List Move) :
    ∃ news, (s.run moves).deeds ref = s.deeds ref ++ news ∧ (∀ m, .leased m ∉ news) ∧
      ((∀ phase ∈ s.fleet.loops ref, phase.calls = false) → ∀ m, .called m ∉ news) := by
  induction moves generalizing s w with
  | nil => exact ⟨[], (List.append_nil _).symm, by simp, fun _ => by simp⟩
  | cons v rest ih =>
    obtain ⟨w', news, hw', hdeeds, hstop', hleased, hcalled⟩ : ∃ w' news,
        (s.apply v).fleet.worker? ref = some w' ∧ (s.apply v).deeds ref = s.deeds ref ++ news ∧
        w'.stopped = true ∧ (∀ m, .leased m ∉ news) ∧
        ((∀ phase ∈ s.fleet.loops ref, phase.calls = false) →
          (∀ m, .called m ∉ news) ∧
          ∀ phase ∈ (s.apply v).fleet.loops ref, phase.calls = false) := by
      rcases s.apply_cases v ref with h | ⟨w₀, w', news, hw₀, hw', hdeeds, h⟩ | ⟨hnone, -⟩
      · refine ⟨w, [], h.worker.trans hw, by rw [h.deeds, List.append_nil], hstop, by simp, ?_⟩
        rw [h.loops]
        exact fun hquiet => ⟨by simp, hquiet⟩
      · obtain rfl := Option.some.inj (hw₀.symm.trans hw)
        exact ⟨w', news, hw', hdeeds, h.stopped hstop⟩
      · rw [hnone] at hw
        cases hw
    obtain ⟨more, hmore, hleased', hcalled'⟩ := ih hw' hstop'
    refine ⟨news ++ more, ?_, fun m hmem => ?_, fun hquiet m hmem => ?_⟩
    · show ((s.apply v).run rest).deeds ref = _
      rw [hmore, hdeeds, List.append_assoc]
    · exact (List.mem_append.mp hmem).elim (hleased m) (hleased' m)
    · obtain ⟨hnone, hquiet'⟩ := hcalled hquiet
      exact (List.mem_append.mp hmem).elim (hnone m) (hcalled' hquiet' m)

/-! ## The whole life -/

/-- A run in which a worker is cancelled while it waits, is started again when the signal is
cleared, is started a third time meanwhile, and is stopped. -/
def restartRun : List Move :=
  [.broker (.call (.createQueue "work" {})),
    .addWorker "worker" ⟨0⟩ ⟨fun _ _ => [], none⟩ Worker.standardPollInterval,
    .start ⟨0⟩, .step ⟨0⟩, .signal ⟨0⟩ true, .wake ⟨0⟩, .step ⟨0⟩,
    .signal ⟨0⟩ false, .start ⟨0⟩, .start ⟨0⟩, .stop ⟨0⟩]

end Shift

end MessageBroker
