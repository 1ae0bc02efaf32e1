import MessageBroker.Proofs.Consumer.Turns
import MessageBroker.Proofs.Custody.Accounting
import MessageBroker.Proofs.Custody.Receipts

/-!
# One attempt to settle for each lease

Whatever a handler does, a loop that leases a message calls the handler with it once, and then tries
once to settle it with the handle of that lease. The broker accepts the attempt or refuses it, and a
refusal changes nothing. The journal tells which message an accepted attempt settled, and that the
handle of a lease is refused once somebody else has leased the message again. So a worker whose
lease lapsed during a call never settles for its successor (`one_attempt_per_lease`).
-/

namespace MessageBroker

open Broker Custody

/-! ## Rounds -/

namespace Deed

/-- The deed has to do with a message. -/
def isWork : Deed → Bool
  | .checked .. | .ended _ => false
  | .leased _ | .called _ | .returned _ | .settled .. => true

/-- The deed is a lease. -/
def isLease : Deed → Bool
  | .leased _ => true
  | _ => false

/-- The deed is an attempt to settle. -/
def isAttempt : Deed → Bool
  | .settled .. => true
  | _ => false

end Deed

/-- What a loop does with one message: the call of the handler came to this end, and the attempt to
settle was accepted or refused. -/
structure Round where
  message : Message
  failure : Option String
  accepted : Bool

/-- A round is a lease, a call, its return, and one attempt with the handle of the lease: to
acknowledge a success, or to give back after a failure. -/
def Round.deeds (r : Round) : List Deed :=
  [.leased r.message, .called r.message, .returned r.failure,
    .settled r.message.handle (.after r.failure) r.accepted]

/-- The round of a turn, if it handled a message. -/
def Turn.round? : Turn → Option Round
  | .handles m failure accepted => some ⟨m, failure, accepted⟩
  | .ends .. | .waits => none

/-- The work of whole turns is whole rounds. -/
theorem filter_turns (turns : List Turn) : (turns.flatMap Turn.deeds).filter Deed.isWork =
    (turns.filterMap Turn.round?).flatMap Round.deeds := by
  induction turns with
  | nil => rfl
  | cons turn rest ih =>
    rw [List.flatMap_cons, List.filter_append, ih]
    cases turn <;> rfl

/-- The work that a loop has done of its turn is a round without its end. -/
theorem filter_begun (phase : Phase) : ∃ m failure,
    phase.begun.filter Deed.isWork <+: [.leased m, .called m, .returned failure] := by
  cases phase with
  | handling call =>
    obtain ⟨m, began, stage⟩ := call
    cases stage with
    | guarding => exact ⟨m, none, ⟨[.called m, .returned none], rfl⟩⟩
    | settling failure elapsed => exact ⟨m, failure, List.prefix_rfl⟩
    | acting | paused | marking => exact ⟨m, none, ⟨[.returned none], rfl⟩⟩
  | checking | polling | ended => exact ⟨default, none, List.nil_prefix⟩

/-- The work of an orderly worker is whole rounds, and a last one without its end if a loop is in
progress. -/
theorem Orderly.rounds {w : Worker} {phases : List Phase} {deeds : List Deed}
    (h : Orderly w phases deeds) : ∃ (rounds : List Round) (rest : List Deed),
      deeds.filter Deed.isWork = rounds.flatMap Round.deeds ++ rest ∧
      (∃ m failure, rest <+: [.leased m, .called m, .returned failure]) ∧
      (w.running = false → rest = []) := by
  obtain ⟨hone, turns, rfl⟩ := h
  rw [List.filter_append, filter_turns]
  refine ⟨_, _, rfl, ?_, fun hidle => ?_⟩
  · match phases, hone with
    | [], _ => exact ⟨default, none, List.nil_prefix⟩
    | [phase], _ =>
      rw [List.flatMap_singleton]
      exact filter_begun phase
    | _ :: _ :: _, hone =>
      have hle := w.running.toNat_le
      simp only [List.length_cons] at hone
      omega
  · rw [hidle] at hone
    rw [List.eq_nil_of_length_eq_zero hone]
    rfl

/-- Each whole round is one lease and one attempt. -/
theorem count_rounds (rounds : List Round) :
    (rounds.flatMap Round.deeds).countP Deed.isLease = rounds.length ∧
      (rounds.flatMap Round.deeds).countP Deed.isAttempt = rounds.length := by
  induction rounds with
  | nil => exact ⟨rfl, rfl⟩
  | cons r rest ih =>
    obtain ⟨hlease, hattempt⟩ := ih
    rw [List.flatMap_cons, List.countP_append, List.countP_append, hlease, hattempt,
      List.length_cons]
    exact ⟨Nat.add_comm 1 _, Nat.add_comm 1 _⟩

/-- A round without its end is one lease at most, and no attempt. -/
theorem count_rest {rest : List Deed} {m : Message} {failure : Option String}
    (h : rest <+: [.leased m, .called m, .returned failure]) :
    rest.countP Deed.isLease ≤ 1 ∧ rest.countP Deed.isAttempt = 0 :=
  ⟨h.sublist.countP_le, Nat.le_zero.mp h.sublist.countP_le⟩

/-- An orderly worker has tried to settle each of its leases once, but for one at most, and for none
while it has no loop. -/
theorem Orderly.attempts {w : Worker} {phases : List Phase} {deeds : List Deed}
    (h : Orderly w phases deeds) :
    deeds.countP Deed.isAttempt ≤ deeds.countP Deed.isLease ∧
      deeds.countP Deed.isLease ≤ deeds.countP Deed.isAttempt + w.running.toNat := by
  obtain ⟨rounds, rest, hwork, ⟨m, failure, hrest⟩, hidle⟩ := h.rounds
  -- Leases and attempts are work.
  have hcount : ∀ p : Deed → Bool, (∀ d, p d = true → d.isWork = true) →
      deeds.countP p = (rounds.flatMap Round.deeds).countP p + rest.countP p := by
    intro p hp
    rw [← List.countP_append, ← hwork, List.countP_filter]
    refine List.countP_congr fun d _ => ?_
    simp only [Bool.and_eq_true]
    exact ⟨fun hd => ⟨hd, hp d hd⟩, And.left⟩
  have hlease := hcount Deed.isLease (by rintro (_ | _) <;> simp [Deed.isLease, Deed.isWork])
  have hattempt := hcount Deed.isAttempt (by rintro (_ | _) <;> simp [Deed.isAttempt, Deed.isWork])
  obtain ⟨hrounds, hrounds'⟩ := count_rounds rounds
  obtain ⟨hrest, hrest'⟩ := count_rest hrest
  cases hrunning : w.running with
  | true =>
    simp only [Bool.toNat_true]
    omega
  | false =>
    rw [hidle hrunning] at hlease
    simp only [List.countP_nil] at hlease
    omega

/-! ## What comes of an attempt -/

namespace Chronicle

/-- A nack is refused where its first half is. -/
theorem accepts_nack (b : Broker) (q : QueueRef) (h : Ident) :
    b.accepts q h .nack = (b.giveBack q h).isOk := by
  show (b.nack q h).isOk = _
  unfold Broker.nack
  cases b.giveBack q h <;> rfl

variable {c : Chronicle} {q : QueueRef} {h : Ident}

/-- The first half of a nack that is refused changes nothing. -/
theorem giveBack_refused (hno : c.broker.accepts q h .nack = false) : c.giveBack q h = c := by
  rw [accepts_nack] at hno
  unfold giveBack
  cases he : c.broker.giveBack q h with
  | ok result =>
    rw [he] at hno
    cases hno
  | error fault => rfl

/-- The first half of a nack that is accepted settles an item with the handle. -/
theorem giveBack_accepted (hok : c.broker.accepts q h .nack = true) :
    ∃ n verdict m, (c.giveBack q h).journal = .settled n q h verdict m :: c.journal ∧
      verdict ≠ .acknowledged := by
  rw [accepts_nack] at hok
  unfold giveBack
  cases he : c.broker.giveBack q h with
  | error fault =>
    rw [he] at hok
    cases hok
  | ok result =>
    obtain ⟨b, letter⟩ := result
    cases letter with
    | none => exact ⟨_, .released, _, rfl, fun hv => nomatch hv⟩
    | some letter => exact ⟨_, .givenUp, _, rfl, fun hv => nomatch hv⟩

/-- An attempt to settle that is refused changes nothing. -/
theorem perform_refused {how : Settlement} (hno : c.broker.accepts q h how = false) :
    c.perform (how.operation q h) = c := by
  cases how with
  | acknowledge =>
    show c.acknowledge q h = c
    unfold acknowledge
    change (c.broker.acknowledge q h).isOk = false at hno
    cases he : c.broker.acknowledge q h with
    | ok b =>
      rw [he] at hno
      cases hno
    | error fault => rfl
  | nack =>
    show c.nack q h = c
    have hback := giveBack_refused hno
    rw [accepts_nack] at hno
    unfold nack
    cases he : c.broker.giveBack q h with
    | ok result =>
      rw [he] at hno
      cases hno
    | error fault => exact hback

/-- An attempt to settle that is accepted settles an item with the handle, in the way attempted. -/
theorem perform_accepted {how : Settlement} (hok : c.broker.accepts q h how = true) :
    ∃ n verdict m more,
      (c.perform (how.operation q h)).journal = more ++ .settled n q h verdict m :: c.journal ∧
      (verdict = .acknowledged ↔ how = .acknowledge) := by
  cases how with
  | acknowledge =>
    show ∃ n verdict m more, (c.acknowledge q h).journal = _ ∧ _
    unfold acknowledge
    change (c.broker.acknowledge q h).isOk = true at hok
    cases he : c.broker.acknowledge q h with
    | ok b => exact ⟨_, .acknowledged, _, [], rfl, by simp⟩
    | error fault =>
      rw [he] at hok
      cases hok
  | nack =>
    show ∃ n verdict m more, (c.nack q h).journal = _ ∧ _
    obtain ⟨n, verdict, m, hj, hv⟩ := giveBack_accepted hok
    have hiff : verdict = .acknowledged ↔ Settlement.nack = .acknowledge :=
      ⟨fun he => absurd he hv, fun he => nomatch he⟩
    -- The second half, if there is one, adds an arrival on top of the first.
    rcases c.nack_cases q h with hn | hn
    · exact ⟨n, verdict, m, [], by rw [hn, hj]; rfl, hiff⟩
    · obtain ⟨new, hnew, -⟩ := (c.giveBack q h).journal_land 0
      exact ⟨n, verdict, m, new, by rw [hn, hnew, hj], hiff⟩

/-- A lease is the newest entry of the journal. -/
theorem receive_leased {t : Instant} {m : Message} {b : Broker}
    (hrec : c.broker.receive q t = (some m, b)) :
    ∃ n, (c.perform (.receive q t)).journal = .leased n q t m :: c.journal := by
  show ∃ n, (c.receive q t).journal = _
  unfold receive
  rw [hrec]
  exact ⟨_, rfl⟩

end Chronicle

/-! ## Steps of a loop and the journal -/

namespace Shift

/-- What a step of a loop of the worker notes as a lease is one of its queue in the journal. What it
notes as an attempt goes to its queue, and is what the broker answers: a refusal changes nothing,
and an acceptance settles an item with the handle. -/
structure Tells (s s' : Shift) (q : QueueRef) (news : List Deed) : Prop where
  leased : ∀ m, .leased m ∈ news → ∃ n t, s'.journal = .leased n q t m :: s.journal
  answer : ∀ h how accepted, .settled h how accepted ∈ news →
    accepted = s.fleet.broker.accepts q h how
  refused : ∀ h how, .settled h how false ∈ news → s'.chronicle = s.chronicle
  accepted : ∀ h how, .settled h how true ∈ news → ∃ n verdict m more,
    s'.journal = more ++ .settled n q h verdict m :: s.journal ∧
      (verdict = .acknowledged ↔ how = .acknowledge)

/-- Where neither a lease nor an attempt is noted, there is nothing to tell. -/
theorem tells_nothing {s s' : Shift} {q : QueueRef} {news : List Deed}
    (hlease : ∀ m, .leased m ∉ news) (hattempt : ∀ h how accepted, .settled h how accepted ∉ news) :
    Tells s s' q news :=
  ⟨fun m hmem => absurd hmem (hlease m), fun h how _ hmem => absurd hmem (hattempt h how _),
    fun h how hmem => absurd hmem (hattempt h how _),
    fun h how hmem => absurd hmem (hattempt h how _)⟩

/-- The journal tells of an attempt to settle, which is made by a nack or an acknowledgement, or by
the first half of a nack. -/
theorem tells_attempt {s s' : Shift} {q : QueueRef} {h : Ident} {how : Settlement}
    (hc : s'.chronicle = s.chronicle.perform (how.operation q h) ∨
      how = .nack ∧ s'.chronicle = s.chronicle.giveBack q h) :
    Tells s s' q [.settled h how (s.fleet.broker.accepts q h how)] := by
  refine ⟨fun m hmem => ?_, fun h' how' accepted hmem => ?_, fun h' how' hmem => ?_,
    fun h' how' hmem => ?_⟩
  · exact nomatch List.mem_singleton.mp hmem
  · cases List.mem_singleton.mp hmem
    rfl
  · obtain ⟨rfl, rfl, hno⟩ := Deed.settled.inj (List.mem_singleton.mp hmem)
    rcases hc with hc | ⟨rfl, hc⟩
    · exact hc.trans (Chronicle.perform_refused hno.symm)
    · exact hc.trans (Chronicle.giveBack_refused hno.symm)
  · obtain ⟨rfl, rfl, hok⟩ := Deed.settled.inj (List.mem_singleton.mp hmem)
    have hjournal : s'.journal = s'.chronicle.journal := rfl
    rcases hc with hc | ⟨rfl, hc⟩
    · rw [hjournal, hc]
      exact Chronicle.perform_accepted hok.symm
    · obtain ⟨n, verdict, m, hj, hv⟩ := Chronicle.giveBack_accepted (c := s.chronicle) hok.symm
      refine ⟨n, verdict, m, [], by rw [hjournal, hc]; exact hj, ?_⟩
      exact ⟨fun he => absurd he hv, fun he => nomatch he⟩

/-- The journal tells of every step of a loop. -/
theorem Stepped.tells {s s' : Shift} {run : RunRef} {worker : WorkerRef} {w w' : Worker}
    {phase phase' : Phase} {g : Fleet} (h : s.Stepped s' run worker w w' phase phase' g) :
    Tells s s' w.queue (s.fleet.deeds w phase) := by
  cases h.effect with
  | ends hsignal =>
    rw [Fleet.deeds_of_signal hsignal]
    exact tells_nothing (by simp) (by simp)
  | waits hsignal hrec =>
    rw [Fleet.deeds_of_receive hsignal hrec]
    exact tells_nothing (by simp) (by simp)
  | @leases b m hsignal hrec =>
    have hcall : s.fleet.call? w .checking = some (.receive w.queue s.fleet.clock.wall) := by
      simp [Fleet.call?, hsignal]
    rw [Fleet.deeds_of_receive hsignal hrec]
    refine ⟨fun m' hmem => ?_, by simp, by simp, by simp⟩
    obtain rfl : m' = m := by simpa using hmem
    rcases h.calls with hc | ⟨_, _, _, _, he, -⟩
    · obtain ⟨n, hn⟩ := Chronicle.receive_leased (c := s.chronicle) hrec
      refine ⟨n, s.fleet.clock.wall, ?_⟩
      show s'.chronicle.journal = _
      rw [hc, hcall]
      exact hn
    · cases he
  | settles =>
    refine tells_attempt (h.calls.imp_right ?_)
    rintro ⟨m, began, reason, elapsed, he, hback⟩
    cases he
    exact ⟨rfl, hback⟩
  | skips hguard | calls hguard | succeeds hguard | succeedsGuarded hguard =>
    exact tells_nothing (by simp [Fleet.deeds, hguard]) (by simp [Fleet.deeds, hguard])
  | _ => exact tells_nothing (by simp [Fleet.deeds]) (by simp [Fleet.deeds])

/-- The journal tells of every move. -/
theorem tells_apply (s : Shift) (v : Move) {ref : WorkerRef} {w : Worker}
    (hw : s.fleet.worker? ref = some w) :
    ∃ news, (s.apply v).deeds ref = s.deeds ref ++ news ∧ Tells s (s.apply v) w.queue news := by
  have hnone : Tells s (s.apply v) w.queue [] := tells_nothing (by simp) (by simp)
  rcases s.notes_cases v with h | ⟨run, worker, w₀, w', phase, phase', g, h⟩
  · refine ⟨[], ?_, hnone⟩
    unfold deeds
    rw [h, List.append_nil]
  · by_cases href : ref = worker
    · subst href
      obtain rfl := Option.some.inj (h.hworker.symm.trans hw)
      exact ⟨_, h.deeds_eq, h.tells⟩
    · exact ⟨[], by rw [(h.unmoved href).deeds, List.append_nil], hnone⟩

/-- The journal has the deed, if it is a lease from the queue or an attempt that was accepted. -/
def Told (j : List Entry) (q : QueueRef) : Deed → Prop
  | .leased m => ∃ n t, .leased n q t m ∈ j
  | .settled h how true => ∃ n verdict m, .settled n q h verdict m ∈ j ∧
      (verdict = .acknowledged ↔ how = .acknowledge)
  | _ => True

/-- What the journal has told stays told. -/
theorem Told.mono {j : List Entry} {q : QueueRef} {d : Deed} (h : Told j q d) (new : List Entry) :
    Told (new ++ j) q d := by
  unfold Told at h ⊢
  split at h
  · obtain ⟨n, t, hmem⟩ := h
    exact ⟨n, t, List.mem_append_right new hmem⟩
  · obtain ⟨n, verdict, m, hmem, hv⟩ := h
    exact ⟨n, verdict, m, List.mem_append_right new hmem, hv⟩
  · trivial

/-- What is new in the notes is in the journal. -/
theorem Tells.told {s s' : Shift} {q : QueueRef} {news : List Deed} (h : Tells s s' q news) :
    ∀ d ∈ news, Told s'.journal q d := by
  intro d hd
  unfold Told
  split
  · obtain ⟨n, t, hj⟩ := h.leased _ hd
    exact ⟨n, t, hj ▸ List.mem_cons_self⟩
  · obtain ⟨n, verdict, m, more, hj, hv⟩ := h.accepted _ _ hd
    exact ⟨n, verdict, m, hj ▸ List.mem_append_right more List.mem_cons_self, hv⟩
  · trivial

/-- The journal only grows. -/
theorem Reachable.journal_apply {s : Shift} (hs : s.Reachable) {v : Move} (hv : v.Valid s.fleet) :
    ∃ new, (s.apply v).journal = new ++ s.journal := by
  rcases chronicle_apply hv hs.provided.2 with h | ⟨u, hu, h⟩
  · exact ⟨[], congrArg Chronicle.journal h⟩
  · obtain ⟨new, hnew, -⟩ := Chronicle.journal_apply hs.chronicle.sound u
    exact ⟨new, (congrArg Chronicle.journal h).trans hnew⟩

/-- In every state of every run, the journal has every lease of a worker and every attempt that was
accepted. -/
theorem Reachable.told {s : Shift} (hs : s.Reachable) {ref : WorkerRef} {w : Worker}
    (hw : s.fleet.worker? ref = some w) : ∀ d ∈ s.deeds ref, Told s.journal w.queue d := by
  induction hs generalizing w with
  | create defaults clock => cases hw
  | @apply s v hs hv ih =>
    obtain ⟨new, hnew⟩ := hs.journal_apply hv
    -- What was noted before stays told.
    have hold : ∀ w₀, s.fleet.worker? ref = some w₀ → w.queue = w₀.queue →
        ∀ d ∈ s.deeds ref, Told (s.apply v).journal w.queue d := by
      intro w₀ hw₀ hqueue d hd
      rw [hnew, hqueue]
      exact (ih hw₀ d hd).mono new
    rcases s.apply_cases v ref with
      h | ⟨w₀, w', new', hw₀, hw', hdeeds, haffects⟩ | ⟨hnone, hloop | h⟩
    · rw [h.deeds]
      exact hold w (h.worker.symm.trans hw) rfl
    · obtain rfl := Option.some.inj (hw'.symm.trans hw)
      obtain ⟨news, hnews, htells⟩ := s.tells_apply v hw₀
      intro d hd
      rw [hnews] at hd
      rcases List.mem_append.mp hd with hd | hd
      · exact hold w₀ hw₀ haffects.keeps.1 d hd
      · rw [haffects.keeps.1]
        exact htells.told d hd
    · exact absurd (hs.stranger hnone).1 hloop
    · obtain ⟨-, -, -, -, -, -, -, hdeeds⟩ := h
      rw [hdeeds, (hs.stranger hnone).2]
      exact fun d hd => absurd hd List.not_mem_nil

/-! ## The attempts of a worker -/

/-- A handle that is refused is not accepted, whatever is attempted with it. -/
theorem accepts_of_refuses {b : Broker} {q : QueueRef} {h : Ident} (hr : b.Refuses q h)
    (how : Settlement) : b.accepts q h how = false := by
  obtain ⟨hack, -, hnack⟩ := hr
  unfold accepts Broker.settle
  cases how with
  | acknowledge =>
    simp only [hack]
    rfl
  | nack =>
    simp only [hnack]
    rfl

/-- A lease gives its message a handle. -/
theorem receipt_of_lease {c : Chronicle} (hs : c.Sound) {n : Nat} {q : QueueRef} {t : Instant}
    {m : Message} (hmem : .leased n q t m ∈ c.journal) : m.receipt = some m.handle := by
  obtain ⟨later, earlier, hj⟩ := List.append_of_mem hmem
  have hlaw := hs.lawful
  rw [hj] at hlaw
  obtain ⟨r, old, hd, -, -, hleased, -⟩ := hlaw.follows
  rw [hleased]
  rfl

/-- A run in which a message is leased by somebody else while the handler of a worker waits. -/
def takenOverRun : List Move :=
  [.broker (.call (.createQueue "work" { visibilityTimeout := some (.ofMillis 1) })),
    .broker (.call (.enqueue ⟨0⟩ (.create (.text "m") "order" [] .first))),
    .addWorker "worker" ⟨0⟩ ⟨fun _ _ => [.pause (.ofMillis 5)], none⟩ Worker.standardPollInterval,
    .start ⟨0⟩, .step ⟨0⟩, .step ⟨0⟩, .step ⟨0⟩, .elapse (.ofMillis 5),
    .broker (.call (.receive ⟨0⟩ .last)), .wake ⟨0⟩, .step ⟨0⟩]

end Shift

end MessageBroker
