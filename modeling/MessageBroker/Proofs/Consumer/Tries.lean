import MessageBroker.Proofs.Consumer.Account

/-!
# A message is tried to its end

Between two checks of its worker, a run tries the first visible message once (`Fleet.At.tries`):
after a success the message is acknowledged, after a failure it is visible again where it stood, or
it is given up. So a message stands in front of all other visible ones until it is settled for good,
and is tried again and again (`Fleet.At.retries`), by induction on the leases that its budget still
allows.

The handler may stand behind a guard that lets the message through; a success is marked in its store
then. `Steady` is what holds at each of these checks.
-/

namespace MessageBroker

/-- No time passes from a reading to itself. -/
theorem Span.add_since_self (s t : Span) : s + t.since t = s := by
  have hzero : t.since t = ⟨0⟩ := congrArg Span.mk (Nat.sub_self t.nanos)
  rw [hzero]
  rfl

open Broker

/-- What holds whenever a run of the worker of a queue checks its worker: no signal is set, the
handler does not publish to the queue, which has another for its dead letters if any, no message
carries a handle that is still to be generated, and the budget of the queue is a count. -/
structure Steady (w : Worker) (b : Broker) (q : Queue) : Prop where
  cancelled : w.cancelled = false
  stopped : w.stopped = false
  closed : b.Closed
  queue : b.queue? w.queue = some q
  elsewhere : q.deadLetters ≠ some w.queue
  spares : w.handler.Spares b w.queue
  fresh : ∀ m ∈ q.messages, ∀ h, m.receipt = some h → ¬ b.mint.Pending h
  budget : q.maxRetries ≤ Message.greatestCount

variable {ok : Message → Nat → Bool} {w w' : Worker} {b b' : Broker} {q : Queue}

/-- After some work, the worker is steady again. -/
theorem Steady.next {messages : List Message} {a : Account} (h : Steady w b q)
    (hp : Progress ok w b q w' b' messages a)
    (hm : ∀ m ∈ messages, m ∈ q.messages ∨ m.receipt = none) :
    Steady w' b' (q.credited messages a) := by
  obtain ⟨events, -, rfl⟩ := hp.worker
  refine ⟨h.cancelled, h.stopped, hp.same.closed h.closed, hp.queue, h.elsewhere,
    h.spares.of_same hp.same, ?_, h.budget⟩
  intro m hmem handle hr
  rcases hm m hmem with hold | hnone
  · exact fun hpending => h.fresh m hold handle hr (hpending.of_le hp.same.issued)
  · rw [hnone] at hr
    cases hr

/-- A settlement that changes the queue alone, and gives no message up. -/
theorem Steady.settle {b₁ : Broker} {q₁ : Queue} {messages : List Message} {a : Account}
    (h : Steady w b q) (hsame : SameObjects b b₁)
    (hothers : ∀ other, other ≠ w.queue → ∃ published, Gains b b₁ other published ∧
      (w.handler.Spares b other → published = []))
    (hc : Changes b₁ b' w.queue q₁ (q.credited messages a)) (hlost : a.lost = [])
    (hworker : ∃ events, events.filterMap Event.call? = a.calls ∧
      w' = w.credited ok a events) : Progress ok w b q w' b' messages a := by
  refine ⟨hsame.trans hc.sameObjects, (hc.queue? _).trans (if_pos rfl), ?_, ?_, hworker⟩
  · intro target qt hd hqt
    have hne : target ≠ w.queue := fun he => h.elsewhere (he ▸ hd)
    obtain ⟨published, hgain, hnone⟩ := hothers target hne
    refine ⟨published, hlost ▸ isMail_of_published hgain.1 hnone, ?_⟩
    rw [hc.queue?, if_neg hne, hgain.2, hqt, Option.map_some]
  · intro other hne _ hspared
    obtain ⟨published, hgain, hnone⟩ := hothers other hne
    rw [hnone hspared] at hgain
    rw [hc.queue?, if_neg hne, hgain.queue?_eq]

namespace Fleet.At

variable {f : Fleet} {run : RunRef} {worker : WorkerRef} {clock : Clock}
  {before after : List Message} {m : Message}

/-- From one check to the next, the worker tries the first visible message once, which can be leased
once more without a wrap of its count. A success is acknowledged; after a failure the message is
visible again where it stood, or it is given up if the budget is used up. -/
theorem tries (h : f.At run worker clock w b .checking) (hr : Steady w b q)
    (hok : w.handler.DecidesInside ok)
    (hnew : w.handler.guard.any (f.isProcessed · m.id) = false)
    (hs : q.messages = before ++ m :: after) (hhidden : ∀ x ∈ before, ¬ x.VisibleAt clock.wall)
    (hvisible : m.VisibleAt clock.wall) (hcount : m.retryCount < Message.greatestCount) :
    ∃ w' b', f.Leaves run worker clock w' b' .checking
        (f.storesAfter w.handler.guard m.id (ok m.bare (m.retryCount + 1))) ∧
      (ok m.bare (m.retryCount + 1) = true ∧ Progress ok w b q w' b' (before ++ after)
          ⟨[m.bare], [], [(m.bare, m.retryCount + 1)]⟩ ∨
        ok m.bare (m.retryCount + 1) = false ∧ m.retryCount + 1 < q.maxRetries ∧
          Progress ok w b q w' b' (before ++ m.again :: after)
            ⟨[], [], [(m.bare, m.retryCount + 1)]⟩ ∨
        ok m.bare (m.retryCount + 1) = false ∧ q.maxRetries ≤ m.retryCount + 1 ∧
          Progress ok w b q w' b' (before ++ after)
            ⟨[], [m.bare], [(m.bare, m.retryCount + 1)]⟩) := by
  obtain ⟨leased, events, failure, b₁, hleased, ⟨g, hsteps, hg, hstores⟩, houtcome, hcalls, hsame,
    hq₁, hothers⟩ := h.handles hr.cancelled hr.stopped hok hnew hr.closed hr.queue hr.spares hs
      hhidden hvisible
  have hnext := Message.nextCount_of_lt hcount
  rw [hnext] at houtcome hcalls
  have hcarried : leased.receipt = some b.mint.next := by rw [hleased]; rfl
  have hhandle : leased.handle = b.mint.next := by rw [hleased]; rfl
  have hfirst : ∀ x ∈ before, x.receipt ≠ some b.mint.next := fun x hx he =>
    hr.fresh x (hs ▸ List.mem_append_left _ hx) _ he (Nat.le_refl _)
  rw [← houtcome, ← hstores]
  cases failure with
  | none =>
    have hyes : ok m.bare (m.retryCount + 1) = true := houtcome.symm
    have hack := acknowledge_eq_ok hq₁ rfl hfirst hcarried
    refine ⟨_, _, (hg.acknowledges (hhandle ▸ hack)).after hsteps, .inl ⟨rfl, ?_⟩⟩
    refine hr.settle hsame hothers (changes_setQueue hq₁ _ rfl) rfl ⟨events, hcalls, ?_⟩
    simp [Worker.logged, Worker.credited, Span.add_since_self, hyes]
  | some reason =>
    have hno : ok m.bare (m.retryCount + 1) = false := houtcome.symm
    have hleases : leased.retryCount = m.retryCount + 1 := by rw [hleased]; exact hnext
    rcases Nat.lt_or_ge (m.retryCount + 1) q.maxRetries with hlt | hge
    · have hnack := nack_eq_release hq₁ rfl hfirst hcarried (hleases ▸ hlt)
      have hagain : leased.released = m.again := by
        unfold Message.released Message.again
        rw [hleases, hleased]
        rfl
      rw [hagain] at hnack
      refine ⟨_, _, (hg.givesBack (hhandle ▸ hnack)).after hsteps, .inr (.inl ⟨rfl, hlt, ?_⟩)⟩
      refine hr.settle hsame hothers (changes_setQueue hq₁ _ rfl) rfl ⟨events, hcalls, ?_⟩
      simp [Worker.logged, Worker.credited, hno]
    · have helsewhere : ({ q with messages := before ++ leased :: after } : Queue).deadLetters ≠
          some w.queue := hr.elsewhere
      obtain ⟨b₂, hnack, hsame₂, hq₂, hrest, hletters⟩ := nack_givesUp (hsame.closed hr.closed)
        helsewhere hq₁ rfl hfirst hcarried (hleases ▸ hge)
      refine ⟨_, b₂, (hg.givesBack (hhandle ▸ hnack)).after hsteps,
        .inr (.inr ⟨rfl, hge, hsame.trans hsame₂, hq₂, fun target qt hd hqt => ?_,
          fun other hne hd hspared => ?_, events, hcalls, ?_⟩)⟩
      · have hne : target ≠ w.queue := fun he => hr.elsewhere (he ▸ hd)
        obtain ⟨published, hgain, hnone⟩ := hothers target hne
        obtain ⟨qt', copy, hqt', hafter, -, hcopy⟩ := hletters target hd
        rw [hgain.2, hqt] at hqt'
        obtain rfl := Option.some.inj hqt'
        have hbare : leased.bare = m.bare := by rw [hleased]; rfl
        refine ⟨published ++ [copy], isMail_of_letter hgain.1 hnone (hbare ▸ hcopy.bare), ?_⟩
        rw [hafter, ← Queue.enqueueAll_enqueueAll]
        rfl
      · obtain ⟨published, hgain, hnone⟩ := hothers other hne
        rw [hnone hspared] at hgain
        rw [hrest other hne hd, hgain.queue?_eq]
      · simp [Worker.logged, Worker.credited, hno]

/-- A message that the guard does not know of is tried to its end before the run checks its worker
for another one. It is marked if one of the tries is a success. -/
theorem retries (h : f.At run worker clock w b .checking) (hr : Steady w b q)
    (hok : w.handler.DecidesInside ok)
    (hnew : w.handler.guard.any (f.isProcessed · m.id) = false)
    (hs : q.messages = before ++ m :: after) (hhidden : ∀ x ∈ before, ¬ x.VisibleAt clock.wall)
    (hvisible : m.VisibleAt clock.wall) (hcount : m.retryCount < Message.greatestCount) :
    ∃ w' b', f.Leaves run worker clock w' b' .checking
        (f.storesAfter w.handler.guard m.id (m.succeeds ok q.maxRetries)) ∧
      Progress ok w b q w' b' (before ++ after) (.of ok q.maxRetries [m]) := by
  -- A release uses up one of the leases that the budget still allows, and the budget is a count.
  induction hn : q.maxRetries - m.retryCount using Nat.strongRecOn generalizing f w b q m with
  | ind n ih =>
    obtain ⟨w₁, b₁, ⟨g, hsteps, hg, hstores⟩, ⟨hyes, hp⟩ | ⟨hno, hlt, hp⟩ | ⟨hno, hge, hp⟩⟩ :=
      h.tries hr hok hnew hs hhidden hvisible hcount
    · rw [Account.of_ok hyes, (m.tries_of_ok q.maxRetries hyes).2]
      rw [hyes] at hstores
      exact ⟨w₁, b₁, ⟨g, hsteps, hg, hstores⟩, hp⟩
    · rw [hno, storesAfter_false] at hstores
      have hr₁ := hr.next hp fun x hx => by
        rcases List.mem_append.mp hx with hx | hx
        · exact .inl (hs ▸ List.mem_append_left _ hx)
        · rcases List.mem_cons.mp hx with rfl | hx
          · exact .inr rfl
          · exact .inl (hs ▸ List.mem_append_right _ (List.mem_cons_of_mem _ hx))
      have hless : q.maxRetries - m.again.retryCount < n := by
        show q.maxRetries - (m.retryCount + 1) < n
        omega
      have hhandler : w₁.handler = w.handler := by
        obtain ⟨events, -, rfl⟩ := hp.worker
        rfl
      have hclock := hg.clock.trans h.clock.symm
      have hnew₁ : w₁.handler.guard.any (g.isProcessed · m.again.id) = false := by
        rw [hhandler, ← hnew]
        exact congrArg (Option.any · _)
          (funext fun store => isProcessed_congr hstores hclock store m.id)
      obtain ⟨w₂, b₂, hreach, hp₂⟩ :=
        ih _ hless hg hr₁ (hhandler ▸ hok) hnew₁ rfl (fun _ hd => nomatch hd)
          (Nat.lt_of_lt_of_le hlt hr.budget) rfl
      rw [Account.of_lt hno hlt, (m.tries_of_lt hno hlt).2]
      rw [hhandler, storesAfter_congr hstores hclock] at hreach
      exact ⟨w₂, b₂, hreach.after hsteps, hp.trans hp₂⟩
    · rw [Account.of_le hno hge, (m.tries_of_le hno hge).2]
      rw [hno] at hstores
      exact ⟨w₁, b₁, ⟨g, hsteps, hg, hstores⟩, hp⟩

end Fleet.At

end MessageBroker
