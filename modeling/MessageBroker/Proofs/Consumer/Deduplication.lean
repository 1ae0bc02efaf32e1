import MessageBroker.Proofs.Consumer.Affects
import MessageBroker.Proofs.Consumer.Drain
import MessageBroker.Proofs.Consumer.Store

/-!
# Duplicates collapse behind a guard

A worker whose handler stands behind a guard is started alone, on a queue of messages that have not
been leased, while the clock stands still. It takes them in the order of the queue. A message whose
id is done is acknowledged without a call of the handler; any other is tried to its end, and its id
is done after a success. `Account.collapsed` tells all of this in advance, from the messages alone.

The invariant that carries the proof relates the store to the ids that are done: it reflects the log
in which each of them was marked at the present reading of the clock. The retention time does not
matter, since no time passes. `Fleet.At.collapses` goes through the queue with it, and
`Fleet.duplicates_collapse` is the whole run, up to the first wait for the poll interval.
-/

namespace MessageBroker

/-- The handler behind the guard of a store. -/
def Handler.behind (h : Handler) (store : StoreRef) : Handler := { h with guard := some store }

/-! ## The account of a guarded worker -/

/-- The tries of a message come to an end with the first success, so there is one at most. -/
theorem Message.countP_tries (m : Message) (ok : Message → Nat → Bool) (budget : Nat) :
    (m.tries ok budget).countP (ok m.bare) = if m.succeeds ok budget then 1 else 0 := by
  unfold tries succeeds
  induction m.chances budget with
  | nil => rfl
  | cons n rest ih =>
    rw [List.findIdx_cons, List.any_cons]
    cases hn : ok m.bare n with
    | true => simp [hn]
    | false =>
      simp only [cond_false, List.take_succ_cons, List.countP_cons, hn, Bool.false_or]
      exact ih

namespace Account

section Collapsing

variable (ok : Message → Nat → Bool) (budget : Nat)

/-- What is to be done with a message, given the ids that are done: with one of these it is
acknowledged and not handled, otherwise it is tried to its end. -/
def once (done : List Ident) (m : Message) : Account :=
  if m.id ∈ done then ⟨[m.bare], [], []⟩ else of ok budget [m]

/-- The ids that are done after a message: its own is one of them after a success. -/
def doneAfter (done : List Ident) (m : Message) : List Ident :=
  if m.id ∈ done then done else if m.succeeds ok budget then done ++ [m.id] else done

/-- The ids that are done after messages. -/
def doneIds (done : List Ident) (ms : List Message) : List Ident :=
  ms.foldl (doneAfter ok budget) done

/-- What is to be done with messages in turn, given the ids that are done. -/
def collapsed : List Ident → List Message → Account
  | _, [] => ⟨[], [], []⟩
  | done, m :: rest => once ok budget done m ++ collapsed (doneAfter ok budget done m) rest

end Collapsing

variable {ok : Message → Nat → Bool} {budget : Nat} {done : List Ident}

/-- An id is done after a message if it was done before, or if the message succeeds. -/
theorem mem_doneAfter {m : Message} {id : Ident} : id ∈ doneAfter ok budget done m ↔
    id ∈ done ∨ m.id = id ∧ m.succeeds ok budget = true := by
  unfold doneAfter
  split
  · rename_i hold
    constructor
    · exact .inl
    · rintro (h | ⟨rfl, -⟩)
      · exact h
      · exact hold
  · split
    · rename_i hyes
      simp [hyes, eq_comm]
    · rename_i hno
      simp [hno]

/-- An id is done after messages if it was done before, or if one of them has it and succeeds. -/
theorem mem_doneIds {ms : List Message} {id : Ident} : id ∈ doneIds ok budget done ms ↔
    id ∈ done ∨ ∃ m ∈ ms, m.id = id ∧ m.succeeds ok budget = true := by
  induction ms generalizing done with
  | nil => simp [doneIds]
  | cons m rest ih =>
    have hrest : id ∈ doneIds ok budget done (m :: rest) ↔ _ := ih
    rw [hrest, mem_doneAfter, or_assoc]
    simp only [List.mem_cons, exists_eq_or_imp]

/-- Accounts are added up in any grouping. -/
theorem append_assoc (a b c : Account) : a ++ b ++ c = a ++ (b ++ c) := by
  show Account.mk _ _ _ = Account.mk _ _ _
  congr 1
  · exact List.append_assoc a.done b.done c.done
  · exact List.append_assoc a.lost b.lost c.lost
  · exact List.append_assoc a.calls b.calls c.calls

/-- The messages before others are dealt with first. -/
theorem collapsed_append (before after : List Message) :
    collapsed ok budget done (before ++ after) = collapsed ok budget done before ++
      collapsed ok budget (doneIds ok budget done before) after := by
  induction before generalizing done with
  | nil => rfl
  | cons m rest ih =>
    show once ok budget done m ++ collapsed ok budget _ (rest ++ after) = _
    rw [ih, ← append_assoc]
    rfl

/-- A message is acknowledged without a call if one before it with its id succeeds. Otherwise it is
tried to its end, whatever came before it. -/
theorem collapsed_at (before after : List Message) (m : Message) :
    collapsed ok budget [] (before ++ m :: after) = collapsed ok budget [] before ++
      (if ∃ e ∈ before, e.id = m.id ∧ e.succeeds ok budget = true then ⟨[m.bare], [], []⟩
        else of ok budget [m]) ++
      collapsed ok budget (doneIds ok budget [] (before ++ [m])) after := by
  have hdone : m.id ∈ doneIds ok budget [] before ↔
      ∃ e ∈ before, e.id = m.id ∧ e.succeeds ok budget = true := by
    rw [mem_doneIds]
    simp only [List.not_mem_nil, false_or]
  have hids : doneIds ok budget [] (before ++ [m]) =
      doneAfter ok budget (doneIds ok budget [] before) m := List.foldl_concat _ _ _ _
  rw [collapsed_append, append_assoc, hids]
  show _ ++ (once ok budget _ m ++ _) = _
  unfold once
  simp only [hdone]

/-- The calls for a message are for its own id. At most one of them is a success, and none if the
message fails, or its id is done. -/
theorem countP_once (m : Message) (id : Ident) :
    (once ok budget done m).calls.countP (fun c => decide (c.1.id = id) && ok c.1 c.2) =
      if id ∉ done ∧ m.id = id ∧ m.succeeds ok budget = true then 1 else 0 := by
  unfold once
  split
  · rename_i hold
    have hnone : ¬ (id ∉ done ∧ m.id = id ∧ m.succeeds ok budget = true) :=
      fun ⟨hnew, hid, _⟩ => hnew (hid ▸ hold)
    rw [if_neg hnone]
    rfl
  · rename_i hnew
    have hcalls : (of ok budget [m]).calls = (m.tries ok budget).map (m.bare, ·) :=
      List.append_nil _
    rw [hcalls, List.countP_map]
    by_cases hid : m.id = id
    · have hsame : ((fun c : Message × Nat => decide (c.1.id = id) && ok c.1 c.2) ∘ (m.bare, ·)) =
          ok m.bare := by
        funext n
        show (decide (m.id = id) && ok m.bare n) = ok m.bare n
        rw [decide_eq_true hid, Bool.true_and]
      rw [hsame, m.countP_tries]
      simp [hid ▸ hnew, hid]
    · have hother : ∀ n, ¬ ((fun c : Message × Nat => decide (c.1.id = id) && ok c.1 c.2) ∘
          (m.bare, ·)) n = true := by
        intro n h
        exact hid (of_decide_eq_true (Bool.and_eq_true_iff.mp h).1)
      rw [if_neg fun h => hid h.2.1]
      exact List.countP_eq_zero.mpr fun n _ => hother n

/-- For each id there is at most one successful call, and none if the id is done. -/
theorem countP_collapsed (ms : List Message) (id : Ident) :
    (collapsed ok budget done ms).calls.countP (fun c => decide (c.1.id = id) && ok c.1 c.2) ≤
      if id ∈ done then 0 else 1 := by
  induction ms generalizing done with
  | nil => exact Nat.zero_le _
  | cons m rest ih =>
    have hlater := @ih (doneAfter ok budget done m)
    simp only [mem_doneAfter] at hlater
    have hcalls : (collapsed ok budget done (m :: rest)).calls = (once ok budget done m).calls ++
        (collapsed ok budget (doneAfter ok budget done m) rest).calls := rfl
    rw [hcalls, List.countP_append, countP_once]
    -- The id is done before the first message, or by it, or not yet behind it.
    by_cases hold : id ∈ done
    · simp only [hold, true_or, if_true] at hlater
      simp only [hold, not_true_eq_false, false_and, if_false, if_true]
      omega
    · by_cases hnow : m.id = id ∧ m.succeeds ok budget = true
      · simp only [hnow, and_self, or_true, if_true] at hlater
        simp only [hold, not_false_eq_true, hnow, and_self, if_true, if_false]
        omega
      · simp only [hold, hnow, or_self, if_false] at hlater
        simp only [hold, hnow, and_false, if_false]
        omega

end Account

/-! ## The run of a guarded worker -/

namespace Fleet

open Broker

/-- The ids that a store counts as processed are those of a list, each marked just now. -/
def Marked (f : Fleet) (store : StoreRef) (done : List Ident) : Prop :=
  ∃ s, f.stores[store.index]? = some s ∧
    s.Reflects (done.map fun id => (id, f.clock.uptime)) f.clock.uptime

namespace Marked

variable {f g : Fleet} {store : StoreRef} {done : List Ident} (h : f.Marked store done)
include h

/-- Since no time has passed, a mark counts whatever the retention time. -/
theorem isProcessed_iff (id : Ident) : f.isProcessed store id = true ↔ id ∈ done := by
  obtain ⟨s, hs, hreflects⟩ := h
  unfold isProcessed
  rw [hs]
  show s.isProcessed id f.clock.uptime = true ↔ _
  rw [hreflects.isProcessed_iff]
  constructor
  · rintro ⟨marked, hmem, -⟩
    obtain ⟨other, hother, hpair⟩ := List.mem_map.mp hmem
    obtain rfl : other = id := congrArg Prod.fst hpair
    exact hother
  · intro hmem
    have hzero : f.clock.uptime.since f.clock.uptime ≤ s.retention := by
      rw [Span.le_iff]
      show f.clock.uptime.nanos - f.clock.uptime.nanos ≤ _
      omega
    exact ⟨_, List.mem_map_of_mem hmem, hzero⟩

/-- A message that was tried to its end has been marked if it succeeded. -/
theorem next {m : Message} {ok : Message → Nat → Bool} {budget : Nat} (hnew : m.id ∉ done)
    (hclock : g.clock = f.clock)
    (hstores : g.stores = f.storesAfter (some store) m.id (m.succeeds ok budget)) :
    g.Marked store (Account.doneAfter ok budget done m) := by
  obtain ⟨s, hs, hreflects⟩ := h
  unfold Marked Account.doneAfter
  rw [if_neg hnew, hclock]
  cases hsucceeds : m.succeeds ok budget with
  | false =>
    rw [hsucceeds, storesAfter_false] at hstores
    exact ⟨s, by rw [hstores, hs], hreflects⟩
  | true =>
    rw [hsucceeds] at hstores
    refine ⟨s.markProcessed m.id f.clock.uptime, ?_, ?_⟩
    · rw [hstores]
      show (f.stores.modify _ _)[_]? = _
      rw [List.getElem?_modify_eq, hs]
      rfl
    · rw [if_pos rfl, List.map_append]
      exact hreflects.markProcessed m.id

end Marked

namespace At

variable {f : Fleet} {run : RunRef} {worker : WorkerRef} {clock : Clock} {w : Worker} {b : Broker}
  {q : Queue} {ok : Message → Nat → Bool} {store : StoreRef} {done : List Ident}
  {m : Message} {rest : List Message}

/-- A message whose id is done is leased and acknowledged, with no call in between. -/
theorem acknowledgesDone (h : f.At run worker clock w b .checking) (hr : Steady w b q)
    (hold : w.handler.guard.any (f.isProcessed · m.id) = true)
    (hs : q.messages = m :: rest) (hvisible : m.VisibleAt clock.wall) :
    ∃ w' b', f.Leaves run worker clock w' b' .checking f.stores ∧
      Progress ok w b q w' b' rest ⟨[m.bare], [], []⟩ := by
  have hnone : ∀ x ∈ ([] : List Message), ¬ x.VisibleAt clock.wall :=
    fun x hx => absurd hx List.not_mem_nil
  have hfront : q.messages = [] ++ m :: rest := hs
  obtain ⟨b₁, hrec, hchange⟩ := receive_changes hr.queue hfront hnone hvisible
  obtain ⟨g₁, hsteps₁, hg₁, hstores₁⟩ := h.leases hr.cancelled hr.stopped hrec
  have hclock₁ := hg₁.clock.trans h.clock.symm
  have hold₁ : w.handler.guard.any (g₁.isProcessed · m.id) = true := by
    rw [← hold]
    exact congrArg (Option.any · _)
      (funext fun store => isProcessed_congr hstores₁ hclock₁ store m.id)
  obtain ⟨g₂, hsteps₂, hg₂, hstores₂⟩ := hg₁.skips hold₁
  have hq₁ : b₁.queue? w.queue = some _ := (hchange.queue? _).trans (if_pos rfl)
  have hfirst : ∀ x ∈ ([] : List Message), x.receipt ≠ some b.mint.next :=
    fun x hx => absurd hx List.not_mem_nil
  have hack := acknowledge_eq_ok hq₁ rfl hfirst rfl
  have hleaves := (hg₂.acknowledges hack).after (hsteps₁.trans hsteps₂)
  rw [hstores₂, hstores₁] at hleaves
  refine ⟨_, _, hleaves, ?_⟩
  refine hr.settle hchange.sameObjects (fun other hne => ⟨[], gains_nil ?_, fun _ => rfl⟩)
    (changes_setQueue hq₁ _ rfl) rfl ⟨[], rfl, ?_⟩
  · rw [hchange.queue?, if_neg hne]
  · simp [Worker.credited, Span.add_since_self]

/-- The first message is dealt with as the ids that are done demand, and its own is done after a
success. -/
theorem once (h : f.At run worker clock w b .checking) (hr : Steady w b q)
    (hok : w.handler.DecidesInside ok) (hguard : w.handler.guard = some store)
    (hmarked : f.Marked store done) (hs : q.messages = m :: rest)
    (hvisible : m.VisibleAt clock.wall) (hcount : m.retryCount < Message.greatestCount) :
    ∃ g w' b', Relation.ReflTransGen (Goes run) f g ∧ g.At run worker clock w' b' .checking ∧
      g.Marked store (Account.doneAfter ok q.maxRetries done m) ∧
      Progress ok w b q w' b' rest (Account.once ok q.maxRetries done m) := by
  by_cases hdone : m.id ∈ done
  · have hold : w.handler.guard.any (f.isProcessed · m.id) = true := by
      rw [hguard]
      exact (hmarked.isProcessed_iff m.id).mpr hdone
    obtain ⟨w', b', ⟨g, hsteps, hg, hstores⟩, hp⟩ := h.acknowledgesDone hr hold hs hvisible
    unfold Account.once Account.doneAfter
    rw [if_pos hdone, if_pos hdone]
    refine ⟨g, w', b', hsteps, hg, ?_, hp⟩
    unfold Marked
    rw [hstores, hg.clock, ← h.clock]
    exact hmarked
  · have hnew : w.handler.guard.any (f.isProcessed · m.id) = false := by
      rw [hguard]
      exact Bool.eq_false_iff.mpr fun hold => hdone ((hmarked.isProcessed_iff m.id).mp hold)
    have hfront : q.messages = [] ++ m :: rest := hs
    obtain ⟨w', b', ⟨g, hsteps, hg, hstores⟩, hp⟩ :=
      h.retries hr hok hnew hfront (fun x hx => absurd hx List.not_mem_nil) hvisible hcount
    rw [hguard] at hstores
    have hnext := hmarked.next hdone (hg.clock.trans h.clock.symm) hstores
    unfold Account.once
    rw [if_neg hdone]
    exact ⟨g, w', b', hsteps, hg, hnext, hp⟩

/-- Visible messages are dealt with in turn. -/
theorem collapses (h : f.At run worker clock w b .checking) (hr : Steady w b q)
    (hok : w.handler.DecidesInside ok) (hguard : w.handler.guard = some store)
    (hmarked : f.Marked store done) (hvisible : ∀ m ∈ q.messages, m.VisibleAt clock.wall)
    (hcounts : ∀ m ∈ q.messages, m.retryCount < Message.greatestCount) :
    ∃ g w' b', Relation.ReflTransGen (Goes run) f g ∧ g.At run worker clock w' b' .checking ∧
      g.Marked store (Account.doneIds ok q.maxRetries done q.messages) ∧
      Progress ok w b q w' b' [] (Account.collapsed ok q.maxRetries done q.messages) := by
  -- The induction is on the messages that are left; `Steady` and `Marked` hold before each of them.
  generalize hs : q.messages = todo at hvisible hcounts ⊢
  induction todo generalizing f w b q done with
  | nil =>
    have hp : Progress ok w b q w b q.messages ⟨[], [], []⟩ := .refl hr.queue
    rw [hs] at hp
    exact ⟨f, w, b, .refl, h, hmarked, hp⟩
  | cons m rest ih =>
    obtain ⟨hfirst, hvisible⟩ := List.forall_mem_cons.mp hvisible
    obtain ⟨hcount, hcounts⟩ := List.forall_mem_cons.mp hcounts
    obtain ⟨g, w₁, b₁, hsteps, hg, hmarked₁, hp⟩ :=
      h.once hr hok hguard hmarked hs hfirst hcount
    have hr₁ := hr.next hp fun x hx => .inl (hs ▸ List.mem_cons_of_mem _ hx)
    have hhandler : w₁.handler = w.handler := by
      obtain ⟨events, -, rfl⟩ := hp.worker
      rfl
    obtain ⟨g', w', b', hsteps', hg', hmarked', hp'⟩ := ih hg hr₁ (hhandler ▸ hok)
      (hhandler ▸ hguard) hmarked₁ rfl hvisible hcounts
    exact ⟨g', w', b', hsteps.trans hsteps', hg', hmarked', hp.trans hp'⟩

/-- A run that finds its queue empty waits for the poll interval, whatever it is allowed beyond the
steps that it takes to get there. -/
theorem rests {g : Fleet} (hsteps : Relation.ReflTransGen (Goes run) f g)
    (hg : g.At run worker clock w b .checking) (hcancel : w.cancelled = false)
    (hstop : w.stopped = false) (hempty : b.contents w.queue = []) :
    ∃ steps g', (∀ fuel, resume run (steps + fuel) f = g') ∧
      g'.At run worker clock w g'.broker (.polling (clock.uptime + w.pollInterval)) ∧
      g'.broker = b ∧ g'.stores = g.stores := by
  have hnone : ∀ m ∈ b.contents w.queue, ¬ m.VisibleAt clock.wall := by
    intro m hm
    rw [hempty] at hm
    exact absurd hm List.not_mem_nil
  obtain ⟨g', hwait, hg', hstores⟩ := hg.waits hcancel hstop (receive_eq_none hnone)
  obtain ⟨steps, hresume⟩ := resume_of_goes (hsteps.trans hwait)
  refine ⟨steps, g', fun fuel => ?_, hg'.broker.symm ▸ hg', hg'.broker, hstores⟩
  rw [hresume fuel]
  exact hg'.resume_eq rfl fuel

end At

/-- A run of a worker that no signal stops is ready for its first check if nothing in the queue has
been leased. -/
theorem steady_of_unleased {c : Chronicle} (hc : c.Reachable) {w : Worker} {q : Queue}
    (hq : c.broker.queue? w.queue = some q) (hcancel : w.cancelled = false)
    (hstop : w.stopped = false) (hspares : w.handler.Spares c.broker w.queue)
    (hnew : ∀ m ∈ q.messages, m.receipt = none) (hbudget : q.maxRetries ≤ Message.greatestCount) :
    Steady w c.broker q := by
  have helsewhere : q.deadLetters ≠ some w.queue := by
    intro hd
    exact Nat.lt_irrefl _ (hc.descending w.queue q.rules w.queue (rules?_of_queue? hq) hd)
  refine ⟨hcancel, hstop, hc.sound.closed, hq, helsewhere, hspares, fun m hm h hr => ?_, hbudget⟩
  rw [hnew m hm] at hr
  cases hr

/-- A worker with a new store that is started deals with the messages of its queue before it looks
for more. -/
theorem launch_collapses {f : Fleet} {worker : WorkerRef} {w : Worker}
    (hworker : f.worker? worker = some w) (hidle : w.running = false) {q : Queue}
    (hr : Steady { w with running := true } f.broker q) {inner : Handler} {store : StoreRef}
    (hguard : w.handler = inner.behind store) {ok : Message → Nat → Bool} (hok : inner.Decides ok)
    {retention : Span} (hstore : f.stores[store.index]? = some (.create retention))
    (hvisible : ∀ m ∈ q.messages, m.VisibleAt f.clock.wall)
    (hcounts : ∀ m ∈ q.messages, m.retryCount < Message.greatestCount) :
    ∃ g w' b', Relation.ReflTransGen (Goes ⟨f.runs.length⟩) (f.launch worker) g ∧
      g.At ⟨f.runs.length⟩ worker f.clock w' b' .checking ∧
      g.Marked store (Account.doneIds ok q.maxRetries [] q.messages) ∧
      Progress ok { w with running := true } f.broker q w' b' []
        (Account.collapsed ok q.maxRetries [] q.messages) := by
  have hinside : ({ w with running := true } : Worker).handler.DecidesInside ok := by
    show w.handler.DecidesInside ok
    rw [hguard]
    exact ⟨rfl, hok.quiet, hok.outcome⟩
  obtain ⟨-, -, hstores⟩ := Shift.launch_frame f worker
  have hmarked : (f.launch worker).Marked store [] :=
    ⟨.create retention, by rw [hstores, hstore], IdempotencyStore.reflects_create _ _⟩
  exact (at_launch hworker hidle).collapses hr hinside (congrArg Handler.guard hguard) hmarked
    hvisible hcounts

/-- A worker is started whose handler stands behind a new store, with any retention time, and whose
queue holds messages that have not been leased yet, in any state of that sort that calls on a broker
lead to. Ids may repeat. The budget of the queue is one that a count can reach. The handler does nothing but publish, though not to the queue, and fail;
its calls succeed as `ok` says of the message and its number of leases. The worker was neither
stopped nor cancelled.

Then after finitely many steps the run waits for the poll interval, and the queue is empty. What the
worker has done by then is the account of the messages in order, with the ids that are done: a
message whose id is done is acknowledged with no call; any other is tried with the number of leases
one, two and so on, to the first success or to the budget, and acknowledged or given up. Exactly the
ids of messages that succeed are marked.

So each id has one successful call at most. A message is acknowledged without a call if one before
it with its id succeeds; if all of those fail, it is tried as if they were not there. -/
theorem duplicates_collapse {c : Chronicle} (hc : c.Reachable) {f : Fleet}
    (hf : f.broker = c.broker) {worker : WorkerRef} {w : Worker}
    (hworker : f.worker? worker = some w) (hidle : w.running = false)
    (hcancel : w.cancelled = false) (hstop : w.stopped = false) {inner : Handler}
    {store : StoreRef} (hguard : w.handler = inner.behind store) {retention : Span}
    (hstore : f.stores[store.index]? = some (.create retention)) {q : Queue}
    (hq : f.broker.queue? w.queue = some q)
    (hbudget : q.maxRetries ≤ Message.greatestCount)
    (hnew : ∀ m ∈ q.messages, m.retryCount = 0 ∧ m.hiddenUntil = none ∧ m.receipt = none)
    {ok : Message → Nat → Bool} (hok : inner.Decides ok)
    (hspares : inner.Spares f.broker w.queue) :
    (∃ (steps : Nat) (g : Fleet) (w' : Worker),
      (∀ fuel, resume ⟨f.runs.length⟩ (steps + fuel) (f.launch worker) = g) ∧
      (steps ≤ patience → f.start worker = g) ∧
      g.At ⟨f.runs.length⟩ worker f.clock w' g.broker
        (.polling (f.clock.uptime + w.pollInterval)) ∧
      Progress ok { w with running := true } f.broker q w' g.broker []
        (.collapsed ok q.maxRetries [] q.messages) ∧
      ∀ id, g.isProcessed store id = true ↔
        ∃ m ∈ q.messages, m.id = id ∧ m.succeeds ok q.maxRetries = true) ∧
    (∀ id, (Account.collapsed ok q.maxRetries [] q.messages).calls.countP
      (fun call => decide (call.1.id = id) && ok call.1 call.2) ≤ 1) ∧
    ∀ before m after, q.messages = before ++ m :: after →
      m.chances q.maxRetries = List.range' 1 (max 1 q.maxRetries) ∧
      Account.collapsed ok q.maxRetries [] q.messages =
        Account.collapsed ok q.maxRetries [] before ++
          (if ∃ e ∈ before, e.id = m.id ∧ e.succeeds ok q.maxRetries = true then
            ⟨[m.bare], [], []⟩ else Account.of ok q.maxRetries [m]) ++
          Account.collapsed ok q.maxRetries
            (Account.doneIds ok q.maxRetries [] (before ++ [m])) after := by
  refine ⟨?_, fun id => ?_, fun before m after hsplit => ⟨?_, ?_⟩⟩
  · have hsteady : Steady { w with running := true } f.broker q := by
      rw [hf] at hq hspares ⊢
      refine steady_of_unleased hc hq hcancel hstop ?_ (fun m hm => (hnew m hm).2.2) hbudget
      show w.handler.Spares c.broker w.queue
      rw [hguard]
      exact hspares
    have hvisible : ∀ m ∈ q.messages, m.VisibleAt f.clock.wall := by
      intro m hm
      have hnever := (hnew m hm).2.1
      unfold Message.VisibleAt
      rw [hnever]
      exact fun _ hd => nomatch hd
    have hcounts : ∀ m ∈ q.messages, m.retryCount < Message.greatestCount := by
      intro m hm
      rw [(hnew m hm).1]
      decide
    obtain ⟨g, w', b', hsteps, hg, hmarked', hp⟩ :=
      launch_collapses hworker hidle hsteady hguard hok hstore hvisible hcounts
    have hkept : w'.queue = w.queue ∧ w'.cancelled = false ∧ w'.stopped = false ∧
        w'.pollInterval = w.pollInterval := by
      obtain ⟨events, -, rfl⟩ := hp.worker
      exact ⟨rfl, hcancel, hstop, rfl⟩
    obtain ⟨hqueue, hcancel', hstop', hinterval⟩ := hkept
    have hempty : b'.contents w'.queue = [] := by
      have hleft : b'.queue? w.queue = _ := hp.queue
      unfold contents
      rw [hqueue, hleft]
      rfl
    obtain ⟨steps, g', hwaits, hg', hbroker, hstores'⟩ :=
      At.rests hsteps hg hcancel' hstop' hempty
    rw [hinterval] at hg'
    refine ⟨steps, g', w', hwaits, fun hle => ?_, hg', hbroker ▸ hp, fun id => ?_⟩
    · have hstart := hwaits (patience - steps)
      rw [Nat.add_sub_cancel' hle] at hstart
      exact hstart
    · rw [isProcessed_congr hstores' (hg'.clock.trans hg.clock.symm), hmarked'.isProcessed_iff,
        Account.mem_doneIds]
      simp only [List.not_mem_nil, false_or]
  · exact Account.countP_collapsed q.messages id
  · have hm : m ∈ q.messages := hsplit ▸ List.mem_append_right _ List.mem_cons_self
    have hlen : max (0 + 1) q.maxRetries - 0 = max 1 q.maxRetries := by omega
    unfold Message.chances
    rw [(hnew m hm).1, hlen]
  · rw [hsplit]
    exact Account.collapsed_at before after m

/-- A run that leaves four messages in a queue with a budget of two leases. Three of them have the
same id, and the first of these is broken. -/
def sameIds : Chronicle := (Chronicle.create .standard).run
  [.call (.createQueue "dead" {}),
    .call (.createQueue "work" { maxRetries := some 2, deadLetters := some ⟨0⟩ }),
    .call (.enqueue ⟨1⟩ (.create (.text "a") "broken" [] .first)),
    .call (.enqueue ⟨1⟩ (.create (.text "a") "order" [] .first)),
    .call (.enqueue ⟨1⟩ (.create (.text "b") "order" [] .first)),
    .call (.enqueue ⟨1⟩ (.create (.text "a") "order" [] .first))]

/-- A worker of that queue, behind a store that keeps its marks for no time at all. -/
def guardedWorker : Fleet :=
  (((create sameIds.broker ⟨.first, .zero⟩).addStore .zero).2.addWorker
    (.create "worker" ⟨1⟩ (picky.behind ⟨0⟩) (.ofMillis 100))).2

/-- The broken message is given up after two calls, and does not keep the next one with its id from
being handled; the last one with that id is acknowledged without a call. -/
theorem duplicates_collapse_guardedWorker :
    ∃ (steps : Nat) (g : Fleet) (w' : Worker),
      (∀ fuel, resume ⟨0⟩ (steps + fuel) (guardedWorker.launch ⟨0⟩) = g) ∧
      g.worker? ⟨0⟩ = some w' ∧ w'.processed = 3 ∧ w'.failed = 2 ∧
      (w'.log.filterMap Event.call?).map (fun c => (c.1.kind, c.1.id, c.2)) =
        [("broken", .text "a", 1), ("broken", .text "a", 2), ("order", .text "a", 1),
          ("order", .text "b", 1)] ∧
      g.broker.contents ⟨1⟩ = [] ∧ g.isProcessed ⟨0⟩ (.text "a") = true := by
  have hc : sameIds.Reachable := (Chronicle.Reachable.create .standard).run (by decide)
  have hworker : guardedWorker.worker? ⟨0⟩ =
      some (.create "worker" ⟨1⟩ (picky.behind ⟨0⟩) (.ofMillis 100)) := rfl
  have hstore : guardedWorker.stores[(⟨0⟩ : StoreRef).index]? = some (.create .zero) := rfl
  have hnew : ∀ m ∈ sameIds.broker.contents ⟨1⟩,
      m.retryCount = 0 ∧ m.hiddenUntil = none ∧ m.receipt = none := by decide
  obtain ⟨⟨steps, g, w', hwaits, -, hg, hp, hmarked⟩, -, -⟩ :=
    duplicates_collapse hc rfl hworker rfl rfl rfl rfl hstore rfl (by decide) hnew picky_decides
      fun n m topic _ => List.not_mem_nil
  obtain ⟨events, hcalls, rfl⟩ := hp.worker
  refine ⟨steps, g, _, hwaits, hg.worker, rfl, rfl, ?_, ?_, ?_⟩
  · show (events.filterMap Event.call?).map _ = _
    rw [hcalls]
    rfl
  · have hqueue : g.broker.queue? ⟨1⟩ = _ := hp.queue
    unfold contents
    rw [hqueue]
    rfl
  · exact (hmarked (.text "a")).mpr ⟨_, List.mem_cons_of_mem _ List.mem_cons_self, rfl, rfl⟩

end Fleet

end MessageBroker
