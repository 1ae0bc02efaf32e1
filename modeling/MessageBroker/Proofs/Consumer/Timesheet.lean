import Mathlib.Algebra.Ring.Nat
import MessageBroker.Proofs.Consumer.Executions
import MessageBroker.Proofs.Consumer.Tallies

/-!
# The time that a worker spends

A worker adds up the time that its handler takes, for the calls whose acknowledgement is accepted.
The sum is made without a check, and it cannot overflow: the calls of one worker follow one another,
since there is never more than one loop, so their lengths together are not more than the time that
has passed since the first start of the worker.

The calls are read off what is noted of the worker, with the readings of the clock (`handlerCalls`).
`Timesheet` is what holds of them after every step of a loop: a call is over before the next one
begins, and the worker has counted the lengths of those it has acknowledged. `spent_le` bounds the
sum of lengths of calls that follow one another. Nothing is noted of a worker before its first start
(`firstStart?`), so no call began before it.
-/

namespace MessageBroker

/-- The longest span that the sum of processing times can be: `2^64 - 1` seconds and all but one of
the nanoseconds of one more. -/
def Span.largest : Span := ⟨18446744073709551615 * 1000000000 + 999999999⟩

/-- A call of the handler of a worker: the reading of the clock with which its message was leased,
the one with which it returned, if it has, and whether an acknowledgement was accepted after it. -/
structure HandlerCall where
  began : Span
  ended : Option Span
  acknowledged : Bool
deriving DecidableEq

namespace HandlerCall

/-- The time that a call took. -/
def length (c : HandlerCall) : Nat := (c.ended.map fun e => (e.since c.began).nanos).getD 0

/-- The calls after a deed at a reading of the clock, the newest first. -/
def tell (calls : List HandlerCall) (x : Span × Deed) : List HandlerCall :=
  match x.2, calls with
  | .leased _, calls => ⟨x.1, none, false⟩ :: calls
  | .returned _, c :: past => { c with ended := some x.1 } :: past
  | .settled _ .acknowledge true, c :: past => { c with acknowledged := true } :: past
  | _, calls => calls

/-- The time that calls took together. -/
def spent (calls : List HandlerCall) : Nat := (calls.map length).sum

/-- The time that those calls took together that were acknowledged. -/
def counted (calls : List HandlerCall) : Nat := spent (calls.filter (·.acknowledged))

/-- Each call is over before the next one begins; the newest comes first. -/
def Apart (calls : List HandlerCall) : Prop :=
  calls.Pairwise fun later earlier => ∃ e, earlier.ended = some e ∧ e ≤ later.began

/-- A call begins and ends by a reading of the clock, in this order. -/
def Within (now : Span) (c : HandlerCall) : Prop :=
  c.began ≤ now ∧ ∀ e ∈ c.ended, c.began ≤ e ∧ e ≤ now

/-- What happened by a reading of the clock happened by every later one. -/
theorem Within.mono {c : HandlerCall} {now later : Span} (h : c.Within now) (hle : now ≤ later) :
    c.Within later :=
  ⟨Nat.le_trans h.1 hle, fun e he => ⟨(h.2 e he).1, Nat.le_trans (h.2 e he).2 hle⟩⟩

/-- A call that is over takes until its end. -/
theorem began_add_length {c : HandlerCall} {e now : Span} (h : c.Within now)
    (he : c.ended = some e) : c.began.nanos + c.length = e.nanos := by
  have hle : c.began.nanos ≤ e.nanos := (h.2 e he).1
  have hlength : c.length = e.nanos - c.began.nanos := by
    unfold length
    rw [he]
    rfl
  omega

/-- A call takes the time that has elapsed at its end. -/
theorem length_of_elapsed (began elapsed : Span) (acknowledged : Bool) :
    (⟨began, some (began + elapsed), acknowledged⟩ : HandlerCall).length = elapsed.nanos :=
  Nat.add_sub_cancel_left began.nanos elapsed.nanos

/-- A call is not over after the present. -/
theorem began_add_length_le {c : HandlerCall} {now : Span} (h : c.Within now) :
    c.began.nanos + c.length ≤ now.nanos := by
  cases he : c.ended with
  | none =>
    have hlength : c.length = 0 := by
      unfold length
      rw [he]
      rfl
    have hle : c.began.nanos ≤ now.nanos := h.1
    omega
  | some e =>
    rw [began_add_length h he]
    exact (h.2 e he).2

/-- One more call. -/
theorem spent_cons (c : HandlerCall) (past : List HandlerCall) :
    spent (c :: past) = c.length + spent past := by
  unfold spent
  rw [List.map_cons, List.sum_cons]

/-- Calls that follow one another took no longer together than the time since some reading before
the first of them. -/
theorem spent_le {calls : List HandlerCall} {first now : Span} (hle : first ≤ now)
    (hapart : Apart calls) (hwithin : ∀ c ∈ calls, c.Within now)
    (hfirst : ∀ c ∈ calls, first ≤ c.began) : first.nanos + spent calls ≤ now.nanos := by
  induction calls generalizing now with
  | nil => exact hle
  | cons c past ih =>
    obtain ⟨hbefore, hpast⟩ := List.pairwise_cons.mp hapart
    obtain ⟨hc, hwithin'⟩ := List.forall_mem_cons.mp hwithin
    obtain ⟨hbegan, hfirst'⟩ := List.forall_mem_cons.mp hfirst
    -- The earlier calls were over when this one began.
    have hover : ∀ c' ∈ past, c'.Within c.began := by
      intro c' hc'
      obtain ⟨e, he, hend⟩ := hbefore c' hc'
      have hbegan' := ((hwithin' c' hc').2 e he).1
      refine ⟨Nat.le_trans hbegan' hend, fun e' he' => ?_⟩
      obtain rfl := Option.some.inj (he.symm.trans he')
      exact ⟨hbegan', hend⟩
    have hearlier := ih hbegan hpast hover hfirst'
    have hlast := began_add_length_le hc
    rw [spent_cons]
    omega

/-- One more call counts if it was acknowledged. -/
theorem counted_cons (c : HandlerCall) (past : List HandlerCall) :
    counted (c :: past) = (if c.acknowledged then c.length else 0) + counted past := by
  unfold counted
  cases hc : c.acknowledged with
  | true =>
    rw [List.filter_cons_of_pos hc, spent_cons]
    rfl
  | false =>
    rw [List.filter_cons_of_neg (Bool.eq_false_iff.mp hc), if_neg Bool.false_ne_true, Nat.zero_add]

/-- A call that is not acknowledged does not count. -/
theorem counted_cons_of_open (began : Span) (ended : Option Span) (past : List HandlerCall) :
    counted (⟨began, ended, false⟩ :: past) = counted past := by
  rw [counted_cons, if_neg Bool.false_ne_true, Nat.zero_add]

/-- What counts is some of what was spent. -/
theorem counted_le_spent (calls : List HandlerCall) : counted calls ≤ spent calls := by
  induction calls with
  | nil => exact Nat.le_refl _
  | cons c past ih =>
    rw [counted_cons, spent_cons]
    split <;> omega

/-- A deed leaves the beginnings of calls as they are, or adds its own time to them. -/
theorem map_began_tell (calls : List HandlerCall) (x : Span × Deed) :
    (tell calls x).map began = x.1 :: calls.map began ∨
      (tell calls x).map began = calls.map began := by
  unfold tell
  split
  · exact .inl rfl
  all_goals exact .inr rfl

/-- Calls do not begin before what is noted of them. -/
theorem le_began {record : List (Span × Deed)} {calls : List HandlerCall} {first : Span}
    (hrecord : ∀ x ∈ record, first ≤ x.1) (hcalls : ∀ t ∈ calls.map began, first ≤ t) :
    ∀ t ∈ (record.foldl tell calls).map began, first ≤ t := by
  induction record generalizing calls with
  | nil => exact hcalls
  | cons x rest ih =>
    obtain ⟨hx, hrest⟩ := List.forall_mem_cons.mp hrecord
    refine ih hrest ?_
    rcases map_began_tell calls x with h | h
    · rw [h]
      exact List.forall_mem_cons.mpr ⟨hx, hcalls⟩
    · rw [h]
      exact hcalls

end HandlerCall

open HandlerCall

/-- The call that a loop is in, as far as it has come. -/
def Phase.call? : Phase → Option HandlerCall
  -- The handler has returned; what is about to be added was measured then.
  | .handling ⟨_, began, .settling _ elapsed⟩ => some ⟨began, some (began + elapsed), false⟩
  | .handling ⟨_, began, _⟩ => some ⟨began, none, false⟩
  | _ => none

/-- A loop that waits is in the same call when the waiting ends. -/
theorem Phase.call?_awake (phase : Phase) : phase.awake.call? = phase.call? := by
  unfold awake
  split <;> rfl

/-! ## The timesheet of a worker -/

/-- The calls of a worker follow one another, all but the one that its loop is in are over, none of
them is from the future, and the worker has counted those that were acknowledged. -/
structure Timesheet (w : Worker) (current : Option HandlerCall) (calls : List HandlerCall)
    (now : Span) : Prop where
  split : ∃ past, calls = current.toList ++ past ∧ ∀ c ∈ past, c.ended.isSome = true
  apart : Apart calls
  within : ∀ c ∈ calls, c.Within now
  counted : w.processTime.nanos = counted calls

namespace Timesheet

variable {w w' : Worker} {current : Option HandlerCall} {calls : List HandlerCall} {now : Span}

/-- A new worker has called nothing. -/
theorem create (name : String) (queue : QueueRef) (handler : Handler) (pollInterval : Span)
    (now : Span) : Timesheet (.create name queue handler pollInterval) none [] now :=
  ⟨⟨[], rfl, fun _ hc => absurd hc List.not_mem_nil⟩, List.Pairwise.nil,
    fun _ hc => absurd hc List.not_mem_nil, rfl⟩

/-- Time changes nothing about what has happened. -/
theorem mono {later : Span} (h : Timesheet w current calls now) (hle : now ≤ later) :
    Timesheet w current calls later :=
  ⟨h.split, h.apart, fun c hc => (h.within c hc).mono hle, h.counted⟩

/-- What does not change the time that the worker has counted leaves the timesheet as it is. -/
theorem of_processTime (h : Timesheet w current calls now)
    (htime : w'.processTime = w.processTime) : Timesheet w' current calls now :=
  ⟨h.split, h.apart, h.within, htime ▸ h.counted⟩

/-- A lease begins a call. -/
theorem leases (h : Timesheet w none calls now) :
    Timesheet w (some ⟨now, none, false⟩) (⟨now, none, false⟩ :: calls) now := by
  obtain ⟨past, hcalls, hpast⟩ := h.split
  obtain rfl : calls = past := hcalls
  refine ⟨⟨calls, rfl, hpast⟩, List.pairwise_cons.mpr ⟨fun c hc => ?_, h.apart⟩,
    List.forall_mem_cons.mpr ⟨⟨Nat.le_refl _, nofun⟩, h.within⟩, ?_⟩
  · -- Without a call in progress all are over.
    obtain ⟨e, he⟩ := Option.isSome_iff_exists.mp (hpast c hc)
    exact ⟨e, he, ((h.within c hc).2 e he).2⟩
  · rw [h.counted, counted_cons_of_open]

/-- The call in progress, with the others behind it. -/
theorem current_first {c : HandlerCall} (h : Timesheet w (some c) calls now) :
    ∃ past, calls = c :: past ∧ ∀ c' ∈ past, c'.ended.isSome = true := h.split

/-- The return of the handler ends the call. -/
theorem returns {began : Span} (h : Timesheet w (some ⟨began, none, false⟩) calls now)
    (failure : Option String) :
    Timesheet w (some ⟨began, some (began + now.since began), false⟩)
      (tell calls (now, .returned failure)) now := by
  obtain ⟨past, rfl, hpast⟩ := h.current_first
  obtain ⟨hbefore, hapart⟩ := List.pairwise_cons.mp h.apart
  obtain ⟨hc, hwithin⟩ := List.forall_mem_cons.mp h.within
  -- What the worker measures is the time up to the present reading, as the clock has not run back.
  have hbegan : began.nanos ≤ now.nanos := hc.1
  have hend : began + now.since began = now := by
    show (⟨began.nanos + (now.nanos - began.nanos)⟩ : Span) = now
    rw [Nat.add_sub_cancel' hbegan]
  rw [hend]
  refine ⟨⟨past, rfl, hpast⟩, List.pairwise_cons.mpr ⟨hbefore, hapart⟩,
    List.forall_mem_cons.mpr ⟨⟨hc.1, fun e he => ?_⟩, hwithin⟩, ?_⟩
  · obtain rfl := Option.some.inj he
    exact ⟨hc.1, Nat.le_refl _⟩
  · show _ = HandlerCall.counted (⟨began, some now, false⟩ :: past)
    rw [h.counted, counted_cons_of_open, counted_cons_of_open]

/-- A settlement closes the call; the worker counts it if it is acknowledged. -/
theorem settles {began elapsed : Span}
    (h : Timesheet w (some ⟨began, some (began + elapsed), false⟩) calls now)
    (handle : Ident) (failure : Option String) (accepted : Bool) :
    Timesheet (w.counted failure elapsed accepted) none
      (tell calls (now, .settled handle (.after failure) accepted)) now := by
  obtain ⟨past, rfl, hpast⟩ := h.current_first
  obtain ⟨hbefore, hapart⟩ := List.pairwise_cons.mp h.apart
  obtain ⟨hc, hwithin⟩ := List.forall_mem_cons.mp h.within
  have htell : tell (⟨began, some (began + elapsed), false⟩ :: past)
      (now, .settled handle (.after failure) accepted) =
        ⟨began, some (began + elapsed), failure.isNone && accepted⟩ :: past := by
    cases failure <;> cases accepted <;> rfl
  have htime : (w.counted failure elapsed accepted).processTime.nanos =
      (if failure.isNone && accepted then elapsed.nanos else 0) + w.processTime.nanos := by
    cases failure with
    | some reason => exact (Nat.zero_add _).symm
    | none =>
      cases accepted with
      | false => exact (Nat.zero_add _).symm
      | true => exact Nat.add_comm _ _
  have hcounted := h.counted.trans (counted_cons_of_open _ _ _)
  rw [htell]
  refine ⟨⟨_, rfl, List.forall_mem_cons.mpr ⟨rfl, hpast⟩⟩,
    List.pairwise_cons.mpr ⟨hbefore, hapart⟩, List.forall_mem_cons.mpr ⟨hc, hwithin⟩, ?_⟩
  rw [counted_cons, length_of_elapsed, htime, hcounted]

end Timesheet

/-- A step of a loop keeps the timesheet of its worker. -/
theorem Fleet.Effect.timesheet {f g : Fleet} {w w' : Worker} {phase phase' : Phase}
    {calls : List HandlerCall} (h : f.Effect w phase w' phase' g)
    (hsheet : Timesheet w phase.call? calls f.clock.uptime) :
    Timesheet w' phase'.call?
      (((f.deeds w phase).map (f.clock.uptime, ·)).foldl tell calls) f.clock.uptime := by
  cases h with
  | ends hsignal =>
    rw [deeds_of_signal hsignal]
    exact hsheet.of_processTime rfl
  | waits hsignal hrec =>
    rw [deeds_of_receive hsignal hrec]
    exact hsheet
  | leases hsignal hrec =>
    rw [deeds_of_receive hsignal hrec]
    exact hsheet.leases
  | skips hguard =>
    rw [deeds_of_guard hguard]
    exact hsheet.returns none
  | calls hguard =>
    rw [deeds_of_guard hguard]
    exact hsheet.of_processTime rfl
  | @fails m began reason => exact (hsheet.returns (some reason)).of_processTime rfl
  | succeeds hguard =>
    rw [deeds_of_last hguard]
    exact (hsheet.returns none).of_processTime rfl
  | succeedsGuarded hguard =>
    rw [deeds_of_last hguard]
    exact hsheet.of_processTime rfl
  | marks | marksNothing => exact hsheet.returns none
  | settles => exact hsheet.settles _ _ _
  | _ => exact hsheet.of_processTime rfl

namespace Shift

/-! ## The calls of a worker -/

/-- What is noted of a worker's loops, with the readings of the clock. -/
def record (s : Shift) (ref : WorkerRef) : List (Span × Deed) :=
  s.notes.filterMap fun note => if note.worker = ref then some (note.time, note.deed) else none

/-- The calls of the handler of a worker so far, the newest first. -/
def handlerCalls (s : Shift) (ref : WorkerRef) : List HandlerCall := (s.record ref).foldl tell []

/-- The record is what is noted, in the same order. -/
theorem map_record (s : Shift) (ref : WorkerRef) :
    (s.record ref).map Prod.snd = s.deeds ref := by
  unfold record deeds
  rw [List.map_filterMap]
  congr 1
  funext note
  split <;> rfl

/-- What a move adds to the record has the present reading of the clock. -/
theorem exists_record_apply (s : Shift) (v : Move) (ref : WorkerRef) : ∃ news : List Deed,
    (s.apply v).record ref = s.record ref ++ news.map (s.fleet.clock.uptime, ·) := by
  unfold record
  rcases s.notes_cases v with h | ⟨run, worker, w, w', phase, phase', g, h⟩
  · exact ⟨[], by rw [h]; exact (List.append_nil _).symm⟩
  · rw [h.notes, List.filterMap_append, List.filterMap_map]
    by_cases href : worker = ref
    · exact ⟨s.fleet.deeds w phase, by simp [href]⟩
    · exact ⟨[], by simp [href]⟩

/-- A move adds to the record what it adds to the notes. -/
theorem record_apply {s : Shift} {v : Move} {ref : WorkerRef} {news : List Deed}
    (hdeeds : (s.apply v).deeds ref = s.deeds ref ++ news) :
    (s.apply v).record ref = s.record ref ++ news.map (s.fleet.clock.uptime, ·) := by
  obtain ⟨more, hmore⟩ := s.exists_record_apply v ref
  have hsame := (s.apply v).map_record ref
  rw [hmore, List.map_append, s.map_record, hdeeds, List.map_map] at hsame
  have hnews : news = more := by simpa [Function.comp_def] using hsame.symm
  rw [hmore, hnews]

/-- A move that adds nothing to the notes of a worker leaves its record as it is. -/
theorem record_apply_of_quiet {s : Shift} {v : Move} {ref : WorkerRef}
    (hdeeds : (s.apply v).deeds ref = s.deeds ref) : (s.apply v).record ref = s.record ref := by
  have hrecord := record_apply (hdeeds.trans (List.append_nil _).symm)
  rw [List.map_nil, List.append_nil] at hrecord
  exact hrecord

/-- Whatever happens to a worker with one loop at most keeps its timesheet. -/
theorem Affects.timesheet {s : Shift} {w w' : Worker} {phases phases' : List Phase}
    {news : List Deed} {calls : List HandlerCall} (h : s.Affects w phases w' phases' news)
    (hone : phases.length = w.running.toNat)
    (hsheet : Timesheet w (phases.head?.bind Phase.call?) calls s.fleet.clock.uptime) :
    Timesheet w' (phases'.head?.bind Phase.call?)
      ((news.map (s.fleet.clock.uptime, ·)).foldl tell calls) s.fleet.clock.uptime := by
  cases h with
  | nothing => exact hsheet
  | stops | signals => exact hsheet.of_processTime rfl
  | starts hidle =>
    rw [hidle] at hone
    obtain rfl := List.eq_nil_of_length_eq_zero hone
    exact hsheet.of_processTime rfl
  | @wakes before after phase =>
    -- The loop that wakes, or takes a step, is the only one.
    obtain ⟨rfl, rfl, -⟩ := loop_alone hone
    show Timesheet w phase.awake.call? calls _
    rw [phase.call?_awake]
    exact hsheet
  | @steps before after phase phase' w' g heffect =>
    obtain ⟨rfl, rfl, -⟩ := loop_alone hone
    have hcall : (([] ++ phase'.live ++ []).head?.bind Phase.call?) = phase'.call? := by
      cases phase' <;> rfl
    rw [hcall]
    exact heffect.timesheet hsheet

/-- In every state of every run, the timesheet of every worker is right. -/
theorem Reachable.timesheet {s : Shift} (hs : s.Reachable) {ref : WorkerRef} {w : Worker}
    (hw : s.fleet.worker? ref = some w) :
    Timesheet w ((s.fleet.loops ref).head?.bind Phase.call?) (s.handlerCalls ref)
      s.fleet.clock.uptime := by
  induction hs generalizing w with
  | create defaults clock => cases hw
  | @apply s v hs hv ih =>
    refine Timesheet.mono ?_ (s.uptime_apply v)
    rcases s.apply_cases v ref with h | ⟨w₀, w', news, hw₀, hw', hdeeds, h⟩ | ⟨hnone, hloop | h⟩
    · unfold handlerCalls
      rw [h.loops, record_apply_of_quiet h.deeds]
      exact ih (h.worker.symm.trans hw)
    · obtain rfl := Option.some.inj (hw'.symm.trans hw)
      unfold handlerCalls
      rw [record_apply hdeeds, List.foldl_append]
      exact h.timesheet (hs.orderly hw₀).1 (ih hw₀)
    · exact absurd (hs.stranger hnone).1 hloop
    · obtain ⟨name, queue, handler, pollInterval, -, hnew, hloops, hdeeds⟩ := h
      obtain rfl := Option.some.inj (hnew.symm.trans hw)
      have hrecord : (s.apply v).record ref = [] := by
        rw [← List.map_eq_nil_iff, map_record, hdeeds]
        exact (hs.stranger hnone).2
      unfold handlerCalls
      rw [hloops, hrecord, (hs.stranger hnone).1]
      exact .create name queue handler pollInterval _

/-! ## The first start -/

/-- The move is a start of the worker. -/
def Move.starts (ref : WorkerRef) : Move → Bool
  | .start worker => decide (worker = ref)
  | _ => false

/-- The reading of the clock at the first start of a worker in a run. -/
def firstStart? (ref : WorkerRef) (s : Shift) : List Move → Option Span
  | [] => none
  | v :: rest =>
    if v.starts ref && (s.fleet.worker? ref).isSome then some s.fleet.clock.uptime
    else firstStart? ref (s.apply v) rest

variable {s : Shift} {ref : WorkerRef} {moves : List Move}

/-- A worker without a loop gets one by a start alone, and until then nothing is noted of it. -/
theorem unstarted_apply {v : Move} (hloops : s.fleet.loops ref = [])
    (hv : (v.starts ref && (s.fleet.worker? ref).isSome) = false) :
    (s.apply v).fleet.loops ref = [] ∧ (s.apply v).deeds ref = s.deeds ref := by
  have hnone : ∀ {before after : List Phase} {phase : Phase},
      s.fleet.loops ref ≠ before ++ phase :: after := by simp [hloops]
  have hkind := s.kind v
  generalize s.apply v = s' at hkind ⊢
  cases hkind with
  | @steps v s' run worker w w' phase phase' g _ h =>
    by_cases href : ref = worker
    · -- A run that takes a step is a loop.
      subst href
      have hlive := Phase.not_ended_of_active h.active
      obtain ⟨⟨before, after, hloop, -⟩, -⟩ := Fleet.loops_setPhase h.hrun hlive phase
      exact absurd hloop hnone
    · have hsame := h.unmoved href
      exact ⟨hsame.loops.trans hloops, hsame.deeds⟩
  | start worker =>
    by_cases href : ref = worker
    · subst href
      have hmissing : s.fleet.worker? ref = none := by simpa [Move.starts] using hv
      have hself : s.fleet.launch ref = s.fleet := by rw [Fleet.launch, hmissing]
      rw [withFleet, hself]
      exact ⟨hloops, rfl⟩
    · exact ⟨(s.fleet.launch_others href).2.trans hloops, rfl⟩
  | wake run =>
    rcases s.fleet.loops_rouse run ref with h | ⟨before, phase, after, hloop, -⟩
    · exact ⟨h.trans hloops, rfl⟩
    · exact absurd hloop hnone
  | _ => exact ⟨hloops, rfl⟩

/-- Before its first start, nothing is noted of a worker. -/
theorem record_of_unstarted (hloops : s.fleet.loops ref = [])
    (hnone : firstStart? ref s moves = none) : (s.run moves).record ref = s.record ref := by
  induction moves generalizing s with
  | nil => rfl
  | cons v rest ih =>
    unfold firstStart? at hnone
    split at hnone
    · cases hnone
    · rename_i hv
      obtain ⟨hloops', hdeeds⟩ := unstarted_apply hloops (Bool.eq_false_iff.mpr hv)
      exact (ih hloops' hnone).trans (record_apply_of_quiet hdeeds)

/-- A run lets time go on, and what is noted during it has readings of the clock from then on. -/
theorem record_run (s : Shift) (ref : WorkerRef) (moves : List Move) :
    s.fleet.clock.uptime ≤ (s.run moves).fleet.clock.uptime ∧
      ∃ news, (s.run moves).record ref = s.record ref ++ news ∧
        ∀ x ∈ news, s.fleet.clock.uptime ≤ x.1 := by
  induction moves generalizing s with
  | nil =>
    exact ⟨Nat.le_refl _, [], (List.append_nil _).symm, fun _ hx => absurd hx List.not_mem_nil⟩
  | cons v rest ih =>
    obtain ⟨hlater, more, hmore, hmoreTimes⟩ := ih (s.apply v)
    have hstep := s.uptime_apply v
    obtain ⟨news, hnews⟩ := s.exists_record_apply v ref
    refine ⟨Nat.le_trans hstep hlater, news.map (s.fleet.clock.uptime, ·) ++ more, ?_,
      fun x hx => ?_⟩
    · show ((s.apply v).run rest).record ref = _
      rw [hmore, hnews, List.append_assoc]
    · rcases List.mem_append.mp hx with hx | hx
      · obtain ⟨deed, -, rfl⟩ := List.mem_map.mp hx
        exact Nat.le_refl _
      · exact Nat.le_trans hstep (hmoreTimes x hx)

/-- What is noted of a worker is noted from its first start on. -/
theorem record_since_firstStart {first : Span} (hloops : s.fleet.loops ref = [])
    (hfirst : firstStart? ref s moves = some first) :
    first ≤ (s.run moves).fleet.clock.uptime ∧
      ∃ news, (s.run moves).record ref = s.record ref ++ news ∧ ∀ x ∈ news, first ≤ x.1 := by
  induction moves generalizing s with
  | nil => cases hfirst
  | cons v rest ih =>
    have hrun := s.record_run ref (v :: rest)
    unfold firstStart? at hfirst
    split at hfirst
    · obtain rfl := Option.some.inj hfirst
      exact hrun
    · rename_i hv
      obtain ⟨hloops', hdeeds⟩ := unstarted_apply hloops (Bool.eq_false_iff.mpr hv)
      obtain ⟨hle, news, hnews, htimes⟩ := ih hloops' hfirst
      exact ⟨hle, news, hnews.trans (congrArg (· ++ news) (record_apply_of_quiet hdeeds)), htimes⟩

/-! ## No overflow -/

/-- **Processing time cannot overflow.** In every state of every run, for every worker:

* the calls of its handler follow one another: each has returned before the next one begins;
* each began and, if it is over, ended at a reading of the clock that has been reached;
* the time that the worker has counted is the sum of the lengths of the calls that were followed by
  an acknowledgement that was accepted;
* before its first start it has called nothing and counted nothing;
* after its first start, it has not counted more than the time since then;
* and wherever it is about to add the time of its last call, the sum will not be more than that
  either: it stays within the longest span as long as the clock does. -/
theorem processing_time_cannot_overflow {defaults : QueueDefaults} {clock : Clock}
    (hv : (create defaults clock).Admits moves) (hs : s = (create defaults clock).run moves)
    {w : Worker} (hw : s.fleet.worker? ref = some w) :
    Apart (s.handlerCalls ref) ∧
    (∀ c ∈ s.handlerCalls ref, c.Within s.fleet.clock.uptime) ∧
    w.processTime.nanos = HandlerCall.counted (s.handlerCalls ref) ∧
    (firstStart? ref (create defaults clock) moves = none →
      s.handlerCalls ref = [] ∧ w.processTime = .zero) ∧
    (∀ first, firstStart? ref (create defaults clock) moves = some first →
      first + w.processTime ≤ s.fleet.clock.uptime) ∧
    ∀ run m began elapsed,
      s.fleet.run? run = some ⟨ref, .handling ⟨m, began, .settling none elapsed⟩⟩ →
      (∃ past, s.handlerCalls ref = ⟨began, some (began + elapsed), false⟩ :: past) ∧
      (∃ first, firstStart? ref (create defaults clock) moves = some first ∧
        first + (w.processTime + elapsed) ≤ s.fleet.clock.uptime) ∧
      (s.fleet.clock.uptime ≤ Span.largest → w.processTime + elapsed ≤ Span.largest) := by
  have hreach : s.Reachable := hs ▸ (Reachable.create defaults clock).run hv
  have hsheet := hreach.timesheet hw
  have hunstarted : firstStart? ref (create defaults clock) moves = none →
      s.handlerCalls ref = [] := by
    intro hnone
    have hrecord := record_of_unstarted rfl hnone
    unfold handlerCalls
    rw [hs, hrecord]
    rfl
  -- All calls together take no longer than the time since the first start.
  have hspent : ∀ first, firstStart? ref (create defaults clock) moves = some first →
      first.nanos + spent (s.handlerCalls ref) ≤ s.fleet.clock.uptime.nanos := by
    intro first hfirst
    obtain ⟨hle, news, hnews, htimes⟩ := record_since_firstStart rfl hfirst
    rw [← hs] at hle hnews
    refine spent_le hle hsheet.apart hsheet.within fun c hc => ?_
    unfold handlerCalls at hc
    rw [hnews] at hc
    exact le_began htimes (fun _ ht => absurd ht List.not_mem_nil) _ (List.mem_map_of_mem hc)
  refine ⟨hsheet.apart, hsheet.within, hsheet.counted, fun hnone => ?_, fun first hfirst => ?_,
    fun run m began elapsed hrun => ?_⟩
  · have hnothing := hunstarted hnone
    refine ⟨hnothing, ?_⟩
    have htime := hsheet.counted
    rw [hnothing] at htime
    exact congrArg Span.mk htime
  · have hcounted : w.processTime.nanos ≤ spent (s.handlerCalls ref) :=
      hsheet.counted.symm ▸ counted_le_spent _
    calc first.nanos + w.processTime.nanos
      _ ≤ first.nanos + spent (s.handlerCalls ref) := Nat.add_le_add_left hcounted _
      _ ≤ s.fleet.clock.uptime.nanos := hspent first hfirst
  · rw [hreach.loops_of_run hw hrun rfl] at hsheet
    obtain ⟨past, hcalls, -⟩ := hsheet.current_first
    -- What is about to be added is the length of the last call, which does not count yet.
    have hsum : w.processTime.nanos + elapsed.nanos ≤ spent (s.handlerCalls ref) := by
      have htime := hsheet.counted
      have hpast := counted_le_spent past
      rw [hcalls, counted_cons_of_open] at htime
      rw [hcalls, spent_cons, length_of_elapsed]
      omega
    cases hfirst : firstStart? ref (create defaults clock) moves with
    | none =>
      rw [hunstarted hfirst] at hcalls
      cases hcalls
    | some first =>
      have hsince : first.nanos + (w.processTime.nanos + elapsed.nanos) ≤
          s.fleet.clock.uptime.nanos :=
        calc first.nanos + (w.processTime.nanos + elapsed.nanos)
          _ ≤ first.nanos + spent (s.handlerCalls ref) := Nat.add_le_add_left hsum _
          _ ≤ s.fleet.clock.uptime.nanos := hspent first hfirst
      have hwhole := Nat.le_trans (Nat.le_add_left _ first.nanos) hsince
      exact ⟨⟨past, hcalls⟩, ⟨first, rfl, hsince⟩, fun hclock => Nat.le_trans hwhole hclock⟩

/-- A worker whose handler takes 5 ms, then fails after 3 ms, then takes 2 ms and acknowledges the
message itself, then takes 4 ms. It is first started at 7 ms, is cancelled after its first call, and
is started again, twice, 10 ms later. -/
def timedRun : List Move :=
  [.broker (.call (.createQueue "work" {})),
    .broker (.call (.enqueue ⟨0⟩ (.create (.text "a") "order" [] .first))),
    .broker (.call (.enqueue ⟨0⟩ (.create (.text "b") "order" [] .first))),
    .broker (.call (.enqueue ⟨0⟩ (.create (.text "c") "order" [] .first))),
    .addWorker "worker" ⟨0⟩
      ⟨fun n _ => ([[.elapse (.ofMillis 5)], [.elapse (.ofMillis 3), .fail "broken"],
        [.elapse (.ofMillis 2), .settle .acknowledge], [.elapse (.ofMillis 4)]])[n]?.getD [], none⟩
      Worker.standardPollInterval,
    .elapse (.ofMillis 7), .start ⟨0⟩, .step ⟨0⟩, .step ⟨0⟩, .step ⟨0⟩, .step ⟨0⟩, .step ⟨0⟩,
    .signal ⟨0⟩ true, .step ⟨0⟩, .elapse (.ofMillis 10), .signal ⟨0⟩ false, .start ⟨0⟩, .start ⟨0⟩,
    .step ⟨1⟩, .step ⟨1⟩, .step ⟨1⟩, .step ⟨1⟩, .step ⟨1⟩,
    .step ⟨1⟩, .step ⟨1⟩, .step ⟨1⟩, .step ⟨1⟩, .step ⟨1⟩, .step ⟨1⟩,
    .step ⟨1⟩, .step ⟨1⟩, .step ⟨1⟩, .step ⟨1⟩]

/-- In that run, only the first of four calls counts yet; the time of the last is about to be added,
and the sum is within the 24 ms since the first start. -/
theorem processing_time_cannot_overflow_timedRun :
    let s := (create .standard ⟨.first, .zero⟩).run timedRun
    s.handlerCalls ⟨0⟩ =
      [⟨.ofMillis 27, some (.ofMillis 31), false⟩, ⟨.ofMillis 25, some (.ofMillis 27), false⟩,
        ⟨.ofMillis 22, some (.ofMillis 25), false⟩, ⟨.ofMillis 7, some (.ofMillis 12), true⟩] ∧
    ∃ w, s.fleet.worker? ⟨0⟩ = some w ∧ w.processTime = .ofMillis 5 ∧
      .ofMillis 7 + (w.processTime + .ofMillis 4) ≤ s.fleet.clock.uptime ∧
      w.processTime + .ofMillis 4 ≤ Span.largest := by
  have hv : (create .standard ⟨.first, .zero⟩).Admits timedRun := by decide
  obtain ⟨-, -, -, -, -, hadds⟩ := @processing_time_cannot_overflow _ ⟨0⟩ _ _ _ hv rfl _ rfl
  obtain ⟨-, ⟨first, hfirst, hsince⟩, hlargest⟩ := hadds ⟨1⟩ _ _ _ rfl
  obtain rfl : .ofMillis 7 = first := Option.some.inj hfirst
  exact ⟨rfl, _, rfl, rfl, hsince, hlargest (by decide)⟩

end Shift

end MessageBroker
