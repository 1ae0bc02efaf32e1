import MessageBroker.Consumer.Guard
import MessageBroker.Proofs.Consumer.Call
import MessageBroker.Proofs.Consumer.Store

/-!
# Guarded calls one after another

A guarded handler is called any number of times, without a worker, each call coming back before the
next one begins. `Fleet.handleAll` makes the calls and reports on them. Since they do not overlap,
the store knows of every success by the time of the next call, so the reports determine each other:
`Fleet.guard_law` says which calls the store lets through.

A step and a run: `handleGuarded_spec` says what one call does when the store reflects a log of
earlier marks, and `handleAll_spec` carries this along a list of calls, with the reports so far as
the log.
-/

namespace MessageBroker

/-- A call to be made of a guarded handler: after some time, for a message, and with what the
handler does if it is let through. -/
structure GuardedCall where
  after : Span
  message : Message
  actions : List Action

/-- What came of a call of a guarded handler. -/
structure CallReport where
  id : Ident
  /-- The reading of the monotonic clock when the call began. -/
  began : Span
  /-- The reading when it came back. -/
  ended : Span
  /-- The store let the call through to the handler. -/
  ran : Bool
  /-- The error that the call came back with. -/
  failure : Option String
deriving DecidableEq

namespace CallReport

/-- The handler ran and succeeded. -/
def Succeeded (r : CallReport) : Prop := r.ran = true ∧ r.failure = none

instance (r : CallReport) : Decidable r.Succeeded := inferInstanceAs (Decidable (_ ∧ _))

/-- The marks that calls leave in the store: one for each success, at its end. -/
def marks (reports : List CallReport) : List (Ident × Span) :=
  (reports.filter (·.Succeeded)).map fun r => (r.id, r.ended)

/-- The marks of a call and of those after it. -/
theorem marks_cons (r : CallReport) (reports : List CallReport) :
    marks (r :: reports) = marks [r] ++ marks reports := by
  unfold marks
  rw [← List.map_append, ← List.filter_append]
  rfl

/-- A mark comes from a success. -/
theorem mem_marks {reports : List CallReport} {id : Ident} {marked : Span} :
    (id, marked) ∈ marks reports ↔
      ∃ r ∈ reports, r.Succeeded ∧ r.id = id ∧ r.ended = marked := by
  unfold marks
  simp only [List.mem_map, List.mem_filter, decide_eq_true_iff, Prod.mk.injEq, and_assoc]

/-- The call comes within the retention time after the end of a success for the same id. -/
def Covered (r : CallReport) (retention : Span) (earlier : List CallReport) : Prop :=
  ∃ e ∈ earlier, e.Succeeded ∧ e.id = r.id ∧ r.began.since e.ended ≤ retention

/-- A call is covered if there is a mark of its id that still counts. -/
theorem covered_iff {r : CallReport} {retention : Span} {earlier : List CallReport} :
    r.Covered retention earlier ↔
      ∃ marked, (r.id, marked) ∈ marks earlier ∧ r.began.since marked ≤ retention := by
  constructor
  · rintro ⟨e, he, hsucceeded, hid, hfresh⟩
    exact ⟨e.ended, mem_marks.mpr ⟨e, he, hsucceeded, hid, rfl⟩, hfresh⟩
  · rintro ⟨marked, hmark, hfresh⟩
    obtain ⟨e, he, hsucceeded, hid, rfl⟩ := mem_marks.mp hmark
    exact ⟨e, he, hsucceeded, hid, hfresh⟩

end CallReport

namespace Fleet

/-- The actions of a call outside a worker change no store and take their time, and the first that
fails is the error of the call. -/
theorem act_spec (m : Message) (actions : List Action) (f : Fleet) :
    (act m actions f).1.stores = f.stores ∧
      f.clock.uptime ≤ (act m actions f).1.clock.uptime ∧
      (act m actions f).2.2 = Action.failure? actions := by
  induction actions generalizing f with
  | nil => exact ⟨rfl, Nat.le_refl _, rfl⟩
  | cons action rest ih =>
    cases action with
    | fail reason => exact ⟨rfl, Nat.le_refl _, rfl⟩
    | pause length | elapse length =>
      obtain ⟨hstores, hle, hfailure⟩ := ih (f.elapse length)
      have helapse : f.clock.uptime ≤ (f.elapse length).clock.uptime := Nat.le_add_right _ _
      exact ⟨hstores, Nat.le_trans helapse hle, hfailure⟩
    | publish topic => exact ih (f.publish topic m).1
    | stop | signal cancel | settle how => exact ih f

/-- The report on a call, from the fleet in which it began and from what it came back with. -/
def report (f : Fleet) (c : GuardedCall) (result : Fleet × List Event × Option String) :
    CallReport where
  id := c.message.id
  began := f.clock.uptime
  ended := result.1.clock.uptime
  ran := result.2.1.any (·.call?.isSome)
  failure := result.2.2

/-- Makes guarded calls one after another: the fleet afterwards, and a report on each call. -/
def handleAll (store : StoreRef) : List GuardedCall → Fleet → Fleet × List CallReport
  | [], f => (f, [])
  | c :: rest, f =>
    let f := f.elapse c.after
    let result := f.handleGuarded store c.actions c.message
    let (g, reports) := handleAll store rest result.1
    (g, f.report c result :: reports)

/-- What a call does when the store reflects a log. It runs the handler unless the log has a mark of
the id that still counts. A run comes back with what the handler does, a call that is not let
through without an error. A success goes to the log; otherwise no store changes. -/
theorem handleGuarded_spec {f : Fleet} {store : StoreRef} {s : IdempotencyStore}
    (hstore : f.stores[store.index]? = some s) {log : List (Ident × Span)}
    (hlog : s.Reflects log f.clock.uptime) (c : GuardedCall)
    {result : Fleet × List Event × Option String}
    (hresult : f.handleGuarded store c.actions c.message = result) {r : CallReport}
    (hr : f.report c result = r) :
    r.began ≤ r.ended ∧
      (r.ran = true ↔
        ¬ ∃ marked, (r.id, marked) ∈ log ∧ r.began.since marked ≤ s.retention) ∧
      r.failure = (if r.ran then Action.failure? c.actions else none) ∧
      (¬ r.Succeeded → result.1.stores = f.stores) ∧
      ∃ s', result.1.stores[store.index]? = some s' ∧ s'.retention = s.retention ∧
        s'.Reflects (log ++ CallReport.marks [r]) result.1.clock.uptime := by
  subst hr
  have hknown : f.isProcessed store c.message.id = s.isProcessed c.message.id f.clock.uptime := by
    unfold isProcessed
    rw [hstore]
    rfl
  have hiff := hlog.isProcessed_iff c.message.id
  unfold handleGuarded at hresult
  cases hprocessed : s.isProcessed c.message.id f.clock.uptime with
  | true =>
    rw [hknown, hprocessed, if_pos rfl] at hresult
    subst hresult
    refine ⟨Nat.le_refl _, ?_, rfl, fun _ => rfl, s, hstore, rfl, ?_⟩
    · exact iff_of_false Bool.false_ne_true (not_not_intro (hiff.mp hprocessed))
    · exact (List.append_nil log).symm ▸ hlog
  | false =>
    rw [hknown, hprocessed, if_neg Bool.false_ne_true] at hresult
    have hnew : ¬ ∃ marked, (c.message.id, marked) ∈ log ∧
        f.clock.uptime.since marked ≤ s.retention :=
      fun hold => Bool.false_ne_true (hprocessed.symm.trans (hiff.mpr hold))
    obtain ⟨hstores, hle, hfailure⟩ := act_spec c.message c.actions f
    generalize act c.message c.actions f = acted at hresult hstores hle hfailure
    obtain ⟨g, events, failure⟩ := acted
    have hlog' : s.Reflects log g.clock.uptime := hlog.mono hle
    have hstore' : g.stores[store.index]? = some s := hstores ▸ hstore
    cases failure with
    | some reason =>
      subst hresult
      refine ⟨hle, iff_of_true rfl hnew, hfailure, fun _ => hstores, s, hstore', rfl, ?_⟩
      exact (List.append_nil log).symm ▸ hlog'
    | none =>
      subst hresult
      refine ⟨hle, iff_of_true rfl hnew, hfailure, fun hnot => absurd ⟨rfl, rfl⟩ hnot,
        s.markProcessed c.message.id g.clock.uptime, ?_, rfl, ?_⟩
      · show (g.stores.modify store.index _)[store.index]? = _
        rw [List.getElem?_modify_eq, hstore']
        rfl
      · exact hlog'.markProcessed c.message.id

/-- What each of several calls does when the store reflects a log: what it would do if the log went
on with the reports on the calls before it. -/
theorem handleAll_spec {store : StoreRef} (calls : List GuardedCall) {f : Fleet}
    {s : IdempotencyStore} (hstore : f.stores[store.index]? = some s) {log : List (Ident × Span)}
    (hlog : s.Reflects log f.clock.uptime) :
    (handleAll store calls f).2.length = calls.length ∧
    ∀ i c r, calls[i]? = some c → (handleAll store calls f).2[i]? = some r →
      r.id = c.message.id ∧ f.clock.uptime ≤ r.began ∧ r.began ≤ r.ended ∧
      (∀ j e, j < i → (handleAll store calls f).2[j]? = some e → e.ended ≤ r.began) ∧
      (r.ran = true ↔ ¬ ∃ marked,
        (r.id, marked) ∈ log ++ CallReport.marks ((handleAll store calls f).2.take i) ∧
          r.began.since marked ≤ s.retention) ∧
      r.failure = (if r.ran then Action.failure? c.actions else none) ∧
      (¬ r.Succeeded → (handleAll store (calls.take (i + 1)) f).1.stores =
        (handleAll store (calls.take i) f).1.stores) := by
  induction calls generalizing f s log with
  | nil => exact ⟨rfl, fun i c r hc => nomatch hc⟩
  | cons first rest ih =>
    have hafter : f.clock.uptime ≤ (f.elapse first.after).clock.uptime := Nat.le_add_right _ _
    have hstart : (f.elapse first.after).stores[store.index]? = some s := hstore
    have hspec := handleGuarded_spec hstart (hlog.mono hafter) first rfl rfl
    generalize hresult : (f.elapse first.after).handleGuarded store first.actions first.message =
      result at hspec
    generalize hreport : (f.elapse first.after).report first result = r₀ at hspec
    have hbegan : r₀.began = (f.elapse first.after).clock.uptime := by rw [← hreport]; rfl
    have hended : r₀.ended = result.1.clock.uptime := by rw [← hreport]; rfl
    obtain ⟨hle, hran, hfailure, hstores, s', hstore', hretention, hlog'⟩ := hspec
    have hcons : ∀ cs, (handleAll store (first :: cs) f).2 =
        r₀ :: (handleAll store cs result.1).2 := fun cs => by
      rw [handleAll, hresult, hreport]
    have hfleet : ∀ cs, (handleAll store (first :: cs) f).1 = (handleAll store cs result.1).1 :=
      fun cs => by rw [handleAll, hresult]
    obtain ⟨hlength, hrest⟩ := ih hstore' hlog'
    rw [hcons, List.length_cons, List.length_cons, hlength]
    refine ⟨rfl, fun i c r hc hr => ?_⟩
    cases i with
    | zero =>
      obtain rfl := Option.some.inj hc
      obtain rfl := Option.some.inj hr
      refine ⟨by rw [← hreport]; rfl, hbegan ▸ hafter, hle,
        fun j e hj => absurd hj (Nat.not_lt_zero j), ?_, hfailure, fun hnot => ?_⟩
      · exact (List.append_nil log).symm ▸ hran
      · rw [List.take_succ_cons, hfleet]
        exact hstores hnot
    | succ i =>
      obtain ⟨hid, hfrom, hwithin, horder, hlet, hcame, hleft⟩ := hrest i c r hc hr
      refine ⟨hid, ?_, hwithin, fun j e hj he => ?_, ?_, hcame, fun hnot => ?_⟩
      · exact Nat.le_trans (hbegan ▸ hafter) (Nat.le_trans hle (hended ▸ hfrom))
      · cases j with
        | zero =>
          obtain rfl := Option.some.inj he
          exact hended ▸ hfrom
        | succ j => exact horder j e (Nat.lt_of_succ_lt_succ hj) he
      · rw [hlet, hretention, List.take_succ_cons, CallReport.marks_cons r₀ (List.take i _),
          List.append_assoc]
      · rw [List.take_succ_cons, List.take_succ_cons, hfleet, hfleet]
        exact hleft hnot

/-- Guarded calls are made one after another, with a store that was empty. Every call is reported
on, in order, and:

* a call runs the handler exactly if no earlier call for the same id ran it with success and ended
  no longer than the retention time before this one began;
* a call that ran comes back with what the handler did, and one that was not let through comes back
  without an error;
* neither a call that was not let through nor one whose handler failed changes a store, so neither
  counts for later calls;
* after a run that failed, the next call for the same id runs the handler again. -/
theorem guard_law {f : Fleet} {store : StoreRef} {retention : Span}
    (hstore : f.stores[store.index]? = some (.create retention)) (calls : List GuardedCall)
    {reports : List CallReport} (hreports : (handleAll store calls f).2 = reports) :
    reports.length = calls.length ∧
    ∀ i c r, calls[i]? = some c → reports[i]? = some r →
      r.id = c.message.id ∧ r.began ≤ r.ended ∧
      (∀ j e, j < i → reports[j]? = some e → e.ended ≤ r.began) ∧
      (r.ran = true ↔ ¬ ∃ e ∈ reports.take i, e.Succeeded ∧ e.id = r.id ∧
        r.began.since e.ended ≤ retention) ∧
      r.failure = (if r.ran then Action.failure? c.actions else none) ∧
      (¬ r.Succeeded → (handleAll store (calls.take (i + 1)) f).1.stores =
        (handleAll store (calls.take i) f).1.stores) ∧
      (r.ran = true → r.failure ≠ none → ∀ j next, i < j → reports[j]? = some next →
        next.id = r.id → (∀ k e, i < k → k < j → reports[k]? = some e → e.id ≠ r.id) →
        next.ran = true) := by
  obtain ⟨hlength, hall⟩ :=
    handleAll_spec calls hstore (IdempotencyStore.reflects_create retention f.clock.uptime)
  rw [hreports] at hlength hall
  have hlet : ∀ i (c : GuardedCall) (r : CallReport), calls[i]? = some c → reports[i]? = some r →
      (r.ran = true ↔ ¬ r.Covered retention (reports.take i)) := by
    intro i c r hc hr
    obtain ⟨-, -, -, -, hran, -⟩ := hall i c r hc hr
    exact hran.trans (not_congr CallReport.covered_iff.symm)
  refine ⟨hlength, fun i c r hc hr => ?_⟩
  obtain ⟨hid, -, hwithin, horder, -, hcame, hleft⟩ := hall i c r hc hr
  refine ⟨hid, hwithin, horder, hlet i c r hc hr, hcame, hleft, ?_⟩
  intro hran hfailed j next hlt hj hsame hbetween
  obtain ⟨c', hc'⟩ : ∃ c', calls[j]? = some c' := by
    have hbound := (List.getElem?_eq_some_iff.mp hj).1
    rw [hlength] at hbound
    exact ⟨_, List.getElem?_eq_getElem hbound⟩
  obtain ⟨-, -, -, horder', -⟩ := hall j c' next hc' hj
  rw [hlet j c' next hc' hj]
  rintro ⟨e, he, hsucceeded, hid', hfresh⟩
  obtain ⟨k, hk⟩ := List.mem_iff_getElem?.mp he
  have hkj : k < j := by
    have hbound := (List.getElem?_eq_some_iff.mp hk).1
    rw [List.length_take] at hbound
    omega
  rw [List.getElem?_take_of_lt hkj] at hk
  -- A success that covers the later call is before the failed one, and covered that too.
  rcases Nat.lt_trichotomy k i with hbefore | rfl | hbehind
  · have hmem : e ∈ reports.take i := by
      rw [← List.getElem?_take_of_lt hbefore] at hk
      exact List.mem_of_getElem? hk
    have hlater : r.began.nanos ≤ next.began.nanos := Nat.le_trans hwithin (horder' i r hlt hr)
    have hpassed : next.began.nanos - e.ended.nanos ≤ retention.nanos := hfresh
    have hcovered : r.began.nanos - e.ended.nanos ≤ retention.nanos := by omega
    exact (hlet i c r hc hr).mp hran ⟨e, hmem, hsucceeded, hid'.trans hsame, hcovered⟩
  · obtain rfl := Option.some.inj (hr.symm.trans hk)
    exact hfailed hsucceeded.2
  · exact hbetween k e hbehind hkj hk (hid'.trans hsame)

/-- A fleet with one store, which keeps marks for a second. -/
def guarded : Fleet := ((create (.create .standard) ⟨.first, .zero⟩).addStore (.ofSeconds 1)).2

/-- Calls for two messages: the first one fails, then succeeds after half a second, is not let
through when its mark has an age of one second, and runs again a nanosecond later. -/
def fiveCalls : List GuardedCall :=
  let a : Message := .create (.text "a") "order" [] .first
  let b : Message := .create (.text "b") "order" [] .first
  [⟨.zero, a, [.pause (.ofMillis 1), .fail "busy"]⟩,
    ⟨.zero, a, [.pause (.ofMillis 500)]⟩,
    ⟨.ofMillis 400, b, []⟩,
    ⟨.ofMillis 600, a, []⟩,
    ⟨⟨1⟩, a, [.fail "late"]⟩]

/-- The fourth of those calls is covered by the second, and the fifth is not. -/
theorem guard_law_fiveCalls :
    ((handleAll ⟨0⟩ fiveCalls guarded).2.map fun r => (r.ran, r.failure)) =
      [(true, some "busy"), (true, none), (true, none), (false, none), (true, some "late")] ∧
    ∃ r, (handleAll ⟨0⟩ fiveCalls guarded).2[3]? = some r ∧
      ∃ e ∈ (handleAll ⟨0⟩ fiveCalls guarded).2.take 3, e.Succeeded ∧ e.id = r.id ∧
        r.began.since e.ended ≤ .ofSeconds 1 := by
  have hstore : guarded.stores[(⟨0⟩ : StoreRef).index]? = some (.create (.ofSeconds 1)) := rfl
  obtain ⟨-, hall⟩ := guard_law hstore fiveCalls rfl
  have hreport : (handleAll ⟨0⟩ fiveCalls guarded).2[3]? =
      some ⟨.text "a", ⟨1501000000⟩, ⟨1501000000⟩, false, none⟩ := by decide
  refine ⟨by decide, _, hreport, ?_⟩
  obtain ⟨-, -, -, hran, -⟩ := hall 3 _ _ rfl hreport
  exact Classical.not_not.mp fun hnot => Bool.false_ne_true (hran.mpr hnot)

end Fleet

end MessageBroker
