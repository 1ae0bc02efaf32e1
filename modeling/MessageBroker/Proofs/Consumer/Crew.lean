import Mathlib.Data.List.Nodup
import Mathlib.Data.List.Perm.Subperm
import Mathlib.Logic.Function.Basic
import MessageBroker.Consumer.Handler
import MessageBroker.Proofs.Broker.Objects

/-!
# Crews of consumers

A crew is any number of consumers of one queue. Each of them receives a message, acknowledges it
with the handle it has just got, and starts over, until it receives nothing; then it stops. Every
call happens at once, and a schedule says whose call comes next. All calls read the same instant.

Whatever the queue holds, every lease of the crew has a handle of its own, and was either settled by
the consumer that got it or is in its hands (`Books`), as long as no acknowledgement is refused. A
consumer that has not ended has made all the calls that the schedule gave it (`calls_run`), and each
of them got or settled a message, so it cannot go on for long (`Books.calls_le`).
-/

namespace MessageBroker

open Broker

/-- What a consumer does next. -/
inductive Crew.Activity where
  | receiving
  | settling (handle : Ident)
  /-- It has received nothing. -/
  | stopped
  /-- Its acknowledgement was refused. -/
  | refused (error : BrokerError)
deriving DecidableEq

/-- Consumers of a queue at work. What was received and acknowledged is noted, the oldest first. -/
structure Crew (n : Nat) where
  broker : Broker
  activity : Fin n → Crew.Activity
  received : List (Fin n × Message)
  acknowledged : List (Fin n × Ident)

namespace Crew

variable {n : Nat}

/-- Consumers that are about to start. -/
def start (b : Broker) (n : Nat) : Crew n := ⟨b, fun _ => .receiving, [], []⟩

/-- The next call of a consumer, at an instant. -/
def advance (ref : QueueRef) (t : Instant) (c : Crew n) (i : Fin n) : Crew n :=
  match c.activity i with
  | .receiving =>
    match c.broker.receive ref t with
    | (some m, b) =>
      { c with
        broker := b
        activity := Function.update c.activity i (.settling m.handle)
        received := c.received ++ [(i, m)] }
    | (none, b) =>
      { c with broker := b, activity := Function.update c.activity i .stopped }
  | .settling handle =>
    match c.broker.acknowledge ref handle with
    | .ok b =>
      { c with
        broker := b
        activity := Function.update c.activity i .receiving
        acknowledged := c.acknowledged ++ [(i, handle)] }
    | .error e => { c with activity := Function.update c.activity i (.refused e) }
  | .stopped | .refused _ => c

/-- The calls of a schedule, all at the same instant. -/
def run (ref : QueueRef) (t : Instant) (c : Crew n) (schedule : List (Fin n)) : Crew n :=
  schedule.foldl (advance ref t) c

/-- The handles that were issued, with the consumers they were issued to. -/
def leases (c : Crew n) : List (Fin n × Ident) := c.received.map fun r => (r.1, r.2.handle)

/-- The consumer makes no more calls. -/
def Ended (c : Crew n) (i : Fin n) : Prop :=
  c.activity i = .stopped ∨ ∃ e, c.activity i = .refused e

/-! ## What one call does -/

section Calls

variable {ref : QueueRef} {t : Instant} {c : Crew n} {i : Fin n}

/-- A consumer that finds a message holds it. -/
theorem advance_of_received (hi : c.activity i = .receiving) {m : Message} {b : Broker}
    (h : c.broker.receive ref t = (some m, b)) : c.advance ref t i =
      ⟨b, Function.update c.activity i (.settling m.handle), c.received ++ [(i, m)],
        c.acknowledged⟩ := by
  unfold advance
  simp only [hi, h]

/-- A consumer that finds nothing stops. -/
theorem advance_of_none (hi : c.activity i = .receiving) {b : Broker}
    (h : c.broker.receive ref t = (none, b)) : c.advance ref t i =
      { c with broker := b, activity := Function.update c.activity i .stopped } := by
  unfold advance
  simp only [hi, h]

/-- A consumer whose acknowledgement is accepted goes on. -/
theorem advance_of_acknowledged {handle : Ident} (hi : c.activity i = .settling handle)
    {b : Broker} (h : c.broker.acknowledge ref handle = .ok b) : c.advance ref t i =
      ⟨b, Function.update c.activity i .receiving, c.received,
        c.acknowledged ++ [(i, handle)]⟩ := by
  unfold advance
  simp only [hi, h]

/-- A consumer whose acknowledgement is refused ends. -/
theorem advance_of_refused {handle : Ident} (hi : c.activity i = .settling handle)
    {e : BrokerError} (h : c.broker.acknowledge ref handle = .error e) : c.advance ref t i =
      { c with activity := Function.update c.activity i (.refused e) } := by
  unfold advance
  simp only [hi, h]

/-- A consumer that has ended makes no more calls. -/
theorem advance_of_ended (hi : c.Ended i) : c.advance ref t i = c := by
  unfold advance
  rcases hi with hi | ⟨e, hi⟩ <;> simp only [hi]

end Calls

/-! ## Leases and their consumers -/

/-- Every lease since the start, when the broker was `b`, has a handle of its own, and was either
settled by its consumer or is in the hands of that consumer. No settlement was refused. -/
structure Books (b : Broker) (c : Crew n) : Prop where
  issued : b.mint.issued ≤ c.broker.mint.issued
  fresh : ∀ h ∈ c.leases.map Prod.snd, b.mint.Pending h ∧ ¬ c.broker.mint.Pending h
  distinct : (c.leases.map Prod.snd).Nodup
  settled : ∀ i h, c.leases.count (i, h) =
    c.acknowledged.count (i, h) + if c.activity i = .settling h then 1 else 0
  accepted : ∀ i e, c.activity i ≠ .refused e

/-- At the start there are no leases. -/
theorem books_start (b : Broker) (n : Nat) : Books b (start b n) where
  issued := Nat.le_refl _
  fresh := fun _ hh => absurd hh List.not_mem_nil
  distinct := List.nodup_nil
  settled := fun _ _ => rfl
  accepted := nofun

/-- What a consumer does after another one has gone on to something else, it did before. -/
theorem activity_of_update {activity : Fin n → Activity} {i j : Fin n} {next x : Activity}
    (h : Function.update activity i next j = x) (hne : next ≠ x) : activity j = x := by
  by_cases hj : j = i
  · rw [hj, Function.update_self] at h
    exact absurd h hne
  · rwa [Function.update_of_ne hj] at h

namespace Books

variable {b b' : Broker} {c : Crew n} (hc : Books b c)
include hc

/-- A handle that was issued is not issued again. -/
theorem next_not_mem : c.broker.mint.next ∉ c.leases.map Prod.snd := fun hmem =>
  (hc.fresh _ hmem).2 (Nat.le_refl _)

/-- What a consumer holds was issued to it. -/
theorem mem_leases {i : Fin n} {h : Ident} (hi : c.activity i = .settling h) :
    (i, h) ∈ c.leases := by
  rw [← List.count_pos_iff, hc.settled, if_pos hi]
  omega

/-- What a consumer holds was issued since the start, and is not issued again. -/
theorem pending_of_settling {i : Fin n} {h : Ident} (hi : c.activity i = .settling h) :
    b.mint.Pending h ∧ h ≠ c.broker.mint.next := by
  have hmem : h ∈ c.leases.map Prod.snd := List.mem_map_of_mem (hc.mem_leases hi)
  exact ⟨(hc.fresh h hmem).1, fun he => hc.next_not_mem (he ▸ hmem)⟩

/-- Two consumers do not hold the same. -/
theorem holder_unique {i j : Fin n} {h : Ident} (hi : c.activity i = .settling h)
    (hj : c.activity j = .settling h) : i = j := by
  have hpair := List.inj_on_of_nodup_map hc.distinct (hc.mem_leases hi) (hc.mem_leases hj) rfl
  exact congrArg Prod.fst hpair

/-- The next lease goes into the hands of its consumer. -/
theorem receives {i : Fin n} (hi : c.activity i = .receiving) {m : Message}
    (hm : m.handle = c.broker.mint.next) (hb : b'.mint = c.broker.mint.advance) :
    Books b ⟨b', Function.update c.activity i (.settling m.handle), c.received ++ [(i, m)],
      c.acknowledged⟩ := by
  have hleases : ∀ k, leases ⟨b', k, c.received ++ [(i, m)], c.acknowledged⟩ =
      c.leases ++ [(i, m.handle)] := fun k => List.map_append
  have hnew : m.handle ∉ c.leases.map Prod.snd := hm ▸ hc.next_not_mem
  constructor
  case issued =>
    rw [hb]
    exact Nat.le_succ_of_le hc.issued
  case fresh =>
    intro h hh
    rw [hleases, List.map_append, List.mem_append] at hh
    rw [hb]
    rcases hh with hh | hh
    · obtain ⟨hp, hno⟩ := hc.fresh h hh
      exact ⟨hp, fun hlater => hno (hlater.of_le (Nat.le_succ _))⟩
    · rw [List.mem_singleton.mp hh, hm]
      exact ⟨hc.issued, c.broker.mint.issued_advance_next.not_pending⟩
  case distinct =>
    rw [hleases, List.map_append]
    refine List.nodup_append.mpr ⟨hc.distinct, List.nodup_singleton _, fun x hx y hy he => ?_⟩
    rw [he, List.mem_singleton.mp hy] at hx
    exact hnew hx
  case settled =>
    -- The lease is one more for its consumer, and is in its hands.
    intro j h
    have hbefore := hc.settled j h
    rw [hleases, List.count_append, List.count_singleton]
    by_cases hj : j = i
    · subst hj
      simp only [hi, reduceCtorEq, if_false, Nat.add_zero] at hbefore
      simp only [hbefore, Function.update_self, Activity.settling.injEq, beq_iff_eq,
        Prod.mk.injEq, true_and]
    · have hne : ¬ i = j := fun he => hj he.symm
      simp only [hbefore, Function.update_of_ne hj, beq_iff_eq, Prod.mk.injEq, hne, false_and,
        if_false, Nat.add_zero]
  case accepted => exact fun j e hj => hc.accepted j e (activity_of_update hj (by rintro ⟨⟩))

/-- A settlement takes the lease out of the hands of its consumer. -/
theorem settles {i : Fin n} {h : Ident} (hi : c.activity i = .settling h)
    (hb : b'.mint = c.broker.mint) :
    Books b ⟨b', Function.update c.activity i .receiving, c.received,
      c.acknowledged ++ [(i, h)]⟩ := by
  constructor
  case issued =>
    rw [hb]
    exact hc.issued
  case fresh =>
    rw [hb]
    exact hc.fresh
  case distinct => exact hc.distinct
  case settled =>
    intro j x
    refine (hc.settled j x).trans ?_
    rw [List.count_append, List.count_singleton]
    by_cases hj : j = i
    · subst hj
      simp only [hi, Function.update_self, Activity.settling.injEq, beq_iff_eq, Prod.mk.injEq,
        true_and, reduceCtorEq, if_false, Nat.add_zero]
    · have hne : ¬ i = j := fun he => hj he.symm
      simp only [Function.update_of_ne hj, beq_iff_eq, Prod.mk.injEq, hne, false_and, if_false,
        Nat.add_zero]
  case accepted => exact fun j e hj => hc.accepted j e (activity_of_update hj (by rintro ⟨⟩))

/-- A consumer that stops has nothing in its hands. -/
theorem stops {i : Fin n} (hi : c.activity i = .receiving) :
    Books b { c with activity := Function.update c.activity i .stopped } := by
  constructor
  case issued => exact hc.issued
  case fresh => exact hc.fresh
  case distinct => exact hc.distinct
  case settled =>
    intro j x
    refine (hc.settled j x).trans ?_
    by_cases hj : j = i
    · subst hj
      simp only [hi, Function.update_self, reduceCtorEq, if_false]
    · simp only [Function.update_of_ne hj]
  case accepted => exact fun j e hj => hc.accepted j e (activity_of_update hj (by rintro ⟨⟩))

end Books

/-! ## Counting calls -/

/-- The number of messages that a consumer received or acknowledged. -/
def calls (c : Crew n) (i : Fin n) : Nat :=
  c.received.countP (·.1 = i) + c.acknowledged.countP (·.1 = i)

/-- A call gives its consumer a message, or settles the one that it holds, or the consumer ends, if
it had not done so before. -/
theorem advance_cases (ref : QueueRef) (t : Instant) (c : Crew n) (j : Fin n) :
    (∃ b m, c.activity j = .receiving ∧ c.advance ref t j =
      ⟨b, Function.update c.activity j (.settling m.handle), c.received ++ [(j, m)],
        c.acknowledged⟩) ∨
    (∃ b h, c.activity j = .settling h ∧ c.advance ref t j =
      ⟨b, Function.update c.activity j .receiving, c.received, c.acknowledged ++ [(j, h)]⟩) ∨
    ∃ b next, (next = .stopped ∨ ∃ e, next = .refused e) ∧ c.advance ref t j =
      ⟨b, Function.update c.activity j next, c.received, c.acknowledged⟩ := by
  have hsame {next : Activity} (hj : c.activity j = next) :
      c = ⟨c.broker, Function.update c.activity j next, c.received, c.acknowledged⟩ := by
    rw [← hj, Function.update_eq_self]
  cases hj : c.activity j with
  | receiving =>
    rcases hr : c.broker.receive ref t with ⟨_ | m, b⟩
    · exact .inr (.inr ⟨b, .stopped, .inl rfl, advance_of_none hj hr⟩)
    · exact .inl ⟨b, m, rfl, advance_of_received hj hr⟩
  | settling h =>
    cases ha : c.broker.acknowledge ref h with
    | ok b => exact .inr (.inl ⟨b, h, rfl, advance_of_acknowledged hj ha⟩)
    | error e => exact .inr (.inr ⟨c.broker, .refused e, .inr ⟨e, rfl⟩, advance_of_refused hj ha⟩)
  | stopped =>
    have hstays : c.advance ref t j = c := advance_of_ended (.inl hj)
    exact .inr (.inr ⟨c.broker, .stopped, .inl rfl, hstays.trans (hsame hj)⟩)
  | refused e =>
    have hstays : c.advance ref t j = c := advance_of_ended (.inr ⟨e, hj⟩)
    exact .inr (.inr ⟨c.broker, .refused e, .inr ⟨e, rfl⟩, hstays.trans (hsame hj)⟩)

/-- A consumer that goes on after a call had not ended before, and the call counts if it is its
own. -/
theorem calls_advance {ref : QueueRef} {t : Instant} {c : Crew n} {i j : Fin n}
    (h : ¬ (c.advance ref t j).Ended i) :
    ¬ c.Ended i ∧ (c.advance ref t j).calls i = c.calls i + if j = i then 1 else 0 := by
  have hkept {next : Activity} (hj : ¬ c.Ended j)
      (hi : ¬ (Function.update c.activity j next i = .stopped ∨
        ∃ e, Function.update c.activity j next i = .refused e)) : ¬ c.Ended i := by
    by_cases he : i = j
    · rw [he]
      exact hj
    · rwa [Function.update_of_ne he] at hi
  rcases advance_cases ref t c j with ⟨b, m, hj, hc⟩ | ⟨b, x, hj, hc⟩ | ⟨b, next, hend, hc⟩
  · have hopen : ¬ c.Ended j := by simp [Ended, hj]
    rw [hc] at h ⊢
    refine ⟨hkept hopen h, ?_⟩
    simp only [calls, List.countP_append, List.countP_singleton, decide_eq_true_eq]
    omega
  · have hopen : ¬ c.Ended j := by simp [Ended, hj]
    rw [hc] at h ⊢
    refine ⟨hkept hopen h, ?_⟩
    simp only [calls, List.countP_append, List.countP_singleton, decide_eq_true_eq]
    omega
  · rw [hc] at h ⊢
    by_cases he : i = j
    · simp only [Ended, he, Function.update_self] at h
      exact absurd hend h
    · simp only [Ended, Function.update_of_ne he] at h
      rw [if_neg (Ne.symm he)]
      exact ⟨h, rfl⟩

/-- A consumer that has not ended has made all the calls that the schedule gives it. -/
theorem calls_run {ref : QueueRef} {t : Instant} {c : Crew n} {i : Fin n}
    {schedule : List (Fin n)} (h : ¬ (c.run ref t schedule).Ended i) :
    ¬ c.Ended i ∧ (c.run ref t schedule).calls i = c.calls i + schedule.count i := by
  induction schedule generalizing c with
  | nil => exact ⟨h, rfl⟩
  | cons j rest ih =>
    obtain ⟨hopen, hcalls⟩ := ih h
    obtain ⟨hbefore, hone⟩ := calls_advance hopen
    refine ⟨hbefore, hcalls.trans ?_⟩
    rw [hone, List.count_cons, Nat.add_assoc, Nat.add_comm (if j = i then 1 else 0)]
    simp only [beq_iff_eq]

/-- A consumer acknowledges no more than it receives. -/
theorem Books.calls_le {b : Broker} {c : Crew n} (hc : Books b c) (i : Fin n) :
    c.calls i ≤ 2 * c.received.length := by
  have hsub : c.acknowledged.Subperm c.leases := by
    refine List.subperm_ext_iff.mpr fun x _ => ?_
    rw [hc.settled x.1 x.2]
    exact Nat.le_add_right _ _
  have hback : c.acknowledged.countP (·.1 = i) ≤ c.leases.length :=
    Nat.le_trans (hsub.countP_le _) List.countP_le_length
  have hgot : c.received.countP (·.1 = i) ≤ c.received.length := List.countP_le_length
  rw [leases, List.length_map] at hback
  unfold calls
  omega

end Crew

end MessageBroker
