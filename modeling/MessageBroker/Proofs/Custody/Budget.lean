import MessageBroker.Proofs.Broker.DeadLetters
import MessageBroker.Proofs.Custody.Accounting
import MessageBroker.Proofs.Custody.Receipts

/-!
# The retry budget

A message counts the leases it has had, and a nack compares that count with the budget of its queue.
Leases lapse, so the count does not say how often a message was nacked; but a nack needs a lease of
its own, and so the nacks that return a message to its queue are at most as many as its leases
before the last. `Tally` keeps the three numbers together along a journal, and
`Chronicle.retry_budget` says what follows: how a nack of any message held will end, and how many
nacks a message can have.
-/

namespace MessageBroker

open Broker

namespace Custody

/-- The number of leases of an item. -/
def leases (n : Nat) (q : QueueRef) (j : List Entry) : Nat := j.countP fun e => e.Leases n q

/-- One more entry may be one more lease. -/
theorem leases_cons (n : Nat) (q : QueueRef) (e : Entry) (past : List Entry) :
    leases n q (e :: past) = leases n q past + if e.Leases n q then 1 else 0 := by
  unfold leases
  rw [List.countP_cons]
  simp only [decide_eq_true_eq]

/-- An item has been put in some time, with the rest of the journal before and after. -/
theorem split_of_storedIn {n : Nat} {q : QueueRef} {j : List Entry} (h : storedIn n j = some q) :
    ∃ later o m₀ earlier, j = later ++ .stored q o m₀ :: earlier ∧ earlier.length = n := by
  induction j with
  | nil => cases h
  | cons e past ih =>
    unfold storedIn at h
    split at h
    · rename_i hn
      cases e with
      | leased | settled | discarded => cases h
      | stored q' o m₀ =>
        obtain rfl := Option.some.inj h
        exact ⟨[], o, m₀, past, rfl, hn.symm⟩
    · obtain ⟨later, o, m₀, earlier, rfl, hn⟩ := ih h
      exact ⟨e :: later, o, m₀, earlier, rfl, hn⟩

/-- The queue that an item was put in, by the entry that says so. -/
theorem storedIn_split (later earlier : List Entry) (q : QueueRef) (o : Origin) (m₀ : Message) :
    storedIn earlier.length (later ++ .stored q o m₀ :: earlier) = some q := by
  induction later with
  | nil =>
    show storedIn earlier.length (.stored q o m₀ :: earlier) = some q
    unfold storedIn
    rw [if_pos rfl]
  | cons e later ih =>
    have hlt : earlier.length < (later ++ .stored q o m₀ :: earlier).length := by
      rw [List.length_append, List.length_cons]
      omega
    rw [List.cons_append]
    unfold storedIn
    rw [if_neg (Nat.ne_of_lt hlt), ih]

/-- The numbers of an item `n` since it was put in with a count of `start`, where `later` is what
happened since, and `held` what its queue holds now. They are about a count that has not wrapped. -/
structure Tally (r : QueueRules) (start n : Nat) (q : QueueRef) (later : List Entry)
    (held : List (Nat × Message)) : Prop where
  /-- The message counts its leases. -/
  count : ∀ m, (n, m) ∈ held → m.retryCount = start + leases n q later
  /-- Each return to the queue had a lease. -/
  returns : settlements n .released later ≤ leases n q later
  /-- A message that is under a lease has had one more lease than returns. -/
  current : ∀ m, (n, m) ∈ held → m.receipt ≠ none →
    settlements n .released later < leases n q later
  /-- Only what has been leased less often than the budget returns. -/
  within : settlements n .released later ≤ r.maxRetries - 1 - start

namespace Tally

variable {r : QueueRules} {start n : Nat} {q : QueueRef} {later past : List Entry} {e : Entry}
  (h : Tally r start n q later (held q past))
include h

/-- An entry that neither leases nor releases the item, and does not change its message. -/
theorem pass (hheld : ∀ m, (n, m) ∈ held q (e :: past) → (n, m) ∈ held q past)
    (hl : ¬ e.Leases n q) (hs : e.settles n .released = false) :
    Tally r start n q (e :: later) (held q (e :: past)) := by
  have hleases : leases n q (e :: later) = leases n q later := by
    rw [leases_cons, if_neg hl, Nat.add_zero]
  have hreleased : settlements n .released (e :: later) = settlements n .released later := by
    rw [settlements_cons, hs, if_neg Bool.false_ne_true, Nat.add_zero]
  constructor
  · intro m hm
    rw [hleases]
    exact h.count m (hheld m hm)
  · rw [hleases, hreleased]
    exact h.returns
  · intro m hm hr
    rw [hleases, hreleased]
    exact h.current m (hheld m hm) hr
  · rw [hreleased]
    exact h.within

/-- A lease of the item counts, if the count does not wrap. -/
theorem lease {t : Instant} {m old : Message} {hd : Ident} {deadline : Instant}
    (hold : (n, old) ∈ held q past) (hm : m = old.leased hd deadline)
    (hlt : start + leases n q later < Message.greatestCount) :
    Tally r start n q (.leased n q t m :: later) (held q (.leased n q t m :: past)) := by
  have hleases : leases n q (.leased n q t m :: later) = leases n q later + 1 := by
    rw [leases_cons, if_pos ⟨rfl, rfl⟩]
  have hreleased : settlements n .released (.leased n q t m :: later) =
      settlements n .released later := settlements_cons n .released _ later
  have hreturns := h.returns
  constructor
  · intro m' hm'
    have hnow : (n, m) ∈ held q (.leased n q t m :: past) :=
      mem_act_iff.mpr (.inr (.inr (.inl ⟨t, old, rfl, hold⟩)))
    have hcount := h.count old hold
    rw [message_eq_of_mem_held hnow hm', hleases, hm]
    show old.nextCount = _
    rw [Message.nextCount_of_lt (hcount ▸ hlt), hcount, Nat.add_assoc]
  · omega
  · intro _ _ _
    omega
  · rw [hreleased]
    exact h.within

/-- A return of the item to its queue used up its lease, and found the budget not used up. -/
theorem release {hd : Ident} {m : Message} (hheld : (n, m) ∈ held q past)
    (hr : m.receipt = some hd) (hbudget : m.retryCount < r.maxRetries) :
    Tally r start n q (.settled n q hd .released m :: later)
      (held q (.settled n q hd .released m :: past)) := by
  have hleases : leases n q (.settled n q hd .released m :: later) = leases n q later :=
    leases_cons n q _ later
  have hreleased : settlements n .released (.settled n q hd .released m :: later) =
      settlements n .released later + 1 := by
    rw [settlements_cons, if_pos (by simp [Entry.settles])]
  have hcount := h.count m hheld
  have hcurrent := h.current m hheld (by rw [hr]; exact Option.some_ne_none hd)
  have hnow : (n, m.released) ∈ held q (.settled n q hd .released m :: past) :=
    mem_act_iff.mpr (.inr (.inr (.inr ⟨hd, m, m, rfl, hheld, rfl⟩)))
  constructor
  · intro m' hm'
    rw [message_eq_of_mem_held hnow hm', hleases]
    exact hcount
  · omega
  · intro m' hm' hr'
    rw [message_eq_of_mem_held hnow hm'] at hr'
    exact absurd rfl hr'
  · -- Before, it had been returned less often than leased, and leased less often than allowed.
    omega

/-- Every other settlement takes the item out. -/
theorem finish {hd : Ident} {v : Verdict} {m : Message} (hv : v ≠ .released)
    (hheld : (n, m) ∈ held q past) :
    Tally r start n q (.settled n q hd v m :: later) (held q (.settled n q hd v m :: past)) := by
  refine h.pass ?_ (fun hl => hl) (decide_eq_false fun hs => hv hs.2)
  intro m' hm'
  obtain ⟨before, after, hsplit⟩ := List.append_of_mem hheld
  rw [held_ended hsplit hd hv] at hm'
  exact absurd rfl (ne_of_held_split hsplit _ hm')

end Tally

/-- Along a lawful journal without handles of the callers' own, the numbers of every item add up, if
its count stays within what a count can hold. -/
theorem tally {rules : QueueRef → Option QueueRules} {later earlier : List Entry} {q : QueueRef}
    {o : Origin} {m₀ : Message} {r : QueueRules} (hr : rules q = some r)
    (h : Lawful rules (later ++ .stored q o m₀ :: earlier))
    (hplain : Plain (later ++ .stored q o m₀ :: earlier))
    (hbound : m₀.retryCount + leases earlier.length q later ≤ Message.greatestCount) :
    Tally r m₀.retryCount earlier.length q later (held q (later ++ .stored q o m₀ :: earlier)) := by
  induction later with
  | nil =>
    -- It stands as it was put in, without a handle.
    have honly : ∀ m, (earlier.length, m) ∈ held q (.stored q o m₀ :: earlier) → m = m₀ := by
      intro m hm
      have hnow : (earlier.length, m₀) ∈ held q (.stored q o m₀ :: earlier) :=
        mem_act_iff.mpr (.inr (.inl ⟨rfl, o, rfl⟩))
      exact message_eq_of_mem_held hnow hm
    constructor
    · intro m hm
      rw [honly m hm]
      rfl
    · exact Nat.le_refl 0
    · intro m hm hreceipt
      rw [honly m hm, h.1.receipt_eq_none (hplain _ List.mem_cons_self)] at hreceipt
      exact absurd rfl hreceipt
    · exact Nat.zero_le _
  | cons e later ih =>
    have hleases := leases_cons earlier.length q e later
    have hpast := ih h.2 (Plain.past [e] hplain) (by omega)
    have hstored := storedIn_split later earlier q o m₀
    rw [List.cons_append] at h ⊢
    -- What is held after an entry about other items was held before, since no new item has this
    -- number.
    have hother : ¬ e.Concerns earlier.length q → ∀ m,
        (earlier.length, m) ∈ held q (e :: (later ++ .stored q o m₀ :: earlier)) →
        (earlier.length, m) ∈ held q (later ++ .stored q o m₀ :: earlier) := by
      intro hc m hm
      rcases mem_act_iff.mp hm with ⟨hmem, -⟩ | ⟨hn, -⟩ | ⟨_, _, rfl, -⟩ | ⟨_, _, _, rfl, -⟩
      · exact hmem
      · exact absurd hn (Nat.ne_of_lt (lt_length_of_storedIn hstored))
      · exact absurd ⟨rfl, rfl⟩ hc
      · exact absurd ⟨rfl, rfl⟩ hc
    cases e with
    | stored q' o' m' => exact hpast.pass (hother fun hc => hc) (fun hl => hl) rfl
    | discarded n' => exact hpast.pass (hother fun hc => hc) (fun hl => hl) rfl
    | leased n' q' t m' =>
      by_cases hc : n' = earlier.length ∧ q' = q
      · obtain ⟨rfl, rfl⟩ := hc
        obtain ⟨_, old, hd, hold, -, -, hm, -⟩ := h.1.leased
        refine hpast.lease hold hm ?_
        rw [if_pos ⟨rfl, rfl⟩] at hleases
        omega
      · exact hpast.pass (hother hc) hc rfl
    | settled n' q' hd v m' =>
      obtain ⟨hheld, hreceipt, r', hr', hv⟩ := h.1.settled
      by_cases hn : n' = earlier.length
      · subst hn
        have hq := storedIn_of_mem_held (fst_mem_of_mem hheld)
        rw [hstored] at hq
        obtain rfl := Option.some.inj hq
        obtain rfl := Option.some.inj (hr.symm.trans hr')
        cases v with
        | released => exact hpast.release hheld hreceipt hv
        | acknowledged | givenUp => exact hpast.finish (fun he => nomatch he) hheld
      · exact hpast.pass (hother fun hc => hn hc.1) (fun hl => hl)
          (decide_eq_false fun hs => hn hs.1)

end Custody

namespace Chronicle

open Custody

/-- Of the messages of a queue, the one that carries a handle is the first that does. -/
theorem first_carrier {c : Chronicle} (hs : c.Sound) (hplain : Plain c.journal) {q : QueueRef}
    {qu : Queue} {before after : List Message} {m : Message} {h : Ident}
    (hqu : c.broker.queue? q = some qu) (hsplit : qu.messages = before ++ m :: after)
    (hr : m.receipt = some h) : ∀ x ∈ before, x.receipt ≠ some h := by
  intro x hx hxr
  obtain ⟨i, hi, rfl⟩ := List.getElem_of_mem hx
  have hcontents : c.broker.contents q = before ++ m :: after :=
    (contents_of_queue? hqu).trans hsplit
  have hat : (c.broker.contents q)[i]? = some before[i] := by
    rw [hcontents, List.getElem?_append_left hi, List.getElem?_eq_getElem hi]
  have hatm : (c.broker.contents q)[before.length]? = some m := by
    rw [hcontents, List.getElem?_append_right (Nat.le_refl _), Nat.sub_self]
    rfl
  have hplace := (carried_once hs hplain hat hatm hxr hr).2
  omega

/-- In every state of every run in which callers put in messages without handles:

A message held counts the leases it has had since it was put in, on top of the count it came with,
unless that is more than a count can hold.

A nack with the handle of a message held is accepted. Below the budget it releases the message in
its place, which is visible from then on, and changes nothing else. At the budget or beyond it takes
the message out and counts it as failed; if the queue has one for dead letters, which is another
one, then one new copy of the message stands at the end of that; no other queue changes.

Since it was put in, however its leases lapsed, a message has been nacked no more often than the
budget exceeds the count it came with, or once; and each time but the last, it was returned to its
queue. This too is about a message whose count has not wrapped. -/
theorem retry_budget {c : Chronicle} (hc : c.Reachable) (hplain : Plain c.journal) :
    (∀ q (i : Nat) m, (c.broker.contents q)[i]? = some m →
      ∃ later o m₀ earlier, c.journal = later ++ .stored q o m₀ :: earlier ∧
        (held q c.journal)[i]? = some (earlier.length, m) ∧
        (m₀.retryCount + leases earlier.length q later ≤ Message.greatestCount →
          m.retryCount = m₀.retryCount + leases earlier.length q later)) ∧
    (∀ q qu before m after h, c.broker.queue? q = some qu →
      qu.messages = before ++ m :: after → m.receipt = some h →
      (m.retryCount < qu.maxRetries →
        c.broker.nack q h = .ok
          (c.broker.setQueue q { qu with messages := before ++ m.released :: after }) ∧
        ∀ t, m.released.VisibleAt t) ∧
      (qu.maxRetries ≤ m.retryCount → ∃ b', c.broker.nack q h = .ok b' ∧
        b'.queue? q = some { qu with messages := before ++ after, failed := qu.failed + 1 } ∧
        (∀ other, other ≠ q → qu.deadLetters ≠ some other →
          b'.queue? other = c.broker.queue? other) ∧
        ∀ target, qu.deadLetters = some target → target ≠ q ∧ ∃ qt copy,
          c.broker.queue? target = some qt ∧ b'.queue? target = some (qt.enqueue copy) ∧
          copy.id = c.broker.mint.next ∧ IsLetterFor copy qu.name m)) ∧
    ∀ later q o m₀ earlier r, c.journal = later ++ .stored q o m₀ :: earlier →
      c.broker.rules? q = some r →
      m₀.retryCount + leases earlier.length q later ≤ Message.greatestCount →
      settlements earlier.length .released later ≤ r.maxRetries - 1 - m₀.retryCount ∧
      settlements earlier.length .released later + settlements earlier.length .givenUp later ≤
        max 1 (r.maxRetries - m₀.retryCount) := by
  have hs := hc.sound
  refine ⟨?_, ?_, ?_⟩
  · intro q i m hm
    rw [hs.replay, List.getElem?_map, Option.map_eq_some_iff] at hm
    obtain ⟨⟨n, m⟩, hi, rfl⟩ := hm
    have hheld := List.mem_of_getElem? hi
    obtain ⟨later, o, m₀, earlier, hj, rfl⟩ :=
      split_of_storedIn (storedIn_of_mem_held (fst_mem_of_mem hheld))
    refine ⟨later, o, m₀, earlier, hj, hi, fun hbound => ?_⟩
    -- The item is held, so its queue exists.
    have hmem : m ∈ c.broker.contents q := by
      rw [hs.replay]
      exact List.mem_map_of_mem hheld
    cases hqu : c.broker.queue? q with
    | none =>
      unfold contents at hmem
      rw [hqu] at hmem
      exact absurd hmem List.not_mem_nil
    | some qu =>
      have htally := tally (rules?_of_queue? hqu) (hj ▸ hs.lawful) (hj ▸ hplain) hbound
      rw [← hj] at htally
      exact htally.count m hheld
  · intro q qu before m after h hqu hsplit hr
    have hbefore := first_carrier hs hplain hqu hsplit hr
    refine ⟨fun hlt => ⟨nack_eq_release hqu hsplit hbefore hr hlt, fun t => ?_⟩, fun hge => ?_⟩
    · intro deadline hd
      cases hd
    · have holder : ∀ target, qu.deadLetters = some target → target ≠ q := by
        intro target ht he
        have hlt := hc.descending q qu.rules target (rules?_of_queue? hqu) ht
        rw [he] at hlt
        exact Nat.lt_irrefl _ hlt
      obtain ⟨b', hnack, -, hgone, hothers, hletter⟩ := nack_givesUp hs.closed
        (fun he => holder q he rfl) hqu hsplit hbefore hr hge
      exact ⟨b', hnack, hgone, hothers, fun target ht => ⟨holder target ht, hletter target ht⟩⟩
  · intro later q o m₀ earlier r hj hr hbound
    have htally := tally hr (hj ▸ hs.lawful) (hj ▸ hplain) hbound
    have hended := held_or_ended hs.lawful (hj ▸ storedIn_split later earlier q o m₀)
    have hsince : settlements earlier.length .givenUp later ≤
        settlements earlier.length .givenUp c.journal := by
      unfold settlements
      rw [hj, List.countP_append]
      exact Nat.le_add_right _ _
    have hwithin := htally.within
    refine ⟨hwithin, ?_⟩
    omega

/-- A run in which a lease lapses, and in which the budget is used up with the first nack. -/
def usedUpRun : List Move :=
  [.call (.createQueue "dead" {}),
    .call (.createQueue "work" { maxRetries := some 2, deadLetters := some ⟨0⟩ }),
    .call (.enqueue ⟨1⟩ (.create (.text "m") "order" [] .first)),
    .call (.receive ⟨1⟩ .first),
    .call (.receive ⟨1⟩ .last)]

/-- After that run the message counts two leases, and a nack takes it to the dead letters. -/
theorem retry_budget_usedUpRun :
    ∃ m, ((create .standard).run usedUpRun).broker.contents ⟨1⟩ = [m] ∧ m.retryCount = 2 ∧
      ∃ b' copy, ((create .standard).run usedUpRun).broker.nack ⟨1⟩ (.generated 1) = .ok b' ∧
        b'.contents ⟨1⟩ = [] ∧ b'.contents ⟨0⟩ = [copy] ∧ IsLetterFor copy "work" m := by
  have hc : ((create .standard).run usedUpRun).Reachable :=
    (Reachable.create .standard).run (by decide)
  obtain ⟨-, hnack, -⟩ := retry_budget hc (by decide)
  refine ⟨_, rfl, rfl, ?_⟩
  obtain ⟨b', hok, hgone, -, hletter⟩ :=
    (hnack ⟨1⟩ _ [] _ [] (.generated 1) rfl rfl rfl).2 (Nat.le_refl 2)
  obtain ⟨-, qt, copy, hqt, hafter, -, hcopy⟩ := hletter ⟨0⟩ rfl
  refine ⟨b', copy, hok, ?_, ?_, hcopy⟩
  · unfold contents
    rw [hgone]
    rfl
  · cases hqt
    unfold contents
    rw [hafter]
    rfl

end Chronicle

end MessageBroker
