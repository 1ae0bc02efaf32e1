import MessageBroker.Proofs.Custody.Sound

/-!
# No message is lost or doubled

Between the two halves of a nack that gives a message up, the message is in no queue, and other
threads may do anything. The journal still accounts for it: at every moment each item ever put in a
queue is in exactly one of five situations (`Chronicle.nothing_lost_or_doubled`). Its queue holds
it, or it was acknowledged, or its dead letter is on its way, or one copy of it was put among the
dead letters of its queue, or it was discarded because its queue has none.

An item leaves its queue in two ways only (`Chronicle.leaves_by_settlement`), since each move adds
to the journal no settlement but its own (`Chronicle.journal_apply`).
-/

namespace MessageBroker

open Broker

namespace Custody

/-- An item is older than the journal is long. -/
theorem lt_length_of_storedIn {n : Nat} {q : QueueRef} {j : List Entry}
    (h : storedIn n j = some q) : n < j.length := by
  induction j with
  | nil => cases h
  | cons e past ih =>
    unfold storedIn at h
    rw [List.length_cons]
    split at h
    · rename_i he
      omega
    · exact Nat.lt_succ_of_lt (ih h)

/-- An item stays the one that was put in that queue. -/
theorem storedIn_append {n : Nat} {q : QueueRef} {j : List Entry} (h : storedIn n j = some q)
    (new : List Entry) : storedIn n (new ++ j) = some q := by
  induction new with
  | nil => exact h
  | cons e new ih =>
    have hlt := lt_length_of_storedIn ih
    rw [List.cons_append]
    unfold storedIn
    rw [if_neg (Nat.ne_of_lt hlt), ih]

/-- What was settled had been put in the queue that settled it. -/
theorem Lawful.storedIn_of_settled {rules : QueueRef → Option QueueRules} {j : List Entry}
    (h : Lawful rules j) {n : Nat} {q : QueueRef} {hd : Ident} {v : Verdict} {m : Message}
    (hmem : .settled n q hd v m ∈ j) : storedIn n j = some q := by
  obtain ⟨later, earlier, rfl⟩ := List.append_of_mem hmem
  obtain ⟨hheld, -⟩ := h.follows.settled
  have hpast := storedIn_of_mem_held (fst_mem_of_mem hheld)
  have hnow := storedIn_append hpast [.settled n q hd v m]
  exact storedIn_append hnow later

/-- A queue that an item was not put in has no place for it. -/
theorem places_of_ne {n : Nat} {q other : QueueRef} {j : List Entry} (h : storedIn n j = some q)
    (hne : other ≠ q) : places n other j = 0 := by
  unfold places
  rw [List.count_eq_zero]
  intro hmem
  have hother := storedIn_of_mem_held hmem
  rw [h] at hother
  exact hne (Option.some.inj hother).symm

end Custody

namespace Chronicle

open Custody

/-! ## What a move adds to the journal -/

/-- The moves that can make a settlement. -/
def Move.CanSettle (v : Move) (q : QueueRef) (h : Ident) (verdict : Verdict) : Prop :=
  verdict = .acknowledged ∧ v = .call (.acknowledge q h) ∨
    verdict ≠ .acknowledged ∧ (v = .giveBack q h ∨ v = .call (.nack q h))

/-- Entries that settle nothing. -/
def Unsettling (new : List Entry) : Prop :=
  ∀ e ∈ new, ∀ n q h verdict m, e ≠ .settled n q h verdict m

/-- Entries that put in copies, which have no delivery state, or drop letters. -/
def Arrivals (new : List Entry) : Prop :=
  ∀ e ∈ new, (∃ q o m, e = .stored q o m ∧ m.bare = m) ∨ ∃ n, e = .discarded n

/-- What arrives settles nothing. -/
theorem Arrivals.unsettling {new : List Entry} (h : Arrivals new) : Unsettling new := by
  rintro e he n q hd verdict m rfl
  rcases h _ he with ⟨_, _, _, hc, -⟩ | ⟨_, hc⟩
  · cases hc
  · cases hc

/-- Being given an id does not give a message a lease. -/
theorem bare_identify (b : Broker) {m : Message} (h : m.bare = m) :
    (b.identify m).1.bare = (b.identify m).1 := by
  obtain ⟨id, hid⟩ := identify_fst b m
  rw [hid]
  show { m.bare with id } = { m with id }
  rw [h]

/-- Deliveries put copies in. -/
theorem journal_deliverAll (c : Chronicle) (topic : String) (m : Message)
    (targets : List QueueRef) :
    ∃ new, (c.deliverAll topic m targets).journal = new ++ c.journal ∧ Arrivals new := by
  induction targets generalizing c with
  | nil => exact ⟨[], rfl, fun e he => absurd he List.not_mem_nil⟩
  | cons target rest ih =>
    obtain ⟨new, hnew, harrivals⟩ := ih (c.deliver topic m target)
    obtain ⟨copy, hcopy, hbare⟩ : ∃ copy, (c.deliver topic m target).journal =
        .stored target .publication copy :: c.journal ∧ copy.bare = copy :=
      ⟨_, rfl, bare_identify (c.broker.publicationCopy topic m).2 rfl⟩
    refine ⟨new ++ [.stored target .publication copy], ?_, ?_⟩
    · rw [List.append_assoc]
      exact hnew.trans (congrArg (new ++ ·) hcopy)
    · intro e he
      rcases List.mem_append.mp he with he | he
      · exact harrivals e he
      · exact .inl ⟨target, .publication, copy, List.mem_singleton.mp he, hbare⟩

/-- The second half of a nack puts a copy in, or drops the letter. -/
theorem journal_land (c : Chronicle) (i : Nat) :
    ∃ new, (c.land i).journal = new ++ c.journal ∧ Arrivals new := by
  unfold land
  cases c.flying[i]? with
  | none => exact ⟨[], rfl, fun e he => absurd he List.not_mem_nil⟩
  | some x =>
    refine ⟨[arrival c.broker x.1 x.2], rfl, fun e he => ?_⟩
    rw [List.mem_singleton.mp he]
    unfold arrival
    split
    · rename_i source target _
      have hbare := bare_identify (c.broker.deadLetterCopy source.name x.2.message).2
        (m := (c.broker.deadLetterCopy source.name x.2.message).1) rfl
      exact .inl ⟨target, .deadLetter x.1, _, rfl, hbare⟩
    · exact .inr ⟨x.1, rfl⟩

variable {c : Chronicle} (hs : c.Sound)
include hs

/-- The first half of a nack makes one settlement at most. -/
theorem journal_giveBack (q : QueueRef) (hd : Ident) :
    (c.giveBack q hd).journal = c.journal ∨
      ∃ n verdict m, (c.giveBack q hd).journal = .settled n q hd verdict m :: c.journal ∧
        verdict ≠ .acknowledged ∧
        (Entry.settled n q hd verdict m).Follows c.broker.rules? c.journal := by
  rcases giveBack_cases hs q hd with hn | ⟨n, m, v, b', flying, hc, hv, hf, -⟩
  · left
    rw [hn]
  · right
    refine ⟨n, v, m, by rw [hc], ?_, hf⟩
    rcases hv with ⟨rfl, -⟩ | ⟨rfl, -⟩ <;> exact fun he => nomatch he

/-- A move adds entries to the journal. The settlements among them are its own, and follow from the
journal as it was. -/
theorem journal_apply (v : Move) :
    ∃ new, (c.apply v).journal = new ++ c.journal ∧
      ∀ n q h verdict m, .settled n q h verdict m ∈ new → v.CanSettle q h verdict ∧
        (Entry.settled n q h verdict m).Follows c.broker.rules? c.journal := by
  -- Most moves settle nothing.
  have hquiet : ∀ {new}, Unsettling new → ∀ n q h verdict m, .settled n q h verdict m ∈ new →
      v.CanSettle q h verdict ∧
        (Entry.settled n q h verdict m).Follows c.broker.rules? c.journal :=
    fun hno n q h verdict m hmem => absurd rfl (hno _ hmem n q h verdict m)
  have hnone : Unsettling [] := fun e he => absurd he List.not_mem_nil
  have hone : ∀ {e : Entry}, (∀ n q h verdict m, e ≠ .settled n q h verdict m) → Unsettling [e] :=
    fun hno e he => List.mem_singleton.mp he ▸ hno
  cases v with
  | deliver topic m target => exact ⟨[_], rfl, hquiet (hone fun _ _ _ _ _ hc => nomatch hc)⟩
  | land i =>
    obtain ⟨new, hnew, harrivals⟩ := c.journal_land i
    exact ⟨new, hnew, hquiet harrivals.unsettling⟩
  | giveBack q hd =>
    rcases journal_giveBack hs q hd with hn | ⟨n, verdict, m, hj, hv, hf⟩
    · exact ⟨[], hn, hquiet hnone⟩
    · refine ⟨[_], hj, fun n' q' h' verdict' m' hmem => ?_⟩
      cases List.mem_singleton.mp hmem
      exact ⟨.inr ⟨hv, .inl rfl⟩, hf⟩
  | call op =>
    cases op with
    | createTopic | addTopic | createQueue | addQueue | subscribe | subscribeTo =>
      exact ⟨[], rfl, hquiet hnone⟩
    | enqueue q m => exact ⟨[_], rfl, hquiet (hone fun _ _ _ _ _ hc => nomatch hc)⟩
    | publish topic m deadline clock =>
      obtain ⟨new, hnew, harrivals⟩ := c.journal_deliverAll
        (Operation.mark c.broker (.publish topic m deadline clock)) m
        (Operation.reached c.broker (.publish topic m deadline clock))
      exact ⟨new, hnew, hquiet harrivals.unsettling⟩
    | publishTo topic m deadline clock =>
      obtain ⟨new, hnew, harrivals⟩ := c.journal_deliverAll
        (Operation.mark c.broker (.publishTo topic m deadline clock)) m
        (Operation.reached c.broker (.publishTo topic m deadline clock))
      exact ⟨new, hnew, hquiet harrivals.unsettling⟩
    | receive q t =>
      show ∃ new, (c.receive q t).journal = new ++ c.journal ∧ _
      rcases receive_cases hs q t with hn | ⟨n, m, b', hc, -⟩
      · rw [hn]
        exact ⟨[], rfl, hquiet hnone⟩
      · rw [hc]
        exact ⟨[_], rfl, hquiet (hone fun _ _ _ _ _ hc => nomatch hc)⟩
    | acknowledge q hd =>
      show ∃ new, (c.acknowledge q hd).journal = new ++ c.journal ∧ _
      rcases acknowledge_cases hs q hd with hn | ⟨n, m, b', hc, hf, -⟩
      · rw [hn]
        exact ⟨[], rfl, hquiet hnone⟩
      · rw [hc]
        refine ⟨[_], rfl, fun n' q' h' verdict' m' hmem => ?_⟩
        cases List.mem_singleton.mp hmem
        exact ⟨.inl ⟨rfl, rfl⟩, hf⟩
    | nack q hd =>
      show ∃ new, (c.nack q hd).journal = new ++ c.journal ∧ _
      -- The second half, if there is one, adds an arrival on top of the first.
      obtain ⟨tail, htail, hno⟩ : ∃ tail, (c.nack q hd).journal =
          tail ++ (c.giveBack q hd).journal ∧ Unsettling tail := by
        rcases c.nack_cases q hd with hn | hn
        · exact ⟨[], by rw [hn]; rfl, hnone⟩
        · rw [hn]
          obtain ⟨tail, htail, harrivals⟩ := (c.giveBack q hd).journal_land 0
          exact ⟨tail, htail, harrivals.unsettling⟩
      rcases journal_giveBack hs q hd with hn | ⟨n, verdict, m, hj, hv, hf⟩
      · exact ⟨tail, by rw [htail, hn], hquiet hno⟩
      · refine ⟨tail ++ [.settled n q hd verdict m], by rw [htail, hj, List.append_assoc]; rfl, ?_⟩
        intro n' q' h' verdict' m' hmem
        rcases List.mem_append.mp hmem with hmem | hmem
        · exact absurd rfl (hno _ hmem n' q' h' verdict' m')
        · cases List.mem_singleton.mp hmem
          exact ⟨.inr ⟨hv, .inr rfl⟩, hf⟩

/-! ## The accounts -/

/-- Each item is in exactly one situation. -/
theorem situations {n : Nat} {q : QueueRef} (hn : storedIn n c.journal = some q) :
    places n q c.journal + settlements n .acknowledged c.journal + c.flights n +
      c.journal.countP (Entry.copies n) + c.journal.countP (Entry.discards n) = 1 := by
  -- It is held, acknowledged or given up; and given up, it is on its way or at its end.
  have hended := held_or_ended hs.lawful hn
  have hbal := hs.balance n
  omega

/-- A move that takes an item out of its queue settles it with the handle it carries: it
acknowledges it, or gives it up when it has been leased as often as the queue allows. -/
theorem leaves_by_settlement {v : Move} (hv : v.Valid c.broker) {n : Nat} {q : QueueRef}
    {m : Message} (hheld : (n, m) ∈ held q c.journal)
    (hgone : places n q (c.apply v).journal = 0) :
    ∃ h, m.receipt = some h ∧ (v = .call (.acknowledge q h) ∨
      (v = .giveBack q h ∨ v = .call (.nack q h)) ∧
        ∃ r, c.broker.rules? q = some r ∧ r.maxRetries ≤ m.retryCount) := by
  obtain ⟨new, hnew, hown⟩ := journal_apply hs v
  have hstored := storedIn_of_mem_held (fst_mem_of_mem hheld)
  have hbefore := held_or_ended hs.lawful hstored
  rw [places_of_mem hheld] at hbefore
  -- The item is held before and not after, so it has ended in between.
  have hafter := held_or_ended (hs.apply hv).lawful (hnew ▸ storedIn_append hstored new)
  -- One settlement that ends the item is new.
  have hsettled : ∀ verdict, settlements n verdict c.journal = 0 →
      0 < settlements n verdict (c.apply v).journal →
      ∃ q' h m', .settled n q' h verdict m' ∈ new := by
    intro verdict hzero hpos
    obtain ⟨e, he, hset⟩ := List.countP_pos_iff.mp hpos
    rw [hnew] at he
    rcases List.mem_append.mp he with he | he
    · cases e with
      | stored | leased | discarded => cases hset
      | settled n' q' h verdict' m' =>
        obtain ⟨rfl, rfl⟩ := of_decide_eq_true hset
        exact ⟨q', h, m', he⟩
    · exact absurd hset (List.countP_eq_zero.mp hzero e he)
  -- A settlement is of the item as it stands, with the handle that it carries.
  have hitem : ∀ {q' h verdict m'}, (Entry.settled n q' h verdict m').Follows c.broker.rules?
      c.journal → q' = q ∧ m' = m ∧ m.receipt = some h := by
    intro q' h verdict m' hf
    obtain ⟨r, hfirst, -⟩ := hf
    obtain ⟨hmem, hr⟩ := mem_of_first hfirst
    obtain rfl := queue_eq_of_mem_held hmem hheld
    obtain rfl := message_eq_of_mem_held hheld hmem
    exact ⟨rfl, rfl, hr⟩
  rcases Nat.eq_zero_or_pos (settlements n .acknowledged (c.apply v).journal) with hack | hack
  · have hgive : 0 < settlements n .givenUp (c.apply v).journal := by omega
    obtain ⟨q', h, m', hmem⟩ := hsettled .givenUp (by omega) hgive
    obtain ⟨hcan, hf⟩ := hown n q' h .givenUp m' hmem
    obtain ⟨rfl, rfl, hr⟩ := hitem hf
    obtain ⟨r, -, hrules, hbudget⟩ := hf
    rcases hcan with ⟨he, -⟩ | ⟨-, hmove⟩
    · cases he
    · exact ⟨h, hr, .inr ⟨hmove, r, hrules, hbudget⟩⟩
  · obtain ⟨q', h, m', hmem⟩ := hsettled .acknowledged (by omega) hack
    obtain ⟨hcan, hf⟩ := hown n q' h .acknowledged m' hmem
    obtain ⟨rfl, rfl, hr⟩ := hitem hf
    rcases hcan with ⟨-, hmove⟩ | ⟨hne, -⟩
    · exact ⟨h, hr, .inl hmove⟩
    · exact absurd rfl hne

omit hs

/-- In every state of every run: the queues hold the items that the journal gives them. Each item
ever put in a queue is held by that queue in one place, or acknowledged once, or has one letter on
its way, or one copy of it was put among the dead letters, or it was discarded once; and no other
queue holds it. A letter on its way, and the copy that comes of it, are those of an item that its
queue gave up, and the copy goes to the queue for its dead letters; what was discarded had no such
queue. No move takes an item out of its queue but an accepted acknowledgement, or an accepted nack
that finds the budget used up, with the handle the item carries. -/
theorem nothing_lost_or_doubled {c : Chronicle} (hc : c.Reachable) :
    (∀ q, c.broker.contents q = (held q c.journal).map Prod.snd) ∧
    (∀ n q, storedIn n c.journal = some q →
      places n q c.journal + settlements n .acknowledged c.journal + c.flights n +
          c.journal.countP (Entry.copies n) + c.journal.countP (Entry.discards n) = 1 ∧
        (∀ other, other ≠ q → places n other c.journal = 0) ∧
        (c.flying = [] → c.flights n = 0)) ∧
    (∀ x ∈ c.flying, storedIn x.1 c.journal = some x.2.source ∧
      ∃ h, .settled x.1 x.2.source h .givenUp x.2.message ∈ c.journal) ∧
    (∀ n target copy, .stored target (.deadLetter n) copy ∈ c.journal →
      ∃ q h r old, storedIn n c.journal = some q ∧ .settled n q h .givenUp old ∈ c.journal ∧
        c.broker.rules? q = some r ∧ r.deadLetters = some target ∧ IsDeadLetterOf copy r old) ∧
    (∀ n, .discarded n ∈ c.journal →
      ∃ q r, storedIn n c.journal = some q ∧ c.broker.rules? q = some r ∧ r.deadLetters = none) ∧
    ∀ v n q m, v.Valid c.broker → (n, m) ∈ held q c.journal →
      places n q (c.apply v).journal = 0 →
      ∃ h, m.receipt = some h ∧ (v = .call (.acknowledge q h) ∨
        (v = .giveBack q h ∨ v = .call (.nack q h)) ∧
          ∃ r, c.broker.rules? q = some r ∧ r.maxRetries ≤ m.retryCount) := by
  have hs := hc.sound
  refine ⟨hs.replay, ?_, ?_, ?_, ?_, ?_⟩
  · intro n q hn
    refine ⟨situations hs hn, fun other hne => places_of_ne hn hne, fun hnone => ?_⟩
    unfold flights
    rw [hnone]
    rfl
  · intro x hx
    obtain ⟨h, hmem⟩ := hs.letters x hx
    exact ⟨hs.lawful.storedIn_of_settled hmem, h, hmem⟩
  · intro n target copy hmem
    obtain ⟨later, earlier, hj⟩ := List.append_of_mem hmem
    obtain ⟨q, h, r, old, hset, hr, hd, hcopy⟩ := Lawful.follows (hj ▸ hs.lawful)
    have hset' : .settled n q h .givenUp old ∈ c.journal := by
      rw [hj]
      exact List.mem_append_right _ (List.mem_cons_of_mem _ hset)
    exact ⟨q, h, r, old, hs.lawful.storedIn_of_settled hset', hset', hr, hd, hcopy⟩
  · intro n hmem
    obtain ⟨later, earlier, hj⟩ := List.append_of_mem hmem
    obtain ⟨q, h, r, m, hset, hr, hd⟩ := Lawful.follows (hj ▸ hs.lawful)
    have hset' : .settled n q h .givenUp m ∈ c.journal := by
      rw [hj]
      exact List.mem_append_right _ (List.mem_cons_of_mem _ hset)
    exact ⟨q, r, hs.lawful.storedIn_of_settled hset', hr, hd⟩
  · intro v n q m hv hheld hgone
    exact leaves_by_settlement hs hv hheld hgone

/-- A run that gives two messages up and lands the letter of the first. -/
def twoLetters : List Move :=
  [.call (.createQueue "dead" {}),
    .call (.createQueue "work" { maxRetries := some 1, deadLetters := some ⟨0⟩ }),
    .call (.enqueue ⟨1⟩ (.create (.text "m") "order" [] .first)),
    .call (.enqueue ⟨1⟩ (.create (.text "m") "order" [] .first)),
    .call (.receive ⟨1⟩ .first),
    .giveBack ⟨1⟩ (.generated 0),
    .call (.receive ⟨1⟩ .first),
    .giveBack ⟨1⟩ (.generated 1),
    .land 1]

/-- In that run one item has become a copy among the dead letters, and the letter of the other is
on its way. -/
theorem nothing_lost_or_doubled_twoLetters :
    let c := (create .standard).run twoLetters
    storedIn 0 c.journal = some ⟨1⟩ ∧ c.journal.countP (Entry.copies 0) = 1 ∧ c.flights 1 = 1 ∧
      places 0 ⟨1⟩ c.journal + settlements 0 .acknowledged c.journal + c.flights 0 +
        c.journal.countP (Entry.copies 0) + c.journal.countP (Entry.discards 0) = 1 := by
  have hc : ((create .standard).run twoLetters).Reachable :=
    (Reachable.create .standard).run (by decide)
  obtain ⟨-, hone, -⟩ := nothing_lost_or_doubled hc
  refine ⟨by decide, by decide, by decide, (hone 0 ⟨1⟩ (by decide)).1⟩

end Chronicle

end MessageBroker
