import Mathlib.Data.List.Perm.Basic
import MessageBroker.Proofs.Broker.Standing
import MessageBroker.Proofs.Custody.Chronicle

/-!
# The journal is true

`Records j b` says that a journal describes a broker: the journal is lawful, its replay is what the
queues hold, and the handles in it have been issued. Each critical section either finds no message
and changes nothing, or it is described by one more entry; there is one lemma for each of them. A
`Sound` chronicle has such a journal and keeps account of the letters on their way. Every state of
every run is sound (`Chronicle.Reachable.sound`).
-/

namespace MessageBroker

namespace Custody

open Broker

/-- The queue whose items an entry changes. -/
def Entry.queue? : Entry → Option QueueRef
  | .stored q _ _ | .leased _ q _ _ | .settled _ q _ _ _ => some q
  | .discarded _ => none

/-- An entry leaves the other queues alone. -/
theorem Entry.act_of_ne {e : Entry} {q : QueueRef} (h : e.queue? ≠ some q) (k : Nat)
    (items : List (Nat × Message)) : e.act q k items = items := by
  cases e with
  | discarded n => rfl
  | stored q' | leased _ q' | settled _ q' =>
    have hne : q' ≠ q := fun he => h (congrArg some he)
    exact if_neg hne

/-- The journal describes the broker. -/
structure Records (j : List Entry) (b : Broker) : Prop where
  closed : b.Closed
  /-- The queues hold what the replay of the journal says. -/
  replay : ∀ q, b.contents q = (held q j).map Prod.snd
  lawful : Lawful b.rules? j
  /-- No handle in the journal is yet to come. -/
  issued : ∀ e ∈ j, ∀ h, e.Issues h → b.mint.Issued h

namespace Records

variable {j : List Entry} {b : Broker} (h : Records j b)

/-- The empty journal describes a new broker. -/
theorem create (defaults : QueueDefaults) : Records [] (Broker.create defaults) := by
  refine ⟨closed_create defaults, ?_, trivial, ?_⟩
  · intro q
    simp [contents, queue?, Broker.create, held]
  · intro e he
    exact absurd he List.not_mem_nil

include h

/-- The next handle is new. -/
theorem next_fresh : ∀ e ∈ j, ¬ e.Issues b.mint.next := fun e he hi =>
  b.mint.not_issued_next (h.issued e he _ hi)

/-- A change to one queue is described by an entry that acts on its items in the same way. -/
theorem note {b' : Broker} {ref : QueueRef} {qu qu' : Queue} (hc : Changes b b' ref qu qu')
    {e : Entry} (hq : e.queue? = some ref)
    (hm : qu'.messages = (held ref (e :: j)).map Prod.snd) (hf : e.Follows b.rules? j)
    (hi : ∀ hd, e.Issues hd → b'.mint.Issued hd) : Records (e :: j) b' := by
  -- Options never change, so what was lawful still is.
  have hrules : b'.rules? = b.rules? := funext hc.rules?
  refine ⟨hc.closed h.closed, ?_, ?_, ?_⟩
  · intro q
    rw [hc.contents]
    split
    · rename_i he
      rw [he]
      exact hm
    · rename_i hne
      have hother : e.queue? ≠ some q := fun he => hne (Option.some.inj (he.symm.trans hq))
      rw [held_cons, Entry.act_of_ne hother]
      exact h.replay q
  · rw [hrules]
    exact ⟨hf, h.lawful⟩
  · intro x hx hd hhd
    rcases List.mem_cons.mp hx with rfl | hx
    · exact hi hd hhd
    · exact (h.issued x hx hd hhd).mono hc.issued

/-- A message that is put behind the others is described by an entry that stores it. -/
theorem store {b' : Broker} {ref : QueueRef} {qu : Queue} {m : Message} {o : Origin}
    (hc : Changes b b' ref qu (qu.enqueue m))
    (hf : (Entry.stored ref o m).Follows b.rules? j) : Records (.stored ref o m :: j) b' := by
  refine h.note hc rfl ?_ hf fun hd hi => hi.elim
  have hqu : qu.messages = (held ref j).map Prod.snd := hc.contents_before.symm.trans (h.replay ref)
  show qu.messages ++ [m] = _
  rw [hqu, held_cons, Entry.act, if_pos rfl, List.map_append]
  rfl

/-- A change of the registry needs no entry. -/
theorem rearrange {b' : Broker} (hcl : b'.Closed) (hcont : ∀ q, b'.contents q = b.contents q)
    (hrules : ∀ q r, b.rules? q = some r → b'.rules? q = some r)
    (hm : b.mint.issued ≤ b'.mint.issued) : Records j b' :=
  ⟨hcl, fun q => (hcont q).trans (h.replay q), h.lawful.mono hrules,
    fun e he hd hi => (h.issued e he hd hi).mono hm⟩

/-- No message of a queue has a property, or the journal names the first item that has it. -/
theorem first_split (q : QueueRef) (p : Message → Prop) [DecidablePred p] :
    (∀ m ∈ b.contents q, ¬ p m) ∨
      ∃ qu before n m after, b.queue? q = some qu ∧ first q p j = some (n, m) ∧
        held q j = before ++ (n, m) :: after ∧
        qu.messages = before.map Prod.snd ++ m :: after.map Prod.snd ∧
        (∀ x ∈ before.map Prod.snd, ¬ p x) ∧ p m := by
  cases hfirst : first q p j with
  | none =>
    left
    intro m hm
    rw [h.replay, List.mem_map] at hm
    obtain ⟨x, hx, rfl⟩ := hm
    simpa using List.find?_eq_none.mp hfirst x hx
  | some x =>
    right
    obtain ⟨n, m⟩ := x
    obtain ⟨hp, before, after, hs, hbefore⟩ := first_eq_some_iff.mp hfirst
    have hcont : b.contents q = before.map Prod.snd ++ m :: after.map Prod.snd := by
      rw [h.replay, hs, List.map_append]
      rfl
    cases hqu : b.queue? q with
    | none =>
      unfold contents at hcont
      rw [hqu] at hcont
      exact absurd hcont.symm (by simp)
    | some qu =>
      rw [contents_of_queue? hqu] at hcont
      refine ⟨qu, before, n, m, after, rfl, rfl, hs, hcont, ?_, hp⟩
      intro x hx
      obtain ⟨y, hy, rfl⟩ := List.mem_map.mp hx
      exact hbefore y hy

/-- A receive finds no visible message, or it leases the first visible item under a new handle. -/
theorem receive (q : QueueRef) (t : Instant) :
    b.receive q t = (none, b) ∨
      ∃ n m b', b.receive q t = (some m, b') ∧ (Entry.leased n q t m).Follows b.rules? j ∧
        Records (.leased n q t m :: j) b' := by
  rcases h.first_split q (·.VisibleAt t) with
    hnone | ⟨qu, before, n, m, after, hqu, hfirst, hs, hm, hbefore, hvisible⟩
  · exact .inl (receive_eq_none hnone)
  · right
    have hc := (changes_setQueue hqu { qu with
      messages := before.map Prod.snd ++
        m.leased b.mint.next (t.deadline qu.visibilityTimeout) :: after.map Prod.snd }
      rfl).generate (Nat.le_succ b.mint.issued)
    have hf : (Entry.leased n q t
        (m.leased b.mint.next (t.deadline qu.visibilityTimeout))).Follows b.rules? j :=
      ⟨qu.rules, m, b.mint.next, hfirst, rules?_of_queue? hqu, rfl, h.next_fresh⟩
    refine ⟨n, _, _, receive_eq_some hqu hm hbefore hvisible, hf, h.note hc rfl ?_ hf ?_⟩
    · rw [held_leased hs, List.map_append]
      rfl
    · intro hd hi
      obtain rfl := Option.some.inj hi
      exact b.mint.issued_advance_next

/-- An acknowledgement finds no message with the handle, or it takes the first item with it out. -/
theorem acknowledge (q : QueueRef) (hd : Ident) :
    b.acknowledge q hd = .error (.invalidReceipt hd) ∨
      ∃ n m b', b.acknowledge q hd = .ok b' ∧
        (Entry.settled n q hd .acknowledged m).Follows b.rules? j ∧
        Records (.settled n q hd .acknowledged m :: j) b' := by
  rcases h.first_split q (·.receipt = some hd) with
    hnone | ⟨qu, before, n, m, after, hqu, hfirst, hs, hm, hbefore, hreceipt⟩
  · exact .inl (acknowledge_eq_error hnone)
  · right
    have hc := changes_setQueue hqu { qu with
      messages := before.map Prod.snd ++ after.map Prod.snd, processed := qu.processed + 1 } rfl
    have hf : (Entry.settled n q hd .acknowledged m).Follows b.rules? j :=
      ⟨qu.rules, hfirst, rules?_of_queue? hqu, trivial⟩
    refine ⟨n, m, _, acknowledge_eq_ok hqu hm hbefore hreceipt, hf, h.note hc rfl ?_ hf ?_⟩
    · rw [held_ended (v := .acknowledged) hs hd (by decide), List.map_append]
    · exact fun _ hi => hi.elim

/-- The first half of a nack finds no message with the handle, or it releases the first item with
it, or it takes that item out and sends a letter. -/
theorem giveBack (q : QueueRef) (hd : Ident) :
    b.giveBack q hd = .error (.invalidReceipt hd) ∨
      ∃ n m v letter b', b.giveBack q hd = .ok (b', letter) ∧
        (v = .released ∧ letter = none ∨ v = .givenUp ∧ letter = some ⟨q, m⟩) ∧
        (Entry.settled n q hd v m).Follows b.rules? j ∧ Records (.settled n q hd v m :: j) b' := by
  rcases h.first_split q (·.receipt = some hd) with
    hnone | ⟨qu, before, n, m, after, hqu, hfirst, hs, hm, hbefore, hreceipt⟩
  · exact .inl (giveBack_eq_error hnone)
  · right
    rcases Nat.lt_or_ge m.retryCount qu.maxRetries with hlt | hge
    · -- The budget lasts: the item is released.
      have hc := changes_setQueue hqu { qu with
        messages := before.map Prod.snd ++ m.released :: after.map Prod.snd } rfl
      have hf : (Entry.settled n q hd .released m).Follows b.rules? j :=
        ⟨qu.rules, hfirst, rules?_of_queue? hqu, hlt⟩
      refine ⟨n, m, .released, none, _, giveBack_eq_release hqu hm hbefore hreceipt hlt,
        .inl ⟨rfl, rfl⟩, hf, h.note hc rfl ?_ hf ?_⟩
      · rw [held_released hs, List.map_append]
        rfl
      · exact fun _ hi => hi.elim
    · -- The budget is used up: the item is taken out.
      have hc := changes_setQueue hqu { qu with
        messages := before.map Prod.snd ++ after.map Prod.snd, failed := qu.failed + 1 } rfl
      have hf : (Entry.settled n q hd .givenUp m).Follows b.rules? j :=
        ⟨qu.rules, hfirst, rules?_of_queue? hqu, hge⟩
      refine ⟨n, m, .givenUp, some ⟨q, m⟩, _, giveBack_eq_giveUp hqu hm hbefore hreceipt hge,
        .inr ⟨rfl, rfl⟩, hf, h.note hc rfl ?_ hf ?_⟩
      · rw [held_ended (v := .givenUp) hs hd (by decide), List.map_append]
      · exact fun _ hi => hi.elim

/-- A letter for an item that was given up is described by its arrival. -/
theorem deposit {n : Nat} {letter : DeadLetter} {hd : Ident}
    (hgone : .settled n letter.source hd .givenUp letter.message ∈ j) :
    Records (Chronicle.arrival b n letter :: j) (b.deposit letter) := by
  -- The settlement that sent the letter names a queue that exists.
  obtain ⟨later, earlier, rfl⟩ := List.append_of_mem hgone
  obtain ⟨-, -, r, hr, -⟩ := h.lawful.follows.settled
  obtain ⟨qu, hqu, rfl⟩ := queue?_of_rules? hr
  unfold Chronicle.arrival
  rw [hqu, Option.bind_some]
  cases hd' : qu.deadLetters with
  | none =>
    rw [deposit_eq_self hqu hd']
    refine ⟨h.closed, ?_, ⟨⟨letter.source, hd, qu.rules, letter.message, hgone, hr, hd'⟩, h.lawful⟩,
      ?_⟩
    · intro q
      exact h.replay q
    · intro e he hd hi
      rcases List.mem_cons.mp he with rfl | he
      · exact hi.elim
      · exact h.issued e he hd hi
  | some target =>
    obtain ⟨qt, hqt⟩ := (h.closed.deadLetters letter.source qu.rules target hr hd').queue?
    have hc := enqueue_changes hqt (Nat.le_succ b.mint.issued)
      (b.deadLetterCopy qu.name letter.message).1
    rw [deposit_eq_enqueue hqu hd']
    refine h.store hc ?_
    obtain ⟨id, hid⟩ := identify_fst { b with mint := b.mint.advance }
      (b.deadLetterCopy qu.name letter.message).1
    refine ⟨letter.source, hd, qu.rules, letter.message, hgone, hr, hd', id, ?_⟩
    exact hid

end Records

end Custody

namespace Chronicle

open Broker Custody

/-- The number of letters on their way for an item. -/
def flights (c : Chronicle) (n : Nat) : Nat := c.flying.countP fun x => x.1 = n

/-- The journal describes the broker, the letters on their way are for items that were given up, and
each of these is on its way, among the dead letters, or discarded. -/
structure Sound (c : Chronicle) : Prop extends Records c.journal c.broker where
  letters : ∀ x ∈ c.flying,
    ∃ hd, .settled x.1 x.2.source hd .givenUp x.2.message ∈ c.journal
  balance : ∀ n, c.flights n + c.journal.countP (Entry.copies n) +
    c.journal.countP (Entry.discards n) = settlements n .givenUp c.journal

/-- A new chronicle is sound. -/
theorem sound_create (defaults : QueueDefaults) : (create defaults).Sound :=
  ⟨Records.create defaults, fun _ hx => absurd hx List.not_mem_nil, fun _ => rfl⟩

/-! ## What the steps do -/

/-- A nack is its first half, and the second if that sent a letter. -/
theorem nack_cases (c : Chronicle) (q : QueueRef) (hd : Ident) :
    c.nack q hd = c.giveBack q hd ∨ c.nack q hd = (c.giveBack q hd).land 0 := by
  unfold nack
  split
  · exact .inr rfl
  · exact .inl rfl

section Steps

variable {c : Chronicle} (h : c.Sound)
include h

/-- A receive does nothing, or notes one lease. -/
theorem receive_cases (q : QueueRef) (t : Instant) :
    c.receive q t = c ∨
      ∃ n m b', c.receive q t = { c with broker := b', journal := .leased n q t m :: c.journal } ∧
        c.broker.receive q t = (some m, b') ∧
        (Entry.leased n q t m).Follows c.broker.rules? c.journal ∧
        Records (.leased n q t m :: c.journal) b' := by
  unfold receive
  rcases h.toRecords.receive q t with hb | ⟨n, m, b', hb, hf, hrec⟩
  · left
    rw [hb]
  · right
    refine ⟨n, m, b', ?_, hb, hf, hrec⟩
    -- The item that the journal names is the one that the queue leased.
    obtain ⟨r, old, hd, hfirst, -⟩ := hf
    rw [hb]
    simp only [item, hfirst, Option.getD_some]

/-- An acknowledgement is refused, or notes one settlement. -/
theorem acknowledge_cases (q : QueueRef) (hd : Ident) :
    c.acknowledge q hd = c ∨
      ∃ n m b', c.acknowledge q hd =
          { c with broker := b', journal := .settled n q hd .acknowledged m :: c.journal } ∧
        (Entry.settled n q hd .acknowledged m).Follows c.broker.rules? c.journal ∧
        Records (.settled n q hd .acknowledged m :: c.journal) b' := by
  unfold acknowledge
  rcases h.toRecords.acknowledge q hd with hb | ⟨n, m, b', hb, hf, hrec⟩
  · left
    rw [hb]
  · right
    refine ⟨n, m, b', ?_, hf, hrec⟩
    obtain ⟨r, hfirst, -⟩ := hf
    rw [hb]
    simp only [item, hfirst, Option.getD_some]

/-- The first half of a nack is refused, or notes a settlement; an item that is given up then has a
letter on its way. -/
theorem giveBack_cases (q : QueueRef) (hd : Ident) :
    c.giveBack q hd = c ∨
      ∃ n m v b' flying, c.giveBack q hd = ⟨b', .settled n q hd v m :: c.journal, flying⟩ ∧
        (v = .released ∧ flying = c.flying ∨
          v = .givenUp ∧ flying = (n, ⟨q, m⟩) :: c.flying) ∧
        (Entry.settled n q hd v m).Follows c.broker.rules? c.journal ∧
        Records (.settled n q hd v m :: c.journal) b' := by
  unfold giveBack
  rcases h.toRecords.giveBack q hd with hb | ⟨n, m, v, letter, b', hb, hv, hf, hrec⟩
  · left
    rw [hb]
  · right
    obtain ⟨r, hfirst, -⟩ := id hf
    rw [hb]
    simp only [item, hfirst, Option.getD_some]
    rcases hv with ⟨rfl, rfl⟩ | ⟨rfl, rfl⟩
    · exact ⟨n, m, .released, b', c.flying, rfl, .inl ⟨rfl, rfl⟩, hf, hrec⟩
    · exact ⟨n, m, .givenUp, b', _, rfl, .inr ⟨rfl, rfl⟩, hf, hrec⟩

end Steps

/-- An arrival brings one item to its end, and gives nothing up. -/
theorem arrival_counts (b : Broker) (n : Nat) (letter : DeadLetter) (k : Nat) :
    (arrival b n letter).settles k .givenUp = false ∧
      (if (arrival b n letter).copies k then 1 else 0) +
        (if (arrival b n letter).discards k then 1 else 0) = if n = k then 1 else 0 := by
  unfold arrival
  split <;> simp [Entry.settles, Entry.copies, Entry.discards]

/-! ## The steps keep the journal true -/

namespace Sound

variable {c : Chronicle} (h : c.Sound)
include h

/-- An entry that gives nothing up, and brings nothing that was given up to its end, leaves the
letters alone. -/
theorem note {e : Entry} {b' : Broker} (hr : Records (e :: c.journal) b')
    (hcopies : ∀ n, e.copies n = false) (hdiscards : ∀ n, e.discards n = false)
    (hsettles : ∀ n, e.settles n .givenUp = false) :
    Sound { c with broker := b', journal := e :: c.journal } := by
  refine ⟨hr, ?_, fun n => ?_⟩
  · intro x hx
    obtain ⟨hd, hmem⟩ := h.letters x hx
    exact ⟨hd, List.mem_cons_of_mem _ hmem⟩
  · have hbal := h.balance n
    show c.flights n + _ + _ = _
    rw [settlements_cons, List.countP_cons, List.countP_cons, hcopies, hdiscards, hsettles]
    exact hbal

/-- A message put in directly keeps the journal true. -/
theorem enqueue {q : QueueRef} (hq : c.broker.HasQueue q) (m : Message) :
    (c.enqueue q m).Sound := by
  obtain ⟨qu, hqu⟩ := hq.queue?
  have hc := enqueue_changes hqu (Nat.le_refl c.broker.mint.issued) m
  exact h.note (h.toRecords.store hc trivial) (fun _ => rfl) (fun _ => rfl) fun _ => rfl

/-- A delivery keeps the journal true. -/
theorem deliver (topic : String) (m : Message) {target : QueueRef}
    (hq : c.broker.HasQueue target) :
    (c.deliver topic m target).Sound ∧
      ∀ ref, (c.deliver topic m target).broker.HasQueue ref ↔ c.broker.HasQueue ref := by
  obtain ⟨qu, hqu⟩ := hq.queue?
  have hmint : c.broker.mint.issued ≤ c.broker.mint.advance.advance.issued := Nat.le_add_right _ 2
  have hc := enqueue_changes hqu hmint (c.broker.publicationCopy topic m).1
  refine ⟨h.note (h.toRecords.store hc ?_) (fun _ => rfl) (fun _ => rfl) fun _ => rfl, hc.hasQueue⟩
  -- A copy is a fork, and being given an id does not change that.
  obtain ⟨id, hid⟩ := identify_fst { c.broker with mint := c.broker.mint.advance.advance }
    (c.broker.publicationCopy topic m).1
  exact (congrArg Message.receipt hid).trans rfl

/-- Deliveries keep the journal true. -/
theorem deliverAll (topic : String) (m : Message) {targets : List QueueRef}
    (ht : ∀ target ∈ targets, c.broker.HasQueue target) :
    (c.deliverAll topic m targets).Sound := by
  induction targets generalizing c with
  | nil => exact h
  | cons target rest ih =>
    obtain ⟨hs, hhas⟩ := h.deliver topic m (ht target List.mem_cons_self)
    exact ih hs fun r hr => (hhas r).mpr (ht r (List.mem_cons_of_mem _ hr))

/-- A receive keeps the journal true. -/
theorem receive (q : QueueRef) (t : Instant) : (c.receive q t).Sound := by
  rcases receive_cases h q t with hn | ⟨n, m, b', hc, -, -, hrec⟩
  · rw [hn]
    exact h
  · rw [hc]
    exact h.note hrec (fun _ => rfl) (fun _ => rfl) fun _ => rfl

/-- An acknowledgement keeps the journal true. -/
theorem acknowledge (q : QueueRef) (hd : Ident) : (c.acknowledge q hd).Sound := by
  rcases acknowledge_cases h q hd with hn | ⟨n, m, b', hc, -, hrec⟩
  · rw [hn]
    exact h
  · rw [hc]
    refine h.note hrec (fun _ => rfl) (fun _ => rfl) fun i => ?_
    simp [Entry.settles]

/-- The first half of a nack keeps the journal true. -/
theorem giveBack (q : QueueRef) (hd : Ident) : (c.giveBack q hd).Sound := by
  rcases giveBack_cases h q hd with
    hn | ⟨n, m, v, b', flying, hc, ⟨rfl, rfl⟩ | ⟨rfl, rfl⟩, -, hrec⟩
  · rw [hn]
    exact h
  · rw [hc]
    refine h.note hrec (fun _ => rfl) (fun _ => rfl) fun i => ?_
    simp [Entry.settles]
  · rw [hc]
    refine ⟨hrec, ?_, fun i => ?_⟩
    · intro x hx
      rcases List.mem_cons.mp hx with rfl | hx
      · exact ⟨hd, List.mem_cons_self⟩
      · obtain ⟨hd', hmem⟩ := h.letters x hx
        exact ⟨hd', List.mem_cons_of_mem _ hmem⟩
    · -- One more item is given up, and one more letter is on its way.
      have hbal := h.balance i
      unfold flights at *
      rw [settlements_cons, List.countP_cons, List.countP_cons, List.countP_cons]
      simp only [Entry.copies, Entry.discards, Entry.settles, Bool.false_eq_true, if_false,
        and_true]
      omega

/-- The arrival of a letter keeps the journal true. -/
theorem land (i : Nat) : (c.land i).Sound := by
  unfold Chronicle.land
  cases hi : c.flying[i]? with
  | none => exact h
  | some x =>
    obtain ⟨n, letter⟩ := x
    obtain ⟨hd, hgone⟩ := h.letters (n, letter) (List.mem_of_getElem? hi)
    refine ⟨h.toRecords.deposit hgone, ?_, fun k => ?_⟩
    · intro x hx
      obtain ⟨hd', hmem⟩ := h.letters x (List.mem_of_mem_eraseIdx hx)
      exact ⟨hd', List.mem_cons_of_mem _ hmem⟩
    · -- One letter less is on its way, and one item more has come to its end.
      have hbal := h.balance k
      -- The letters before are the one that arrives and those that stay, in another order.
      have hfly : c.flights k = (c.flying.eraseIdx i).countP (fun x => x.1 = k) +
          if n = k then 1 else 0 := by
        obtain ⟨hlt, hx⟩ := List.getElem?_eq_some_iff.mp hi
        have hperm := List.getElem_cons_eraseIdx_perm hlt
        rw [hx] at hperm
        unfold flights
        rw [← hperm.countP_eq, List.countP_cons]
        simp only [decide_eq_true_eq]
      have hone := arrival_counts c.broker n letter k
      show (c.flying.eraseIdx i).countP (fun x => x.1 = k) + _ + _ = _
      rw [settlements_cons, List.countP_cons, List.countP_cons, hone.1]
      have htwo := hone.2
      simp only [Bool.false_eq_true, if_false]
      omega

/-- Both halves of a nack keep the journal true. -/
theorem nack (q : QueueRef) (hd : Ident) : (c.nack q hd).Sound := by
  rcases c.nack_cases q hd with hn | hn
  · rw [hn]
    exact h.giveBack q hd
  · rw [hn]
    exact (h.giveBack q hd).land 0

/-- A call about objects keeps the journal true. -/
theorem rearrange {op : Operation} (hv : op.Valid c.broker) (hr : op.registers = true) :
    Sound { c with broker := c.broker.perform op } := by
  obtain ⟨hmint, hqueues⟩ := c.broker.perform_of_registers hr
  -- Queues that were there are still there, and one that was not is empty.
  have hold : ∀ ref q, c.broker.queue? ref = some q →
      (c.broker.perform op).queue? ref = some q := by
    intro ref q hq
    unfold queue? at *
    rcases hqueues with hq' | ⟨_, _, _, _, hq'⟩
    · rw [hq']
      exact hq
    · rw [hq', List.getElem?_append_left (List.getElem?_eq_some_iff.mp hq).1]
      exact hq
  have hnew : ∀ ref q, c.broker.queue? ref = none → (c.broker.perform op).queue? ref = some q →
      q.messages = [] := by
    intro ref q hn hq
    unfold queue? at *
    rcases hqueues with hq' | ⟨_, _, _, _, hq'⟩
    · rw [hq', hn] at hq
      cases hq
    · rw [hq', List.getElem?_append_right (List.getElem?_eq_none_iff.mp hn)] at hq
      rw [List.mem_singleton.mp (List.mem_of_getElem? hq)]
      rfl
  refine ⟨h.toRecords.rearrange (h.closed.perform hv) ?_ ?_ (Nat.le_of_eq (by rw [hmint])),
    h.letters, h.balance⟩
  · intro ref
    unfold contents
    cases hq : c.broker.queue? ref with
    | some q => rw [hold ref q hq]
    | none =>
      cases hq' : (c.broker.perform op).queue? ref with
      | none => rfl
      | some q => exact hnew ref q hq hq'
  · intro ref r hr
    obtain ⟨q, hq, rfl⟩ := queue?_of_rules? hr
    exact rules?_of_queue? (hold ref q hq)

/-- A call keeps the journal true. -/
theorem perform {op : Operation} (hv : op.Valid c.broker) : (c.perform op).Sound := by
  cases op with
  | createTopic | addTopic | createQueue | addQueue | subscribe | subscribeTo =>
    exact h.rearrange hv rfl
  | enqueue q m => exact h.enqueue (hv.1 q (List.mem_singleton_self _)) m
  | publish topic m deadline clock =>
    exact h.deliverAll _ m fun target ht => h.closed.hasQueue_of_mem_reached ht
  | publishTo topic m deadline clock =>
    exact h.deliverAll _ m fun target ht => h.closed.hasQueue_of_mem_reached ht
  | receive q t => exact h.receive q t
  | acknowledge q hd => exact h.acknowledge q hd
  | nack q hd => exact h.nack q hd

/-- Every valid move keeps the journal true. -/
theorem apply {v : Move} (hv : v.Valid c.broker) : (c.apply v).Sound := by
  cases v with
  | call op => exact h.perform hv
  | deliver topic m target => exact (h.deliver topic m hv).1
  | giveBack q hd => exact h.giveBack q hd
  | land i => exact h.land i

end Sound

/-- Every state of every run is sound. -/
theorem Reachable.sound {c : Chronicle} (h : Reachable c) : c.Sound := by
  induction h with
  | create defaults => exact sound_create defaults
  | apply _ hv ih => exact ih.apply hv

/-! ## What moves leave alone -/

/-- The move is a call about the objects and their names. -/
def Move.registers : Move → Bool
  | .call op => op.registers
  | _ => false

/-- Every valid move about messages leaves the objects the same. -/
theorem Sound.sameObjects_apply {c : Chronicle} (h : c.Sound) {v : Move} (hv : v.Valid c.broker)
    (hr : v.registers = false) : SameObjects c.broker (c.apply v).broker := by
  cases v with
  | call op =>
    show SameObjects c.broker (c.perform op).broker
    rw [broker_perform]
    exact sameObjects_perform h.closed hv hr
  | deliver topic m target =>
    obtain ⟨qu, hqu⟩ := HasQueue.queue? hv
    obtain ⟨copy, hchange⟩ := deliver_changes hqu topic m
    exact hchange.sameObjects
  | giveBack q hd =>
    show SameObjects c.broker (c.giveBack q hd).broker
    unfold Chronicle.giveBack
    cases he : c.broker.giveBack q hd with
    | error fault => exact .refl c.broker
    | ok result =>
      obtain ⟨b', letter⟩ := result
      have hsame := sameObjects_giveBack he
      cases letter with
      | none => exact hsame
      | some letter => exact hsame
  | land i =>
    show SameObjects c.broker (c.land i).broker
    unfold Chronicle.land
    cases c.flying[i]? with
    | none => exact .refl c.broker
    | some x => exact sameObjects_deposit h.closed x.2

/-- A valid move leaves the objects the same, or it is a call about them. -/
theorem Sound.broker_apply_cases {c : Chronicle} (h : c.Sound) {v : Move}
    (hv : v.Valid c.broker) :
    v.registers = false ∧ SameObjects c.broker (c.apply v).broker ∨
      ∃ op, v = .call op ∧ op.Valid c.broker ∧ (c.apply v).broker = c.broker.perform op := by
  cases hr : v.registers with
  | false => exact .inl ⟨rfl, h.sameObjects_apply hv hr⟩
  | true =>
    cases v with
    | call op => exact .inr ⟨op, rfl, hv, c.broker_perform op⟩
    | deliver | giveBack | land => cases hr

/-- In every state of every run, dead letters go to older queues. -/
theorem Reachable.descending {c : Chronicle} (hc : c.Reachable) : c.broker.Descending := by
  induction hc with
  | create defaults => exact descending_create defaults
  | @apply c v hc hv ih =>
    rcases hc.sound.broker_apply_cases hv with ⟨-, hsame⟩ | ⟨op, -, hop, hb⟩
    · exact hsame.descending ih
    · rw [hb]
      exact ih.perform hc.sound.closed hop

end Chronicle

end MessageBroker
