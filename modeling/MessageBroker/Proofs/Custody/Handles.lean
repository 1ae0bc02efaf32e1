import MessageBroker.Proofs.Custody.Ancestry
import MessageBroker.Proofs.Custody.Receipts

/-!
# Handles that a queue has not issued

The delivery state of a message travels with it, and `enqueue` takes a message as it is. So a handle
that a queue carries need not be its own: a caller who forwards what some `receive` returned puts
the lease of one queue into another. `handles_carried` says exactly what a queue can carry. Every
handle in it was issued by a lease of that queue, or came in with the message that a caller put in;
a queue refuses all other handles; and a message that was never leased is as visible as the caller
made it, or visible at any time. Hence the handles of a queue are its own (`OwnHandles`), at every
moment of a run, exactly if callers put in messages without a lease.
-/

namespace MessageBroker

open Broker

namespace Custody

variable {rules : QueueRef → Option QueueRules} {j : List Entry}

/-- What an entry is about was put in before it. -/
theorem Lawful.lt_length_of_concerns (h : Lawful rules j) {e : Entry} (he : e ∈ j) {n : Nat}
    {q : QueueRef} (hc : e.Concerns n q) : n < j.length := by
  obtain ⟨later, earlier, rfl⟩ := List.append_of_mem he
  have hheld : ∃ m, (n, m) ∈ held q earlier := by
    cases e with
    | stored | discarded => exact hc.elim
    | leased n' q' t m =>
      obtain ⟨rfl, rfl⟩ := hc
      obtain ⟨-, old, -, hold, -⟩ := h.follows.leased
      exact ⟨old, hold⟩
    | settled n' q' hd v m =>
      obtain ⟨rfl, rfl⟩ := hc
      exact ⟨m, h.follows.settled.1⟩
  obtain ⟨m, hm⟩ := hheld
  have hlt := lt_length_of_mem_held (fst_mem_of_mem hm)
  rw [List.length_append, List.length_cons]
  omega

/-- A lease of an item is an entry about it. -/
theorem Entry.Leases.concerns {e : Entry} {n : Nat} {q : QueueRef} (h : e.Leases n q) :
    e.Concerns n q := by
  cases e with
  | leased => exact h
  | stored | settled | discarded => exact h.elim

/-- What carries a handle carries it since the lease that issued it, or since a caller put it in
with that handle. -/
theorem Lawful.leased_or_handed_in (h : Lawful rules j) {n : Nat} {q : QueueRef} {m : Message}
    {hd : Ident} (hheld : (n, m) ∈ held q j) (hr : m.receipt = some hd) :
    (∃ later t earlier, j = later ++ .leased n q t m :: earlier ∧
        ∀ e ∈ later, ¬ e.Concerns n q) ∨
      StoredAs n q .caller m j ∧ ∀ e ∈ j, ¬ e.Concerns n q := by
  -- Back to the last entry about the item, or to the one that put it in.
  induction j with
  | nil => exact absurd hheld List.not_mem_nil
  | cons e past ih =>
    rcases mem_act_iff.mp hheld with
      ⟨hmem, hother⟩ | ⟨hn, o, rfl⟩ | ⟨t, old, rfl, -⟩ | ⟨_, _, old, rfl, -, rfl⟩
    · have hcons : ∀ {l : List Entry}, (∀ x ∈ l, ¬ x.Concerns n q) →
          ∀ x ∈ e :: l, ¬ x.Concerns n q := fun hl => List.forall_mem_cons.mpr ⟨hother, hl⟩
      rcases ih h.2 hmem with ⟨later, t, earlier, rfl, hlater⟩ | ⟨hstored, hall⟩
      · exact .inl ⟨e :: later, t, earlier, rfl, hcons hlater⟩
      · exact .inr ⟨hstored.append [e], hcons hall⟩
    · right
      -- Copies are put in without a handle.
      have ho : o = .caller := by
        cases o with
        | caller => rfl
        | publication => exact absurd (hr.symm.trans h.1) (Option.some_ne_none hd)
        | deadLetter i =>
          obtain ⟨_, _, _, old, -, -, -, id, hletter⟩ := h.1
          rw [hletter] at hr
          cases hr
      subst ho
      refine ⟨⟨[], past, rfl, hn.symm⟩, List.forall_mem_cons.mpr ⟨id, fun x hx hc => ?_⟩⟩
      exact absurd (h.2.lt_length_of_concerns hx hc) (hn ▸ Nat.lt_irrefl _)
    · exact .inl ⟨[], t, past, rfl, fun x hx => absurd hx List.not_mem_nil⟩
    · -- A released item carries no handle.
      cases hr

/-- An item that was never leased stands as it was put in, or was released. -/
theorem stored_or_released {n : Nat} {q : QueueRef} {m : Message} (hheld : (n, m) ∈ held q j)
    (hnever : ∀ e ∈ j, ¬ e.Leases n q) :
    (∃ o, StoredAs n q o m j) ∨ m.hiddenUntil = none := by
  induction j with
  | nil => exact absurd hheld List.not_mem_nil
  | cons e past ih =>
    rcases mem_act_iff.mp hheld with
      ⟨hmem, -⟩ | ⟨hn, o, rfl⟩ | ⟨t, old, rfl, -⟩ | ⟨_, _, old, rfl, -, rfl⟩
    · exact (ih hmem fun x hx => hnever x (List.mem_cons_of_mem _ hx)).imp_left
        fun ⟨o, hstored⟩ => ⟨o, hstored.append [e]⟩
    · exact .inl ⟨o, [], past, rfl, hn.symm⟩
    · exact absurd ⟨rfl, rfl⟩ (hnever _ List.mem_cons_self)
    · exact .inr rfl

end Custody

namespace Chronicle

open Custody

/-! ## What is put in -/

/-- A message that is put in as a copy has no delivery state, and one that a caller puts in is what
the caller enqueues, with an id. -/
def Move.PutsIn (v : Move) (q : QueueRef) (o : Origin) (m : Message) : Prop :=
  m.bare = m ∨ o = .caller ∧ ∃ given id, v = .call (.enqueue q given) ∧ m = { given with id }

/-- Entries that put in nothing but copies. -/
def Copying (new : List Entry) : Prop := ∀ q o m, .stored q o m ∈ new → m.bare = m

/-- What arrives are copies. -/
theorem Arrivals.copying {new : List Entry} (h : Arrivals new) : Copying new := by
  intro q o m hm
  rcases h _ hm with ⟨_, _, _, he, hbare⟩ | ⟨_, he⟩
  · cases he
    exact hbare
  · cases he

section Step

variable {c : Chronicle} (hs : c.Sound)
include hs

/-- The first half of a nack puts nothing in. -/
theorem copying_giveBack (q : QueueRef) (hd : Ident) :
    ∃ new, (c.giveBack q hd).journal = new ++ c.journal ∧ Copying new := by
  rcases journal_giveBack hs q hd with hn | ⟨n, verdict, m, hj, -, -⟩
  · exact ⟨[], hn, fun _ _ _ hx => absurd hx List.not_mem_nil⟩
  · exact ⟨[_], hj, fun q' o x hx => nomatch List.mem_singleton.mp hx⟩

/-- What is put in by a move was put in before it, or by it. -/
theorem stored_apply (v : Move) {q : QueueRef} {o : Origin} {m : Message}
    (hm : .stored q o m ∈ (c.apply v).journal) : .stored q o m ∈ c.journal ∨ v.PutsIn q o m := by
  -- All moves but an `enqueue` put in copies at most.
  have hcopies : ∀ new, (c.apply v).journal = new ++ c.journal → Copying new →
      .stored q o m ∈ c.journal ∨ v.PutsIn q o m := by
    intro new hnew hcopying
    rw [hnew] at hm
    rcases List.mem_append.mp hm with hm | hm
    · exact .inr (.inl (hcopying q o m hm))
    · exact .inl hm
  have hnone : Copying [] := fun _ _ _ hx => absurd hx List.not_mem_nil
  cases v with
  | deliver topic m' target =>
    obtain ⟨new, hnew, harrivals⟩ := c.journal_deliverAll topic m' [target]
    exact hcopies new hnew harrivals.copying
  | giveBack q' hd =>
    obtain ⟨new, hnew, hcopying⟩ := copying_giveBack hs q' hd
    exact hcopies new hnew hcopying
  | land i =>
    obtain ⟨new, hnew, harrivals⟩ := c.journal_land i
    exact hcopies new hnew harrivals.copying
  | call op =>
    cases op with
    | createTopic | addTopic | createQueue | addQueue | subscribe | subscribeTo =>
      exact hcopies [] rfl hnone
    | enqueue q' given =>
      rcases List.mem_cons.mp hm with he | hm
      · cases he
        obtain ⟨id, hid⟩ := identify_fst c.broker given
        exact .inr (.inr ⟨rfl, given, id, rfl, hid⟩)
      · exact .inl hm
    | publish topic m' deadline clock =>
      obtain ⟨new, hnew, harrivals⟩ := c.journal_deliverAll
        (Operation.mark c.broker (.publish topic m' deadline clock)) m'
        (Operation.reached c.broker (.publish topic m' deadline clock))
      exact hcopies new hnew harrivals.copying
    | publishTo topic m' deadline clock =>
      obtain ⟨new, hnew, harrivals⟩ := c.journal_deliverAll
        (Operation.mark c.broker (.publishTo topic m' deadline clock)) m'
        (Operation.reached c.broker (.publishTo topic m' deadline clock))
      exact hcopies new hnew harrivals.copying
    | receive q' t =>
      rcases receive_cases hs q' t with hn | ⟨n, m', b', hc, -⟩
      · exact hcopies [] (congrArg journal hn) hnone
      · exact hcopies [_] (congrArg journal hc)
          fun _ _ _ hx => nomatch List.mem_singleton.mp hx
    | acknowledge q' hd =>
      rcases acknowledge_cases hs q' hd with hn | ⟨n, m', b', hc, -⟩
      · exact hcopies [] (congrArg journal hn) hnone
      · exact hcopies [_] (congrArg journal hc)
          fun _ _ _ hx => nomatch List.mem_singleton.mp hx
    | nack q' hd =>
      obtain ⟨new, hnew, hcopying⟩ := copying_giveBack hs q' hd
      rcases c.nack_cases q' hd with hn | hn
      · exact hcopies new ((congrArg journal hn).trans hnew) hcopying
      · -- The second half puts a copy in on top of the first.
        obtain ⟨tail, htail, harrivals⟩ := (c.giveBack q' hd).journal_land 0
        refine hcopies (tail ++ new) ?_ fun q o x hx => ?_
        · rw [List.append_assoc, ← hnew, ← htail]
          exact congrArg journal hn
        · exact (List.mem_append.mp hx).elim (harrivals.copying q o x) (hcopying q o x)

end Step

/-- What was put in during a run is a copy, or it is what some caller enqueued, with an id. -/
theorem stored_run {c : Chronicle} (hc : c.Reachable) {moves : List Move} (hv : c.Admits moves)
    {q : QueueRef} {o : Origin} {m : Message} (hm : .stored q o m ∈ (c.run moves).journal) :
    .stored q o m ∈ c.journal ∨ ∃ v ∈ moves, v.PutsIn q o m := by
  induction moves generalizing c with
  | nil => exact .inl hm
  | cons v rest ih =>
    rcases ih (hc.apply hv.1) hv.2 hm with hm | ⟨v', hv', hputs⟩
    · rcases stored_apply hc.sound v hm with hm | hputs
      · exact .inl hm
      · exact .inr ⟨v, List.mem_cons_self, hputs⟩
    · exact .inr ⟨v', List.mem_cons_of_mem _ hv', hputs⟩

/-! ## Whose handles a queue carries -/

/-- The handles that queues carry are their own: whatever carries a handle carries it since a lease
of its queue issued it, a queue refuses all handles that it has not issued, and a message that was
never leased is visible, whatever the clock says. -/
structure OwnHandles (c : Chronicle) : Prop where
  carried : ∀ n q m h, (n, m) ∈ held q c.journal → m.receipt = some h →
    ∃ later t earlier, c.journal = later ++ .leased n q t m :: earlier ∧
      ∀ e ∈ later, ¬ e.Concerns n q
  refused : ∀ q h, (∀ n t m, .leased n q t m ∈ c.journal → m.receipt ≠ some h) →
    c.broker.Refuses q h
  pending : ∀ n q m, (n, m) ∈ held q c.journal → (∀ e ∈ c.journal, ¬ e.Leases n q) →
    ∀ t, m.VisibleAt t

/-- A message without a lease: it carries no handle, and is visible, whatever the clock says. -/
def Unleased (m : Message) : Prop := m.receipt = none ∧ ∀ t, m.VisibleAt t

/-- What a caller just put in stands as it is, and nothing is noted about it. -/
theorem held_enqueue (c : Chronicle) (q : QueueRef) (m : Message) :
    (c.journal.length, (c.broker.identify m).1) ∈ held q (c.enqueue q m).journal :=
  mem_act_iff.mpr (.inr (.inl ⟨rfl, .caller, rfl⟩))

/-- If the handles of queues are their own once a message is put in, the message has no lease. -/
theorem OwnHandles.unleased {c : Chronicle} (hs : c.Sound) {q : QueueRef} {m : Message}
    (hown : (c.enqueue q m).OwnHandles) : Unleased m := by
  obtain ⟨id, hid⟩ := identify_fst c.broker m
  have hheld := c.held_enqueue q m
  rw [hid] at hheld
  -- Nothing noted so far is about the new item.
  have hnew : ∀ e ∈ (c.enqueue q m).journal, ¬ e.Concerns c.journal.length q := by
    refine List.forall_mem_cons.mpr ⟨fun hc => hc, fun e he hc => ?_⟩
    exact absurd (hs.lawful.lt_length_of_concerns he hc) (Nat.lt_irrefl _)
  constructor
  · cases hr : m.receipt with
    | none => rfl
    | some h =>
      obtain ⟨later, t, earlier, hj, -⟩ := hown.carried _ q _ h hheld hr
      have hlease : .leased c.journal.length q t { m with id } ∈ (c.enqueue q m).journal :=
        hj ▸ List.mem_append_right _ List.mem_cons_self
      exact absurd ⟨rfl, rfl⟩ (hnew _ hlease)
  · have hvisible := hown.pending _ q _ hheld fun e he hl => hnew e he hl.concerns
    exact hvisible

section Run

variable {defaults : QueueDefaults} {moves : List Move} (hv : (create defaults).Admits moves)
include hv

/-- What callers put in during a run is what they enqueue, with an id, or is a copy. -/
theorem putsIn_of_storedAs {n : Nat} {q : QueueRef} {o : Origin} {m : Message}
    (hm : StoredAs n q o m ((create defaults).run moves).journal) :
    m.bare = m ∨ o = .caller ∧
      ∃ given id, .call (.enqueue q given) ∈ moves ∧ m = { given with id } := by
  obtain ⟨later, earlier, hj, -⟩ := hm
  have hmem : .stored q o m ∈ ((create defaults).run moves).journal :=
    hj ▸ List.mem_append_right _ List.mem_cons_self
  rcases stored_run (.create defaults) hv hmem with hnone | ⟨v, hv', hputs⟩
  · exact absurd hnone List.not_mem_nil
  · exact hputs.imp_right fun ⟨ho, given, id, he, hid⟩ => ⟨ho, given, id, he ▸ hv', hid⟩

/-- What carries a handle carries it since the lease that issued it, or since a caller put it in. -/
theorem carried_run {n : Nat} {q : QueueRef} {m : Message} {h : Ident}
    (hheld : (n, m) ∈ held q ((create defaults).run moves).journal) (hr : m.receipt = some h) :
    (∃ later t earlier,
        ((create defaults).run moves).journal = later ++ .leased n q t m :: earlier ∧
        ∀ e ∈ later, ¬ e.Concerns n q) ∨
      StoredAs n q .caller m ((create defaults).run moves).journal ∧
        (∀ e ∈ ((create defaults).run moves).journal, ¬ e.Concerns n q) ∧
        ∃ given id, .call (.enqueue q given) ∈ moves ∧ m = { given with id } := by
  have hs := ((Reachable.create defaults).run hv).sound
  rcases hs.lawful.leased_or_handed_in hheld hr with hleased | ⟨hstored, huntouched⟩
  · exact .inl hleased
  · rcases putsIn_of_storedAs hv hstored with hbare | ⟨-, hgiven⟩
    · rw [← hbare] at hr
      cases hr
    · exact .inr ⟨hstored, huntouched, hgiven⟩

/-- A queue refuses all handles but those it issued and those that callers put in it. -/
theorem refuses_run {q : QueueRef} {h : Ident}
    (hleases : ∀ n t m, .leased n q t m ∈ ((create defaults).run moves).journal →
      m.receipt ≠ some h)
    (hgiven : ∀ given, .call (.enqueue q given) ∈ moves → given.receipt ≠ some h) :
    ((create defaults).run moves).broker.Refuses q h := by
  have hs := ((Reachable.create defaults).run hv).sound
  refine refuses_of_not_carried fun x hx hxr => ?_
  rw [hs.replay, List.mem_map] at hx
  obtain ⟨⟨n, x⟩, hmem, rfl⟩ := hx
  rcases carried_run hv hmem hxr with ⟨later, t, earlier, hj, -⟩ | ⟨-, -, given, id, hin, rfl⟩
  · exact hleases n t x (hj ▸ List.mem_append_right _ List.mem_cons_self) hxr
  · exact hgiven given hin hxr

/-- A message that was never leased is visible, or a caller put it in with the deadline that hides
it. -/
theorem visible_run {n : Nat} {q : QueueRef} {m : Message}
    (hheld : (n, m) ∈ held q ((create defaults).run moves).journal)
    (hnever : ∀ e ∈ ((create defaults).run moves).journal, ¬ e.Leases n q) :
    (∀ t, m.VisibleAt t) ∨
      ∃ given, .call (.enqueue q given) ∈ moves ∧ m.hiddenUntil = given.hiddenUntil := by
  have hopen : m.hiddenUntil = none → ∀ t, m.VisibleAt t := by
    intro hnone t deadline hd
    rw [hnone] at hd
    cases hd
  rcases stored_or_released hheld hnever with ⟨o, hstored⟩ | hnone
  · rcases putsIn_of_storedAs hv hstored with hbare | ⟨-, given, id, hin, rfl⟩
    · exact .inl (hopen (by rw [← hbare]; rfl))
    · exact .inr ⟨given, hin, rfl⟩
  · exact .inl (hopen hnone)

/-- Where callers put in messages without a lease only, the handles of queues are their own. -/
theorem ownHandles_of_unleased (hplain : ∀ q m, .call (.enqueue q m) ∈ moves → Unleased m) :
    ((create defaults).run moves).OwnHandles := by
  refine ⟨fun n q m h hheld hr => ?_, fun q h hnew => ?_, fun n q m hheld hnever => ?_⟩
  · rcases carried_run hv hheld hr with hleased | ⟨-, -, given, id, hin, rfl⟩
    · exact hleased
    · exact absurd (hr.symm.trans (hplain q given hin).1) (Option.some_ne_none h)
  · refine refuses_run hv hnew fun given hin hr => ?_
    exact absurd (hr.symm.trans (hplain q given hin).1) (Option.some_ne_none h)
  · rcases visible_run hv hheld hnever with hvisible | ⟨given, hin, hsame⟩
    · exact hvisible
    · intro t deadline hd
      exact (hplain q given hin).2 t deadline (hsame ▸ hd)

end Run

/-- In every state of every run, whatever callers put in.

What carries a handle carries it since a lease of its queue issued it, or it is what a caller put in
with that handle, and nothing has happened to it since. A queue refuses all handles but those it
issued and those that callers put in it. A message that was never leased is visible, whatever the
clock says, or a caller put it in with the deadline that hides it. In all states of the run the
handles of queues are their own exactly if callers put in messages without a lease only. -/
theorem handles_carried {defaults : QueueDefaults} {moves : List Move}
    (hv : (create defaults).Admits moves) {c : Chronicle}
    (hc : c = (create defaults).run moves) :
    (∀ n q m h, (n, m) ∈ held q c.journal → m.receipt = some h →
      (∃ later t earlier, c.journal = later ++ .leased n q t m :: earlier ∧
          ∀ e ∈ later, ¬ e.Concerns n q) ∨
        StoredAs n q .caller m c.journal ∧ (∀ e ∈ c.journal, ¬ e.Concerns n q) ∧
          ∃ given id, .call (.enqueue q given) ∈ moves ∧ m = { given with id }) ∧
    (∀ q h, (∀ n t m, .leased n q t m ∈ c.journal → m.receipt ≠ some h) →
      (∀ given, .call (.enqueue q given) ∈ moves → given.receipt ≠ some h) →
      c.broker.Refuses q h) ∧
    (∀ n q m, (n, m) ∈ held q c.journal → (∀ e ∈ c.journal, ¬ e.Leases n q) →
      (∀ t, m.VisibleAt t) ∨
        ∃ given, .call (.enqueue q given) ∈ moves ∧ m.hiddenUntil = given.hiddenUntil) ∧
    ((∀ before after, moves = before ++ after → ((create defaults).run before).OwnHandles) ↔
      ∀ q m, .call (.enqueue q m) ∈ moves → Unleased m) := by
  subst hc
  have hs := ((Reachable.create defaults).run hv).sound
  refine ⟨fun n q m h => carried_run hv, fun q h => refuses_run hv,
    fun n q m => visible_run hv, fun hown q m hm => ?_, fun hplain before after hsplit => ?_⟩
  · -- Just after it is put in, the message shows that it has no lease.
    obtain ⟨before, after, rfl⟩ := List.append_of_mem hm
    obtain ⟨hbefore, -⟩ := (admits_append _ _ _).mp hv
    have hstate := hown (before ++ [.call (.enqueue q m)]) after (by simp)
    rw [run_append] at hstate
    exact hstate.unleased ((Reachable.create defaults).run hbefore).sound
  · subst hsplit
    exact ownHandles_of_unleased ((admits_append _ _ _).mp hv).1 fun q m hm =>
      hplain q m (List.mem_append_left _ hm)

/-- What the first `receive` of the run below returns. -/
def leasedOrder : Message :=
  (Message.create (.text "m") "order" [] .first).leased (.generated 0)
    (Instant.first.deadline (.ofSeconds 30))

/-- A run in which a consumer forwards the message that it leased to another queue. -/
def forwardedRun : List Move :=
  [.call (.createQueue "work" {}),
    .call (.createQueue "other" {}),
    .call (.enqueue ⟨0⟩ (.create (.text "m") "order" [] .first)),
    .call (.receive ⟨0⟩ .first),
    .call (.enqueue ⟨1⟩ leasedOrder)]

/-- In that run the handles of queues are their own until the message is forwarded. Then the second
queue carries a handle that a caller put in. -/
theorem handles_carried_forwardedRun :
    ((create .standard).run (forwardedRun.take 4)).OwnHandles ∧
      ∃ given, .call (.enqueue ⟨1⟩ given) ∈ forwardedRun ∧
        given.receipt = some (.generated 0) := by
  constructor
  · have hv : (create .standard).Admits (forwardedRun.take 4) := by decide
    obtain ⟨-, -, -, hown⟩ := handles_carried hv rfl
    refine hown.mpr (fun q m hm => ?_) (forwardedRun.take 4) [] rfl
    -- The one message that is put in is a new one.
    simp only [forwardedRun, List.take_succ_cons, List.take_zero, List.mem_cons, Move.call.injEq,
      Operation.enqueue.injEq, List.not_mem_nil, or_false, reduceCtorEq, false_or] at hm
    obtain ⟨-, rfl⟩ := hm
    exact ⟨rfl, fun t deadline hd => nomatch hd⟩
  · have hv : (create .standard).Admits forwardedRun := by decide
    obtain ⟨hcarried, -⟩ := handles_carried hv rfl
    rcases hcarried 2 ⟨1⟩ leasedOrder (.generated 0) (by decide) rfl with
      ⟨later, t, earlier, hj, -⟩ | ⟨-, -, given, id, hin, hsame⟩
    · -- The second queue has leased nothing.
      have hnone : ∀ e ∈ ((create .standard).run forwardedRun).journal, ¬ e.Leases 2 ⟨1⟩ := by
        decide
      have hlease : .leased 2 ⟨1⟩ t leasedOrder ∈ ((create .standard).run forwardedRun).journal :=
        hj ▸ List.mem_append_right _ List.mem_cons_self
      exact absurd ⟨rfl, rfl⟩ (hnone _ hlease)
    · exact ⟨given, hin, (congrArg Message.receipt hsame).symm⟩

/-- The handles of queues need not be their own. In that run the second queue has leased nothing,
and yet it accepts a handle, and hides a message that nobody has received from it. -/
theorem forwarded_handle_accepted :
    (create .standard).Admits forwardedRun ∧
      let c := (create .standard).run forwardedRun
      (∀ n t m, .leased n ⟨1⟩ t m ∉ c.journal) ∧ ¬ c.broker.Refuses ⟨1⟩ (.generated 0) ∧
        (2, leasedOrder) ∈ held ⟨1⟩ c.journal ∧ ¬ leasedOrder.VisibleAt .first ∧
        ¬ c.OwnHandles := by
  have hv : (create .standard).Admits forwardedRun := by decide
  have hs := ((Reachable.create .standard).run hv).sound
  have hleases : ∀ n t m,
      .leased n ⟨1⟩ t m ∉ ((create .standard).run forwardedRun).journal := by
    intro n t m hm
    -- The journal is short enough to look through it.
    have hlt := hs.lawful.lt_length_of_concerns hm ⟨rfl, rfl⟩
    have hothers : ∀ e ∈ ((create .standard).run forwardedRun).journal,
        ∀ n < ((create .standard).run forwardedRun).journal.length, ¬ e.Leases n ⟨1⟩ := by decide
    exact hothers _ hm n hlt ⟨rfl, rfl⟩
  have haccepts : ¬ ((create .standard).run forwardedRun).broker.Refuses ⟨1⟩ (.generated 0) := by
    rintro ⟨hack, -⟩
    have hok : (((create .standard).run forwardedRun).broker.acknowledge ⟨1⟩
      (.generated 0)).toOption.isSome := by decide
    rw [hack] at hok
    cases hok
  refine ⟨hv, hleases, haccepts, by decide, by decide, fun hown => haccepts ?_⟩
  exact hown.refused ⟨1⟩ _ fun n t m hm => absurd hm (hleases n t m)

end Chronicle

end MessageBroker
