import MessageBroker.Proofs.Custody.Sound

/-!
# One settlement per lease

A handle names a lease. As long as callers put in messages without handles of their own, no two
messages anywhere carry the same handle; the handle settles the message that was leased under it,
on the queue that leased it, and once at most; and it does so from its lease until it has settled
or the message is leased again (`Chronicle.one_settlement_per_lease`). Time plays no part in this:
a handle whose lease has lapsed still settles while nobody has leased the message again.

The journal shows it: a message that carries a handle stands as the lease under that handle left it
(`leased_of_receipt`), and no other lease has that handle (`lease_unique`).
-/

namespace MessageBroker

namespace Broker

/-- The queue refuses the handle, in both halves of what one can do with it. -/
def Refuses (b : Broker) (q : QueueRef) (h : Ident) : Prop :=
  b.acknowledge q h = .error (.invalidReceipt h) ∧
    b.giveBack q h = .error (.invalidReceipt h) ∧ b.nack q h = .error (.invalidReceipt h)

/-- The queue accepts the handle and settles one message with it where that stands: an
acknowledgement takes it out, and the first half of a nack releases it or takes it out and sends it
on its way. No other message of any queue changes. -/
def Settles (b : Broker) (q : QueueRef) (h : Ident) (m : Message) : Prop :=
  ∃ before after, b.contents q = before ++ m :: after ∧
    (∃ b', b.acknowledge q h = .ok b' ∧
      ∀ other, b'.contents other = if other = q then before ++ after else b.contents other) ∧
    (∃ b' letter, b.giveBack q h = .ok (b', letter) ∧
      (letter = none ∧ (∀ other, b'.contents other =
          if other = q then before ++ m.released :: after else b.contents other) ∨
        letter = some ⟨q, m⟩ ∧ ∀ other, b'.contents other =
          if other = q then before ++ after else b.contents other)) ∧
    ∃ b', b.nack q h = .ok b'

/-- A handle that no message of the queue carries is refused. -/
theorem refuses_of_not_carried {b : Broker} {q : QueueRef} {h : Ident}
    (hnone : ∀ m ∈ b.contents q, m.receipt ≠ some h) : b.Refuses q h :=
  ⟨acknowledge_eq_error hnone, giveBack_eq_error hnone, nack_eq_error hnone⟩

/-- The first message of the queue that carries a handle is the one it settles. -/
theorem settles_of_split {b : Broker} {q : QueueRef} {h : Ident} {qu : Queue}
    {before after : List Message} {m : Message} (hqu : b.queue? q = some qu)
    (hs : qu.messages = before ++ m :: after) (hbefore : ∀ x ∈ before, x.receipt ≠ some h)
    (hm : m.receipt = some h) : b.Settles q h m := by
  have hack := changes_setQueue hqu
    { qu with messages := before ++ after, processed := qu.processed + 1 } rfl
  refine ⟨before, after, hack.contents_before.trans hs,
    ⟨_, acknowledge_eq_ok hqu hs hbefore hm, hack.contents⟩, ?_, ?_⟩
  · -- Whether it is released or taken out is a question of the budget.
    rcases Nat.lt_or_ge m.retryCount qu.maxRetries with hlt | hge
    · have hback := changes_setQueue hqu
        { qu with messages := before ++ m.released :: after } rfl
      exact ⟨_, none, giveBack_eq_release hqu hs hbefore hm hlt, .inl ⟨rfl, hback.contents⟩⟩
    · have hgone := changes_setQueue hqu
        { qu with messages := before ++ after, failed := qu.failed + 1 } rfl
      exact ⟨_, some ⟨q, m⟩, giveBack_eq_giveUp hqu hs hbefore hm hge, .inr ⟨rfl, hgone.contents⟩⟩
  · rcases Nat.lt_or_ge m.retryCount qu.maxRetries with hlt | hge
    · exact ⟨_, nack_eq_release hqu hs hbefore hm hlt⟩
    · exact ⟨_, nack_eq_giveUp hqu hs hbefore hm hge⟩

end Broker

namespace Chronicle

open Broker Custody

section Sound

variable {c : Chronicle} (hs : c.Sound) (hplain : Plain c.journal)
include hs hplain

/-- A message that carries a handle is an item, and stands as the lease under that handle left
it. -/
theorem lease_of_carried {q : QueueRef} {m : Message} {h : Ident} (hm : m ∈ c.broker.contents q)
    (hr : m.receipt = some h) :
    ∃ n later t earlier, (n, m) ∈ held q c.journal ∧
      c.journal = later ++ .leased n q t m :: earlier ∧ ∀ e ∈ later, ¬ e.Concerns n q := by
  rw [hs.replay, List.mem_map] at hm
  obtain ⟨⟨n, m⟩, hmem, rfl⟩ := hm
  obtain ⟨later, t, earlier, hj, hlater⟩ := leased_of_receipt hs.lawful hplain hmem hr
  exact ⟨n, later, t, earlier, hmem, hj, hlater⟩

/-- No message carries a handle that is still to be generated. -/
theorem not_pending_of_carried {q : QueueRef} {m : Message} {h : Ident}
    (hm : m ∈ c.broker.contents q) (hr : m.receipt = some h) : ¬ c.broker.mint.Pending h := by
  obtain ⟨n, later, t, earlier, -, hj, -⟩ := lease_of_carried hs hplain hm hr
  have hmem : .leased n q t m ∈ c.journal := hj ▸ List.mem_append_right _ List.mem_cons_self
  exact (hs.issued _ hmem h hr).not_pending

/-- No two messages carry the same handle. -/
theorem carried_once {q₁ q₂ : QueueRef} {i₁ i₂ : Nat} {m₁ m₂ : Message} {h : Ident}
    (h₁ : (c.broker.contents q₁)[i₁]? = some m₁) (h₂ : (c.broker.contents q₂)[i₂]? = some m₂)
    (hr₁ : m₁.receipt = some h) (hr₂ : m₂.receipt = some h) : q₁ = q₂ ∧ i₁ = i₂ := by
  rw [hs.replay, List.getElem?_map, Option.map_eq_some_iff] at h₁ h₂
  obtain ⟨⟨n₁, m₁⟩, hi₁, rfl⟩ := h₁
  obtain ⟨⟨n₂, m₂⟩, hi₂, rfl⟩ := h₂
  obtain ⟨l₁, t₁, e₁, hj₁, -⟩ :=
    leased_of_receipt hs.lawful hplain (List.mem_of_getElem? hi₁) hr₁
  obtain ⟨l₂, t₂, e₂, hj₂, -⟩ :=
    leased_of_receipt hs.lawful hplain (List.mem_of_getElem? hi₂) hr₂
  obtain ⟨-, he, -⟩ := lease_unique hs.lawful hj₁ hj₂ hr₁ hr₂
  cases he
  -- It is one item, and a queue holds an item in one place.
  refine ⟨rfl, ?_⟩
  have hnum₁ : ((held q₁ c.journal).map Prod.fst)[i₁]? = some n₁ := by
    rw [List.getElem?_map, hi₁, Option.map_some]
  have hnum₂ : ((held q₁ c.journal).map Prod.fst)[i₂]? = some n₁ := by
    rw [List.getElem?_map, hi₂, Option.map_some]
  have hlt := (List.getElem?_eq_some_iff.mp hnum₁).1
  exact (List.getElem?_inj hlt (held_nodup q₁ c.journal)).mp (hnum₁.trans hnum₂.symm)

/-- An accepted settlement comes after the lease under its handle, and settles the message of that
lease as it was leased. -/
theorem settled_after_lease {later earlier : List Entry} {n : Nat} {q : QueueRef} {t : Instant}
    {m : Message} {h : Ident} (hj : c.journal = later ++ .leased n q t m :: earlier)
    (hr : m.receipt = some h) {n' : Nat} {q' : QueueRef} {v : Verdict} {m' : Message}
    (hset : .settled n' q' h v m' ∈ c.journal) :
    n' = n ∧ q' = q ∧ m' = m ∧ .settled n q h v m ∈ later := by
  obtain ⟨hr', later', t', earlier', hj', hmem⟩ := leased_of_settled hs.lawful hplain hset
  obtain ⟨rfl, he, -⟩ := lease_unique hs.lawful hj hj' hr hr'
  cases he
  exact ⟨rfl, rfl, rfl, hmem⟩

/-- From the settlement with it, or the next lease of its message, a handle is refused
everywhere. -/
theorem refuses_when_over {later earlier : List Entry} {n : Nat} {q : QueueRef} {t : Instant}
    {m : Message} {h : Ident} (hj : c.journal = later ++ .leased n q t m :: earlier)
    (hr : m.receipt = some h) {e : Entry} (he : e ∈ later)
    (hover : e.settlesWith h = true ∨ e.Leases n q) (other : QueueRef) :
    c.broker.Refuses other h := by
  refine refuses_of_not_carried fun x hx hxr => ?_
  obtain ⟨k, l', t', e', hmem, hj', hl'⟩ := lease_of_carried hs hplain hx hxr
  obtain ⟨rfl, heq, -⟩ := lease_unique hs.lawful hj hj' hr hxr
  cases heq
  -- Whoever carries the handle stands as the lease left it: not settled with it, nor leased again.
  rcases hover with hset | hlease
  · have hno := not_settled_of_held hs.lawful hplain hmem hxr e
      (hj ▸ List.mem_append_left _ he)
    rw [hno] at hset
    cases hset
  · cases e with
    | leased => exact hl' _ he hlease
    | stored | settled | discarded => exact hlease

/-- Until then, the queue that issued it settles the message of the lease with it, as it was
leased. -/
theorem settles_while_open {later earlier : List Entry} {n : Nat} {q : QueueRef} {t : Instant}
    {m : Message} {h : Ident} (hj : c.journal = later ++ .leased n q t m :: earlier)
    (hr : m.receipt = some h)
    (hopen : ∀ e ∈ later, ¬ (e.settlesWith h = true ∨ e.Leases n q)) :
    c.broker.Settles q h m := by
  have hheld : (n, m) ∈ held q c.journal := by
    have hlaw := hs.lawful
    rw [hj] at hlaw ⊢
    exact held_of_open hlaw hr hopen
  have hmem : m ∈ c.broker.contents q := by
    rw [hs.replay]
    exact List.mem_map_of_mem hheld
  rcases c.broker.first_split q (·.receipt = some h) with
    hnone | ⟨qu, before, x, after, hqu, hsplit, hbefore, hx⟩
  · exact absurd hr (hnone m hmem)
  · -- The first message with the handle is the only one.
    have hxmem : x ∈ c.broker.contents q := by
      rw [contents_of_queue? hqu, hsplit]
      exact List.mem_append_right _ List.mem_cons_self
    obtain ⟨k, l', t', e', -, hj', -⟩ := lease_of_carried hs hplain hxmem hx
    obtain ⟨-, heq, -⟩ := lease_unique hs.lawful hj hj' hr hx
    cases heq
    exact settles_of_split hqu hsplit hbefore hr

/-- A handle that no lease of the queue issued is refused by it. -/
theorem refuses_not_issued {q : QueueRef} {h : Ident}
    (hnew : ∀ n t m, .leased n q t m ∈ c.journal → m.receipt ≠ some h) :
    c.broker.Refuses q h := by
  refine refuses_of_not_carried fun x hx hxr => ?_
  obtain ⟨n, later, t, earlier, -, hj, -⟩ := lease_of_carried hs hplain hx hxr
  exact hnew n t x (hj ▸ List.mem_append_right _ List.mem_cons_self) hxr

/-- A text that was not generated is refused. -/
theorem refuses_text (q : QueueRef) (value : String) : c.broker.Refuses q (.text value) := by
  refine refuses_not_issued hs hplain fun n t m hmem hr => ?_
  -- Leases issue generated handles only.
  exact hs.issued (.leased n q t m) hmem (.text value) hr

end Sound

/-- In every state of every run in which callers put in messages without handles: no two messages
carry the same handle; a handle settles at most once; what it settles is the message of the lease
that issued it, on the queue of that lease and after it; from that settlement, or from the next
lease of the message, it is refused everywhere; until then its queue settles that message with it,
and every other queue refuses it; and a queue refuses every handle that none of its leases issued,
such as the empty text and every other one that was not generated. -/
theorem one_settlement_per_lease {c : Chronicle} (hc : c.Reachable) (hplain : Plain c.journal) :
    (∀ q₁ q₂ (i₁ i₂ : Nat) m₁ m₂ h, (c.broker.contents q₁)[i₁]? = some m₁ →
      (c.broker.contents q₂)[i₂]? = some m₂ → m₁.receipt = some h → m₂.receipt = some h →
      q₁ = q₂ ∧ i₁ = i₂) ∧
    (∀ h, c.journal.countP (Entry.settlesWith h) ≤ 1) ∧
    (∀ later n q t m earlier h, c.journal = later ++ .leased n q t m :: earlier →
      m.receipt = some h →
      (∀ n' q' v m', .settled n' q' h v m' ∈ c.journal →
        n' = n ∧ q' = q ∧ m' = m ∧ .settled n q h v m ∈ later) ∧
      ((∃ e ∈ later, e.settlesWith h = true ∨ e.Leases n q) → ∀ other, c.broker.Refuses other h) ∧
      ((∀ e ∈ later, ¬ (e.settlesWith h = true ∨ e.Leases n q)) →
        c.broker.Settles q h m ∧ ∀ other, other ≠ q → c.broker.Refuses other h)) ∧
    (∀ q h, (∀ n t m, .leased n q t m ∈ c.journal → m.receipt ≠ some h) → c.broker.Refuses q h) ∧
    ∀ q value, c.broker.Refuses q (.text value) := by
  have hs := hc.sound
  refine ⟨?_, settlements_le_one hs.lawful hplain, ?_, fun q h => refuses_not_issued hs hplain,
    refuses_text hs hplain⟩
  · intro q₁ q₂ i₁ i₂ m₁ m₂ h h₁ h₂ hr₁ hr₂
    exact carried_once hs hplain h₁ h₂ hr₁ hr₂
  · intro later n q t m earlier h hj hr
    refine ⟨fun n' q' v m' hset => settled_after_lease hs hplain hj hr hset, ?_, fun hopen => ?_⟩
    · rintro ⟨e, he, hover⟩ other
      exact refuses_when_over hs hplain hj hr he hover other
    · refine ⟨settles_while_open hs hplain hj hr hopen, fun other hne => ?_⟩
      -- A lease of the other queue under this handle would be the same lease.
      refine refuses_not_issued hs hplain fun k t' x hx hxr => hne ?_
      obtain ⟨l', e', hj'⟩ := List.append_of_mem hx
      obtain ⟨-, heq, -⟩ := lease_unique hs.lawful hj hj' hr hxr
      cases heq
      rfl

/-- A run in which a lease lapses and the message is leased again. -/
def lapsedRun : List Move :=
  [.call (.createQueue "work" {}),
    .call (.enqueue ⟨0⟩ (.create (.text "m") "order" [] .first)),
    .call (.receive ⟨0⟩ .first),
    .call (.receive ⟨0⟩ .last)]

/-- In that run the first handle is over, and the second settles the message. -/
theorem one_settlement_per_lease_lapsedRun :
    (∀ other, ((create .standard).run lapsedRun).broker.Refuses other (.generated 0)) ∧
      ∃ m, m.retryCount = 2 ∧
        ((create .standard).run lapsedRun).broker.Settles ⟨0⟩ (.generated 1) m := by
  have hc : ((create .standard).run lapsedRun).Reachable :=
    (Reachable.create .standard).run (by decide)
  have hplain : Plain ((create .standard).run lapsedRun).journal := by decide
  obtain ⟨-, -, hlease, -⟩ := one_settlement_per_lease hc hplain
  refine ⟨?_, ?_⟩
  · obtain ⟨-, hover, -⟩ := hlease [.leased 0 ⟨0⟩ .last _] 0 ⟨0⟩ .first _ _ (.generated 0) rfl rfl
    exact hover ⟨_, List.mem_cons_self, .inr ⟨rfl, rfl⟩⟩
  · obtain ⟨-, -, hopen⟩ := hlease [] 0 ⟨0⟩ .last _ _ (.generated 1) rfl rfl
    exact ⟨_, rfl, (hopen fun e he => absurd he List.not_mem_nil).1⟩

end Chronicle

end MessageBroker
