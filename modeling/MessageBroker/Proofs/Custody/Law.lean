import MessageBroker.Proofs.Custody.Journal

/-!
# Lawful journals

`Entry.Follows` says what the past of an entry must be for it to happen: a lease takes the first
visible item of the queue under a handle that no earlier lease had, a settlement takes the first
item that carries its handle, and a dead letter or a discard follows upon an item that was given
up. A journal whose entries all follow from their pasts is `Lawful`. That the journal of every
broker is lawful is proved with the machine that writes it; here is what follows from it alone.

Main results:
* `leased_or_released`: an item stands as its last lease left it, unless it was released under the
  handle of that lease.
* `lease_unique` and `leased_of_receipt`: a handle is issued once, and where callers put in no
  handles of their own, whoever carries one carries it since that lease.
* `settlements_le_one`: a handle settles once.
* `held_or_ended`: an item is held, or it was acknowledged once, or it was given up once.
-/

namespace MessageBroker.Custody

namespace Entry

/-- The entry is a lease under the handle. -/
def Issues (h : Ident) : Entry → Prop
  | .leased _ _ _ m => m.receipt = some h
  | _ => False

/-- The entry is a settlement with the handle. -/
def settlesWith (h : Ident) : Entry → Bool
  | .settled _ _ h' _ _ => h' = h
  | _ => false

/-- The entry settles the item with that outcome. -/
def settles (n : Nat) (v : Verdict) : Entry → Bool
  | .settled n' _ _ v' _ => n' = n ∧ v' = v
  | _ => false

/-- The entry puts a copy of the item among the dead letters. -/
def copies (n : Nat) : Entry → Bool
  | .stored _ (.deadLetter n') _ => n' = n
  | _ => false

/-- The entry discards the item. -/
def discards (n : Nat) : Entry → Bool
  | .discarded n' => n' = n
  | _ => false

end Entry

/-- The budget of a queue leads to the verdict on a message; an acknowledgement does not ask. -/
def Verdict.Applies (r : QueueRules) (m : Message) : Verdict → Prop
  | .acknowledged => True
  | .released => m.retryCount < r.maxRetries
  | .givenUp => r.maxRetries ≤ m.retryCount

/-- The message is the copy for the dead letters that a queue of those rules makes of another. -/
def IsDeadLetterOf (m : Message) (r : QueueRules) (old : Message) : Prop :=
  ∃ id, m = ((old.fork id).setMetadata Broker.lastQueueKey (.text r.name)).setMetadata
    Broker.failureReasonKey (.text Broker.retriesExceeded)

/-- What the past of an entry must be, under the options of the queues. -/
def Entry.Follows (rules : QueueRef → Option QueueRules) (past : List Entry) : Entry → Prop
  | .stored _ .caller _ => True
  | .stored _ .publication m => m.receipt = none
  | .stored target (.deadLetter n) m => ∃ q h r old, .settled n q h .givenUp old ∈ past ∧
      rules q = some r ∧ r.deadLetters = some target ∧ IsDeadLetterOf m r old
  | .leased n q t m => ∃ r old h,
      first q (·.VisibleAt t) past = some (n, old) ∧ rules q = some r ∧
      m = old.leased h (t.deadline r.visibilityTimeout) ∧
      ∀ e ∈ past, ¬ e.Issues h
  | .settled n q h v m => ∃ r, first q (·.receipt = some h) past = some (n, m) ∧
      rules q = some r ∧ v.Applies r m
  | .discarded n => ∃ q h r m, .settled n q h .givenUp m ∈ past ∧ rules q = some r ∧
      r.deadLetters = none

/-- Every entry of a journal, newest first, follows from its past. -/
def Lawful (rules : QueueRef → Option QueueRules) : List Entry → Prop
  | [] => True
  | e :: past => e.Follows rules past ∧ Lawful rules past

/-- If a caller puts the message in, it has no handle. -/
def Entry.Plain : Entry → Prop
  | .stored _ .caller m => m.receipt = none
  | _ => True

instance : (e : Entry) → Decidable e.Plain
  | .stored _ .caller _ => inferInstanceAs (Decidable (_ = _))
  | .stored _ .publication _ | .stored _ (.deadLetter _) _ | .leased .. | .settled ..
  | .discarded .. => inferInstanceAs (Decidable True)

/-- The callers put in messages without handles. -/
def Plain (j : List Entry) : Prop := ∀ e ∈ j, e.Plain

instance (j : List Entry) : Decidable (Plain j) := inferInstanceAs (Decidable (∀ e ∈ j, e.Plain))

/-- What a plain journal builds on is plain. -/
theorem Plain.past (later : List Entry) {earlier : List Entry} (h : Plain (later ++ earlier)) :
    Plain earlier :=
  fun e he => h e (List.mem_append_right _ he)

section Lawful

variable {rules : QueueRef → Option QueueRules}

/-- What a lawful journal builds on is lawful. -/
theorem Lawful.past {later earlier : List Entry} (h : Lawful rules (later ++ earlier)) :
    Lawful rules earlier := by
  induction later with
  | nil => exact h
  | cons e later ih => exact ih h.2

/-- Each entry of a lawful journal follows from those before it. -/
theorem Lawful.follows {later earlier : List Entry} {e : Entry}
    (h : Lawful rules (later ++ e :: earlier)) : e.Follows rules earlier := h.past.1

/-- Further queues do not make a journal unlawful. -/
theorem Lawful.mono {rules' : QueueRef → Option QueueRules} {j : List Entry}
    (h : Lawful rules j) (hr : ∀ q r, rules q = some r → rules' q = some r) : Lawful rules' j := by
  induction j with
  | nil => trivial
  | cons e past ih =>
    refine ⟨?_, ih h.2⟩
    cases e with
    | stored q o m =>
      cases o with
      | caller => trivial
      | publication => exact h.1
      | deadLetter n =>
        obtain ⟨q', hd, r, old, hs, hq, hrest⟩ := h.1
        exact ⟨q', hd, r, old, hs, hr q' r hq, hrest⟩
    | leased n q t m =>
      obtain ⟨r, old, hd, hf, hq, hrest⟩ := h.1
      exact ⟨r, old, hd, hf, hr q r hq, hrest⟩
    | settled n q hd v m =>
      obtain ⟨r, hf, hq, hv⟩ := h.1
      exact ⟨r, hf, hr q r hq, hv⟩
    | discarded n =>
      obtain ⟨q, hd, r, m, hs, hq, hn⟩ := h.1
      exact ⟨q, hd, r, m, hs, hr q r hq, hn⟩

/-- The item that a lease takes was held, and visible. -/
theorem Entry.Follows.leased {past : List Entry} {n : Nat} {q : QueueRef} {t : Instant}
    {m : Message} (h : (Entry.leased n q t m).Follows rules past) :
    ∃ r old hd, (n, old) ∈ held q past ∧ old.VisibleAt t ∧ rules q = some r ∧
      m = old.leased hd (t.deadline r.visibilityTimeout) ∧ ∀ e ∈ past, ¬ e.Issues hd := by
  obtain ⟨r, old, hd, hf, hq, hm, hnew⟩ := h
  obtain ⟨hmem, hvisible⟩ := mem_of_first hf
  exact ⟨r, old, hd, hmem, hvisible, hq, hm, hnew⟩

/-- The handle of a lease is new. -/
theorem Entry.Follows.not_issued {past : List Entry} {n : Nat} {q : QueueRef} {t : Instant}
    {m : Message} {hd : Ident} (h : (Entry.leased n q t m).Follows rules past)
    (hr : m.receipt = some hd) : ∀ e ∈ past, ¬ e.Issues hd := by
  obtain ⟨r, old, hd', -, -, rfl, hnew⟩ := h
  obtain rfl : hd' = hd := Option.some.inj hr
  exact hnew

/-- The item that a settlement takes was held, and carried the handle. -/
theorem Entry.Follows.settled {past : List Entry} {n : Nat} {q : QueueRef} {hd : Ident}
    {v : Verdict} {m : Message} (h : (Entry.settled n q hd v m).Follows rules past) :
    (n, m) ∈ held q past ∧ m.receipt = some hd ∧ ∃ r, rules q = some r ∧ v.Applies r m := by
  obtain ⟨r, hf, hq, hv⟩ := h
  obtain ⟨hmem, hreceipt⟩ := mem_of_first hf
  exact ⟨hmem, hreceipt, r, hq, hv⟩

/-- Nothing is put in with a handle, where callers put in no handles of their own. -/
theorem Entry.Follows.receipt_eq_none {past : List Entry} {q : QueueRef} {o : Origin} {m : Message}
    (h : (Entry.stored q o m).Follows rules past) (hplain : (Entry.stored q o m).Plain) :
    m.receipt = none := by
  cases o with
  | caller => exact hplain
  | publication => exact h
  | deadLetter n =>
    obtain ⟨-, -, -, old, -, -, -, id, rfl⟩ := h
    rfl

/-! ## Leases -/

/-- Until its next lease, an item stands as its last one left it, unless it was released under the
handle of that lease. -/
theorem leased_or_released {later earlier : List Entry} {n : Nat} {q : QueueRef} {t : Instant}
    {m old : Message} (h : Lawful rules (later ++ .leased n q t m :: earlier))
    (hlast : ∀ e ∈ later, ¬ e.Leases n q)
    (hheld : (n, old) ∈ held q (later ++ .leased n q t m :: earlier)) :
    old = m ∨ ∃ hd m', m.receipt = some hd ∧ .settled n q hd .released m' ∈ later := by
  obtain ⟨-, first, -, hfirst, -⟩ := h.follows.leased
  -- Each later entry leaves the item as it stands or releases it; `mem_act_iff` gives the cases.
  induction later generalizing old with
  | nil =>
    rcases mem_act_iff.mp hheld with ⟨-, hne⟩ | ⟨hn, -⟩ | ⟨t', -, he, -⟩ | ⟨_, _, _, he, -⟩
    · exact absurd ⟨rfl, rfl⟩ hne
    · exact absurd (lt_length_of_mem_held (fst_mem_of_mem hfirst)) (hn ▸ Nat.lt_irrefl _)
    · cases he
      exact .inl rfl
    · cases he
  | cons e later ih =>
    have hrest : ∀ {x}, (n, x) ∈ held q (later ++ .leased n q t m :: earlier) →
        x = m ∨ ∃ hd m', m.receipt = some hd ∧ .settled n q hd .released m' ∈ later :=
      fun hx => ih h.2 (fun x hx => hlast x (List.mem_cons_of_mem _ hx)) hx
    rcases mem_act_iff.mp hheld with
      ⟨hmem, -⟩ | ⟨hn, -⟩ | ⟨t', -, he, -⟩ | ⟨hd, m', m'', he, hmem, -⟩
    · -- The entry is about other items.
      rcases hrest hmem with hm | ⟨hd, m', hr, hs⟩
      · exact .inl hm
      · exact .inr ⟨hd, m', hr, List.mem_cons_of_mem _ hs⟩
    · -- A new item has a number that no earlier one had.
      have hlt := lt_length_of_mem_held (fst_mem_of_mem hfirst)
      have hlen : n = (later ++ .leased n q t m :: earlier).length := hn
      rw [List.length_append, List.length_cons] at hlen
      omega
    · exact absurd ⟨rfl, rfl⟩ (he ▸ hlast e List.mem_cons_self)
    · -- The handle that released it is that of the lease, or it was released before.
      subst he
      obtain ⟨hm', hr', -⟩ := h.1.settled
      rcases hrest hm' with hm | ⟨hd', m₀, hr, hs⟩
      · exact .inr ⟨hd, m', hm ▸ hr', List.mem_cons_self⟩
      · exact .inr ⟨hd', m₀, hr, List.mem_cons_of_mem _ hs⟩

/-- Until its next lease or a settlement with the handle of its last one, an item is held as that
lease left it. -/
theorem held_of_open {later earlier : List Entry} {n : Nat} {q : QueueRef} {t : Instant}
    {m : Message} {hd : Ident} (h : Lawful rules (later ++ .leased n q t m :: earlier))
    (hr : m.receipt = some hd)
    (hopen : ∀ e ∈ later, ¬ (e.settlesWith hd = true ∨ e.Leases n q)) :
    (n, m) ∈ held q (later ++ .leased n q t m :: earlier) := by
  induction later with
  | nil =>
    obtain ⟨-, old, -, hold, -⟩ := h.follows.leased
    exact mem_act_iff.mpr (.inr (.inr (.inl ⟨t, old, rfl, hold⟩)))
  | cons e later ih =>
    have hmem := ih h.2 fun x hx => hopen x (List.mem_cons_of_mem _ hx)
    refine mem_act_iff.mpr (.inl ⟨hmem, fun hc => hopen e List.mem_cons_self ?_⟩)
    cases e with
    | stored | discarded => exact hc.elim
    | leased n' q' t' m' => exact .inr hc
    | settled n' q' hd' v m' =>
      -- It settles the item with the handle that the item carries, which is that of the lease.
      obtain ⟨rfl, rfl⟩ := hc
      obtain ⟨hmem', hr', -⟩ := h.1.settled
      obtain rfl := message_eq_of_mem_held hmem hmem'
      exact .inl (decide_eq_true (Option.some.inj (hr'.symm.trans hr)))

/-- A handle is issued by one lease only. -/
theorem lease_unique {j l₁ e₁ l₂ e₂ : List Entry} {n₁ n₂ : Nat} {q₁ q₂ : QueueRef}
    {t₁ t₂ : Instant} {m₁ m₂ : Message} {hd : Ident} (h : Lawful rules j)
    (h₁ : j = l₁ ++ .leased n₁ q₁ t₁ m₁ :: e₁) (h₂ : j = l₂ ++ .leased n₂ q₂ t₂ m₂ :: e₂)
    (hr₁ : m₁.receipt = some hd) (hr₂ : m₂.receipt = some hd) :
    l₁ = l₂ ∧ Entry.leased n₁ q₁ t₁ m₁ = .leased n₂ q₂ t₂ m₂ ∧ e₁ = e₂ := by
  subst h₁
  -- Both are walked from the newest entry; where the first of them comes, the other is not older.
  induction l₁ generalizing l₂ with
  | nil =>
    cases l₂ with
    | nil =>
      obtain ⟨he, htail⟩ := List.cons.inj h₂
      exact ⟨rfl, he, htail⟩
    | cons x l₂ =>
      obtain ⟨-, htail⟩ := List.cons.inj h₂
      have hmem : .leased n₂ q₂ t₂ m₂ ∈ e₁ := by
        rw [htail]
        exact List.mem_append_right _ List.mem_cons_self
      exact absurd hr₂ (h.1.not_issued hr₁ _ hmem)
  | cons x l₁ ih =>
    cases l₂ with
    | nil =>
      obtain ⟨rfl, -⟩ := List.cons.inj h₂
      have hmem : .leased n₁ q₁ t₁ m₁ ∈ l₁ ++ .leased n₁ q₁ t₁ m₁ :: e₁ :=
        List.mem_append_right _ List.mem_cons_self
      exact absurd hr₁ (h.1.not_issued hr₂ _ hmem)
    | cons y l₂ =>
      obtain ⟨rfl, htail⟩ := List.cons.inj h₂
      obtain ⟨rfl, he, hearlier⟩ := ih h.2 htail
      exact ⟨rfl, he, hearlier⟩

/-! ## Handles -/

/-- What carries a handle carries it since the lease that issued it, where callers put in no handles
of their own. -/
theorem leased_of_receipt {j : List Entry} {n : Nat} {q : QueueRef} {m : Message} {hd : Ident}
    (h : Lawful rules j) (hplain : Plain j) (hheld : (n, m) ∈ held q j)
    (hr : m.receipt = some hd) :
    ∃ later t earlier, j = later ++ .leased n q t m :: earlier ∧
      ∀ e ∈ later, ¬ e.Concerns n q := by
  -- Back to the last entry about the item: that can only be a lease.
  induction j with
  | nil => exact absurd hheld List.not_mem_nil
  | cons e past ih =>
    rcases mem_act_iff.mp hheld with
      ⟨hmem, hother⟩ | ⟨-, o, rfl⟩ | ⟨t, old, rfl, -⟩ | ⟨_, _, old, rfl, -, rfl⟩
    · have hpast : Plain past := Plain.past [e] hplain
      obtain ⟨later, t, earlier, rfl, hlater⟩ := ih h.2 hpast hmem
      refine ⟨e :: later, t, earlier, rfl, fun x hx => ?_⟩
      rcases List.mem_cons.mp hx with rfl | hx
      · exact hother
      · exact hlater x hx
    · rw [h.1.receipt_eq_none (hplain _ List.mem_cons_self)] at hr
      cases hr
    · exact ⟨[], t, past, rfl, fun x hx => absurd hx List.not_mem_nil⟩
    · -- A released item carries no handle.
      cases hr

/-- What was settled with a handle had been leased under it, and was settled as it was leased. -/
theorem leased_of_settled {j : List Entry} {n : Nat} {q : QueueRef} {hd : Ident} {v : Verdict}
    {m : Message} (h : Lawful rules j) (hplain : Plain j) (hset : .settled n q hd v m ∈ j) :
    m.receipt = some hd ∧ ∃ later t earlier, j = later ++ .leased n q t m :: earlier ∧
      .settled n q hd v m ∈ later := by
  obtain ⟨l, e, rfl⟩ := List.append_of_mem hset
  obtain ⟨hheld, hr, -⟩ := h.follows.settled
  have hlaw : Lawful rules (.settled n q hd v m :: e) := h.past
  have hpast : Plain e := Plain.past [.settled n q hd v m] (Plain.past l hplain)
  obtain ⟨later, t, earlier, rfl, -⟩ := leased_of_receipt hlaw.2 hpast hheld hr
  refine ⟨hr, l ++ .settled n q hd v m :: later, t, earlier, ?_, ?_⟩
  · rw [List.append_assoc]
    rfl
  · exact List.mem_append_right _ List.mem_cons_self

/-- A handle that an item carries has not settled anything. -/
theorem not_settled_of_held {j : List Entry} {n : Nat} {q : QueueRef} {m : Message} {hd : Ident}
    (h : Lawful rules j) (hplain : Plain j) (hheld : (n, m) ∈ held q j)
    (hr : m.receipt = some hd) : ∀ e ∈ j, e.settlesWith hd = false := by
  intro e he
  cases e with
  | stored | leased | discarded => rfl
  | settled n' q' hd' v m' =>
    refine decide_eq_false fun hhd => ?_
    subst hhd
    -- The settlement would come after the lease that the item still stands in.
    obtain ⟨hr', later', t', earlier', hj', hset⟩ := leased_of_settled h hplain he
    obtain ⟨later, t, earlier, hj, hlater⟩ := leased_of_receipt h hplain hheld hr
    obtain ⟨rfl, heq, -⟩ := lease_unique h hj hj' hr hr'
    cases heq
    exact hlater _ hset ⟨rfl, rfl⟩

/-- A handle settles at most once. -/
theorem settlements_le_one {j : List Entry} (h : Lawful rules j) (hplain : Plain j) (hd : Ident) :
    j.countP (Entry.settlesWith hd) ≤ 1 := by
  induction j with
  | nil => exact Nat.zero_le 1
  | cons e past ih =>
    have hpast : Plain past := Plain.past [e] hplain
    have hrest := ih h.2 hpast
    cases e with
    | stored | leased | discarded => exact hrest
    | settled n q hd' v m =>
      by_cases hhd : hd' = hd
      · -- The handle was carried until now, so it had not settled anything.
        subst hhd
        obtain ⟨hheld, hr, -⟩ := h.1.settled
        have hzero : past.countP (Entry.settlesWith hd') = 0 := by
          rw [List.countP_eq_zero]
          intro x hx hset
          rw [not_settled_of_held h.2 hpast hheld hr x hx] at hset
          cases hset
        rw [List.countP_cons, hzero]
        split <;> omega
      · rw [List.countP_cons_of_neg (by simpa [Entry.settlesWith] using hhd)]
        exact hrest

/-! ## Where an item is -/

/-- A drop takes every occurrence of one number away. -/
theorem count_drop (n i : Nat) (items : List (Nat × Message)) :
    ((drop i items).map Prod.fst).count n = if n = i then 0 else (items.map Prod.fst).count n := by
  unfold drop
  induction items with
  | nil => split <;> rfl
  | cons item items ih =>
    by_cases hi : item.1 = i
    · rw [List.filter_cons_of_neg (by simpa using hi), ih, List.map_cons, hi]
      split
      · rfl
      · rename_i hne
        rw [List.count_cons_of_ne (Ne.symm hne)]
    · rw [List.filter_cons_of_pos (by simpa using hi), List.map_cons, List.map_cons,
        List.count_cons, List.count_cons, ih]
      split
      · rename_i hn
        rw [if_neg (by simpa [hn] using hi)]
      · rfl

/-- The number of places an item has in a queue. -/
def places (n : Nat) (q : QueueRef) (j : List Entry) : Nat := ((held q j).map Prod.fst).count n

/-- The number of settlements of an item with an outcome. -/
def settlements (n : Nat) (v : Verdict) (j : List Entry) : Nat := j.countP (Entry.settles n v)

/-- One more entry may be one more settlement. -/
theorem settlements_cons (n : Nat) (v : Verdict) (e : Entry) (past : List Entry) :
    settlements n v (e :: past) = settlements n v past + if e.settles n v then 1 else 0 :=
  List.countP_cons

/-- An item has one place in a queue that holds it. -/
theorem places_of_mem {n : Nat} {q : QueueRef} {j : List Entry} {m : Message}
    (h : (n, m) ∈ held q j) : places n q j = 1 := by
  unfold places
  rw [(held_nodup q j).count, if_pos (fst_mem_of_mem h)]

/-- Nothing is settled before it is put in. -/
theorem settlements_eq_zero {j : List Entry} (h : Lawful rules j) {n : Nat} (hn : j.length ≤ n)
    (v : Verdict) : settlements n v j = 0 := by
  unfold settlements
  rw [List.countP_eq_zero]
  intro e he hs
  cases e with
  | stored | leased | discarded => cases hs
  | settled n' q hd v' m =>
    obtain ⟨rfl, rfl⟩ := of_decide_eq_true hs
    obtain ⟨l, earlier, rfl⟩ := List.append_of_mem he
    obtain ⟨hheld, -⟩ := h.follows.settled
    have hlt := lt_length_of_mem_held (fst_mem_of_mem hheld)
    rw [List.length_append, List.length_cons] at hn
    omega

/-- An older item keeps its place, or gives it up by one settlement that ends it. -/
theorem places_cons {e : Entry} {past : List Entry} (h : Lawful rules (e :: past)) {n : Nat}
    {q : QueueRef} (hn : storedIn n past = some q) (hold : n ≠ past.length) :
    places n q (e :: past) + (if e.settles n .acknowledged then 1 else 0) +
      (if e.settles n .givenUp then 1 else 0) = places n q past := by
  unfold places
  rw [held_cons]
  cases e with
  | stored q' o m =>
    simp only [Entry.act, Entry.settles, Bool.false_eq_true, if_false, Nat.add_zero]
    split
    · rw [List.map_append, List.count_append, List.map_singleton, List.count_singleton,
        if_neg (by simpa using Ne.symm hold), Nat.add_zero]
    · rfl
  | leased n' q' t m =>
    simp only [Entry.act, Entry.settles, Bool.false_eq_true, if_false, Nat.add_zero]
    split
    · rw [map_fst_update]
    · rfl
  | settled n' q' hd v m =>
    by_cases hnn : n' = n
    · -- The item is settled, and it was in its place before.
      subst hnn
      obtain ⟨hheld, -⟩ := h.1.settled
      have hq := storedIn_of_mem_held (fst_mem_of_mem hheld)
      rw [hn] at hq
      obtain rfl := Option.some.inj hq
      -- A drop takes away its only place; a release leaves it.
      have hone : ((held q past).map Prod.fst).count n' = 1 := places_of_mem hheld
      cases v <;> simp [Entry.act, Verdict.act, Entry.settles, count_drop, map_fst_update, hone]
    · simp only [Entry.act, Entry.settles, hnn, false_and, decide_false, Bool.false_eq_true,
        if_false, Nat.add_zero]
      split
      · cases v with
        | released => simp only [Verdict.act, map_fst_update]
        | acknowledged | givenUp =>
          simp only [Verdict.act, count_drop]
          rw [if_neg (Ne.symm hnn)]
      · rfl
  | discarded n' => rfl

/-- An item that was put in a queue is in one place there, or was acknowledged once, or given up
once. -/
theorem held_or_ended {j : List Entry} (h : Lawful rules j) {n : Nat} {q : QueueRef}
    (hn : storedIn n j = some q) :
    places n q j + settlements n .acknowledged j + settlements n .givenUp j = 1 := by
  induction j with
  | nil => cases hn
  | cons e past ih =>
    rw [settlements_cons, settlements_cons]
    unfold storedIn at hn
    split at hn
    · -- The item is new, and no settlement can have been about it.
      rename_i hlen
      have hack := settlements_eq_zero h.2 (Nat.le_of_eq hlen.symm) .acknowledged
      have hgive := settlements_eq_zero h.2 (Nat.le_of_eq hlen.symm) .givenUp
      cases e with
      | leased | settled | discarded => cases hn
      | stored q' o m =>
        obtain rfl := Option.some.inj hn
        have hheld : (n, m) ∈ held q' (.stored q' o m :: past) :=
          mem_act_iff.mpr (.inr (.inl ⟨hlen, o, rfl⟩))
        rw [places_of_mem hheld, hack, hgive]
        rfl
    · rename_i hold
      have hpast := ih h.2 hn
      have hstep := places_cons h hn hold
      omega

end Lawful

end MessageBroker.Custody
