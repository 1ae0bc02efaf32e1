import MessageBroker.Proofs.Broker.Objects

/-!
# The journal of a broker

Two messages in a queue can be equal, so what happens to one of them cannot be told from the queue
alone. A journal tells it: each message put in a queue becomes an *item*, whose number is the length
of the journal at that time, and every later entry names the item it is about. `held` replays a
journal, newest entry first: it gives the items that a queue holds, in order, each with its message
as it stands.

What one entry does to a queue is `Entry.act`, and `mem_act_iff` says when an item stands in the
queue after it. The results about whole journals follow by induction: a queue holds its items in
the order of their numbers (`held_increasing`), and an item stays in the queue it was put in
(`storedIn_of_mem_held`).
-/

namespace MessageBroker.Custody

/-- Where a message that is put in a queue comes from. -/
inductive Origin where
  /-- A caller puts it in. -/
  | caller
  /-- It is a copy for a subscriber of a message that was published. -/
  | publication
  /-- It is a copy of an item that was given up. -/
  | deadLetter (item : Nat)
deriving DecidableEq

/-- What came of a settlement that was accepted. -/
inductive Verdict where
  | acknowledged
  | released
  | givenUp
deriving DecidableEq

/-- Something that happened to the messages of a broker. -/
inductive Entry where
  /-- A message was put in a queue: a new item. -/
  | stored (queue : QueueRef) (origin : Origin) (message : Message)
  /-- An item was leased at a reading of the clock; `message` is what `receive` returned. -/
  | leased (item : Nat) (queue : QueueRef) (reading : Instant) (message : Message)
  /-- An item was settled with a handle; `message` is as it stood before. -/
  | settled (item : Nat) (queue : QueueRef) (handle : Ident) (verdict : Verdict)
      (message : Message)
  /-- An item that was given up was dropped, since its queue has no queue for dead letters. -/
  | discarded (item : Nat)
deriving DecidableEq

namespace Entry

/-- The entry is a lease or a settlement of an item of the queue. -/
def Concerns (n : Nat) (q : QueueRef) : Entry → Prop
  | .leased n' q' _ _ | .settled n' q' _ _ _ => n' = n ∧ q' = q
  | _ => False

/-- The entry is a lease of an item of the queue. -/
def Leases (n : Nat) (q : QueueRef) : Entry → Prop
  | .leased n' q' _ _ => n' = n ∧ q' = q
  | _ => False

instance (n : Nat) (q : QueueRef) : (e : Entry) → Decidable (e.Leases n q)
  | .leased .. => inferInstanceAs (Decidable (_ ∧ _))
  | .stored .. | .settled .. | .discarded .. => inferInstanceAs (Decidable False)

end Entry

/-! ## Replaying a journal -/

/-- Changes the message of an item. -/
def update (n : Nat) (f : Message → Message) (items : List (Nat × Message)) :
    List (Nat × Message) :=
  items.map fun item => if item.1 = n then (n, f item.2) else item

/-- Takes an item out. -/
def drop (n : Nat) (items : List (Nat × Message)) : List (Nat × Message) :=
  items.filter fun item => item.1 ≠ n

/-- What a settlement does to the items of its queue. -/
def Verdict.act (n : Nat) (items : List (Nat × Message)) : Verdict → List (Nat × Message)
  | .released => update n Message.released items
  | .acknowledged | .givenUp => drop n items

/-- What an entry does to the items of a queue; `k` is the number of a new item. -/
def Entry.act (q : QueueRef) (k : Nat) (items : List (Nat × Message)) :
    Entry → List (Nat × Message)
  | .stored q' _ m => if q' = q then items ++ [(k, m)] else items
  | .leased n q' _ m => if q' = q then update n (fun _ => m) items else items
  | .settled n q' _ v _ => if q' = q then v.act n items else items
  | .discarded _ => items

/-- The items that a queue holds after a journal, newest entry first: their numbers, and their
messages as they stand. -/
def held (q : QueueRef) : List Entry → List (Nat × Message)
  | [] => []
  | e :: past => e.act q past.length (held q past)

/-- The first item that a queue holds whose message has a property. -/
def first (q : QueueRef) (p : Message → Prop) [DecidablePred p] (j : List Entry) :
    Option (Nat × Message) :=
  (held q j).find? fun item => p item.2

/-- The queue that an item was put in. -/
def storedIn (n : Nat) : List Entry → Option QueueRef
  | [] => none
  | e :: past =>
    if n = past.length then
      match e with
      | .stored q _ _ => some q
      | _ => none
    else storedIn n past

/-- One more entry acts on what was held. -/
theorem held_cons (q : QueueRef) (e : Entry) (past : List Entry) :
    held q (e :: past) = e.act q past.length (held q past) := rfl

/-- The first item with a property splits the queue. -/
theorem first_eq_some_iff {q : QueueRef} {p : Message → Prop} [DecidablePred p] {j : List Entry}
    {n : Nat} {m : Message} : first q p j = some (n, m) ↔
      p m ∧ ∃ before after, held q j = before ++ (n, m) :: after ∧ ∀ x ∈ before, ¬ p x.2 := by
  unfold first
  rw [List.find?_eq_some_iff_append]
  simp

/-- The first item with a property is held and has it. -/
theorem mem_of_first {q : QueueRef} {p : Message → Prop} [DecidablePred p] {j : List Entry}
    {n : Nat} {m : Message} (h : first q p j = some (n, m)) : (n, m) ∈ held q j ∧ p m := by
  obtain ⟨hp, before, after, hs, -⟩ := first_eq_some_iff.mp h
  rw [hs]
  exact ⟨List.mem_append_right _ List.mem_cons_self, hp⟩

/-! ## What one entry does -/

/-- An update changes one message. -/
theorem mem_update_iff {n i : Nat} {f : Message → Message} {items : List (Nat × Message)}
    {m : Message} : (n, m) ∈ update i f items ↔
      (n, m) ∈ items ∧ n ≠ i ∨ n = i ∧ ∃ old, (n, old) ∈ items ∧ m = f old := by
  unfold update
  rw [List.mem_map]
  constructor
  · rintro ⟨⟨k, old⟩, hmem, he⟩
    dsimp only at he
    split at he
    · rename_i hk
      obtain ⟨rfl, rfl⟩ := Prod.mk.inj he
      exact .inr ⟨rfl, old, hk ▸ hmem, rfl⟩
    · rename_i hk
      obtain ⟨rfl, rfl⟩ := Prod.mk.inj he
      exact .inl ⟨hmem, hk⟩
  · rintro (⟨hmem, hne⟩ | ⟨rfl, old, hmem, rfl⟩)
    · exact ⟨(n, m), hmem, if_neg hne⟩
    · exact ⟨(n, old), hmem, if_pos rfl⟩

/-- A drop takes one item out. -/
theorem mem_drop_iff {n i : Nat} {items : List (Nat × Message)} {m : Message} :
    (n, m) ∈ drop i items ↔ (n, m) ∈ items ∧ n ≠ i := by
  unfold drop
  rw [List.mem_filter, decide_eq_true_iff]

/-- An item stands in a queue with a message after an entry if it did before and the entry is not
about it, or if the entry puts it in, leases it so, or releases it. -/
theorem mem_act_iff {q : QueueRef} {k n : Nat} {items : List (Nat × Message)} {e : Entry}
    {m : Message} : (n, m) ∈ e.act q k items ↔
      (n, m) ∈ items ∧ ¬ e.Concerns n q ∨
      n = k ∧ (∃ o, e = .stored q o m) ∨
      (∃ t old, e = .leased n q t m ∧ (n, old) ∈ items) ∨
      ∃ h m' old, e = .settled n q h .released m' ∧ (n, old) ∈ items ∧ m = old.released := by
  cases e with
  | stored q' o m' =>
    by_cases hq : q' = q
    · simp [Entry.act, Entry.Concerns, hq, and_comm, eq_comm]
    · simp [Entry.act, Entry.Concerns, hq]
  | leased i q' t m' =>
    by_cases hq : q' = q
    · subst hq
      simp only [Entry.act, Entry.Concerns, if_true, mem_update_iff]
      constructor
      · rintro (⟨hmem, hne⟩ | ⟨rfl, old, hmem, rfl⟩)
        · exact .inl ⟨hmem, fun hc => hne hc.1.symm⟩
        · exact .inr (.inr (.inl ⟨t, old, rfl, hmem⟩))
      · rintro (⟨hmem, hne⟩ | ⟨-, o, ho⟩ | ⟨t', old, he, hmem⟩ | ⟨h, m'', old, he, -⟩)
        · exact .inl ⟨hmem, fun hn => hne ⟨hn.symm, trivial⟩⟩
        · cases ho
        · cases he
          exact .inr ⟨rfl, old, hmem, rfl⟩
        · cases he
    · simp [Entry.act, Entry.Concerns, hq]
  | settled i q' h v m' =>
    by_cases hq : q' = q
    · subst hq
      simp only [Entry.act, Entry.Concerns, if_true]
      cases v with
      | released =>
        simp only [Verdict.act, mem_update_iff]
        constructor
        · rintro (⟨hmem, hne⟩ | ⟨rfl, old, hmem, rfl⟩)
          · exact .inl ⟨hmem, fun hc => hne hc.1.symm⟩
          · exact .inr (.inr (.inr ⟨h, m', old, rfl, hmem, rfl⟩))
        · rintro (⟨hmem, hne⟩ | ⟨-, o, ho⟩ | ⟨t', old, he, hmem⟩ | ⟨h', m'', old, he, hmem, rfl⟩)
          · exact .inl ⟨hmem, fun hn => hne ⟨hn.symm, trivial⟩⟩
          · cases ho
          · cases he
          · cases he
            exact .inr ⟨rfl, old, hmem, rfl⟩
      | acknowledged | givenUp =>
        simp [Verdict.act, mem_drop_iff, eq_comm]
    · simp [Entry.act, Entry.Concerns, hq]
  | discarded i => simp [Entry.act, Entry.Concerns]

/-- An update keeps the numbers. -/
theorem map_fst_update (n : Nat) (f : Message → Message) (items : List (Nat × Message)) :
    (update n f items).map Prod.fst = items.map Prod.fst := by
  unfold update
  rw [List.map_map]
  apply List.map_congr_left
  intro item _
  show (if item.1 = n then (n, f item.2) else item).1 = item.1
  split
  · rename_i he
    exact he.symm
  · rfl

/-- A drop keeps the order of the numbers. -/
theorem map_fst_drop_sublist (n : Nat) (items : List (Nat × Message)) :
    ((drop n items).map Prod.fst).Sublist (items.map Prod.fst) :=
  List.filter_sublist.map _

/-- An entry takes some numbers away, or adds that of the item it puts in. -/
theorem map_fst_act (q : QueueRef) (k : Nat) (items : List (Nat × Message)) (e : Entry) :
    ((e.act q k items).map Prod.fst).Sublist (items.map Prod.fst) ∨
      (∃ o m, e = .stored q o m) ∧
        (e.act q k items).map Prod.fst = items.map Prod.fst ++ [k] := by
  cases e with
  | stored q' o m =>
    simp only [Entry.act]
    split
    · rename_i he
      exact .inr ⟨⟨o, m, by rw [he]⟩, List.map_append⟩
    · exact .inl (List.Sublist.refl _)
  | leased n q' t m =>
    left
    simp only [Entry.act]
    split
    · have hnumbers := map_fst_update n (fun _ => m) items
      exact hnumbers ▸ List.Sublist.refl _
    · exact List.Sublist.refl _
  | settled n q' h v m =>
    left
    simp only [Entry.act]
    split
    · cases v with
      | released =>
        have hnumbers := map_fst_update n Message.released items
        exact hnumbers ▸ List.Sublist.refl _
      | acknowledged | givenUp => exact map_fst_drop_sublist n items
    · exact List.Sublist.refl _
  | discarded n => exact .inl (List.Sublist.refl _)

/-! ## Items keep their number and their place -/

/-- What a queue holds names its item. -/
theorem fst_mem_of_mem {items : List (Nat × Message)} {n : Nat} {m : Message}
    (h : (n, m) ∈ items) : n ∈ items.map Prod.fst :=
  List.mem_map.mpr ⟨(n, m), h, rfl⟩

/-- An item's number is below the length of the journal. -/
theorem lt_length_of_mem_held {q : QueueRef} {j : List Entry} {n : Nat}
    (h : n ∈ (held q j).map Prod.fst) : n < j.length := by
  induction j with
  | nil => exact absurd h List.not_mem_nil
  | cons e past ih =>
    rw [List.length_cons]
    rw [held_cons] at h
    rcases map_fst_act q past.length (held q past) e with hs | ⟨-, he⟩
    · exact Nat.lt_succ_of_lt (ih (hs.subset h))
    · rw [he] at h
      rcases List.mem_append.mp h with h | h
      · exact Nat.lt_succ_of_lt (ih h)
      · rw [List.mem_singleton.mp h]
        exact Nat.lt_succ_self _

/-- A queue holds its items in the order in which they were put in. -/
theorem held_increasing (q : QueueRef) (j : List Entry) :
    ((held q j).map Prod.fst).Pairwise (· < ·) := by
  induction j with
  | nil => exact List.Pairwise.nil
  | cons e past ih =>
    rw [held_cons]
    rcases map_fst_act q past.length (held q past) e with hs | ⟨-, he⟩
    · exact ih.sublist hs
    · -- The new item has the largest number so far, and stands last.
      rw [he, List.pairwise_append]
      refine ⟨ih, List.pairwise_singleton _ _, fun a ha b hb => ?_⟩
      rw [List.mem_singleton.mp hb]
      exact lt_length_of_mem_held ha

/-- No item stands in a queue twice. -/
theorem held_nodup (q : QueueRef) (j : List Entry) : ((held q j).map Prod.fst).Nodup :=
  (held_increasing q j).imp Nat.ne_of_lt

/-- An item is held by no queue but the one it was put in. -/
theorem storedIn_of_mem_held {q : QueueRef} {j : List Entry} {n : Nat}
    (h : n ∈ (held q j).map Prod.fst) : storedIn n j = some q := by
  induction j with
  | nil => exact absurd h List.not_mem_nil
  | cons e past ih =>
    rw [held_cons] at h
    -- An older item has a number below that of the entry.
    have hold : n ∈ (held q past).map Prod.fst → storedIn n (e :: past) = some q := by
      intro hpast
      unfold storedIn
      rw [if_neg (Nat.ne_of_lt (lt_length_of_mem_held hpast))]
      exact ih hpast
    rcases map_fst_act q past.length (held q past) e with hs | ⟨⟨o, m, rfl⟩, he⟩
    · exact hold (hs.subset h)
    · rw [he] at h
      rcases List.mem_append.mp h with h | h
      · exact hold h
      · unfold storedIn
        rw [if_pos (List.mem_singleton.mp h)]

/-- An item that two queues hold is held by one queue. -/
theorem queue_eq_of_mem_held {q q' : QueueRef} {j : List Entry} {n : Nat} {m m' : Message}
    (h : (n, m) ∈ held q j) (h' : (n, m') ∈ held q' j) : q = q' := by
  have hq := storedIn_of_mem_held (fst_mem_of_mem h)
  have hq' := storedIn_of_mem_held (fst_mem_of_mem h')
  rw [hq] at hq'
  exact Option.some.inj hq'

/-- The parts of a queue on both sides of an item do not contain its number. -/
theorem ne_of_held_split {q : QueueRef} {j : List Entry} {before after : List (Nat × Message)}
    {n : Nat} {m : Message} (h : held q j = before ++ (n, m) :: after) :
    ∀ x ∈ before ++ after, x.1 ≠ n := by
  have hnodup := held_nodup q j
  rw [h, List.map_append, List.map_cons, List.perm_middle.nodup_iff, ← List.map_append,
    List.nodup_cons] at hnodup
  intro x hx hn
  exact hnodup.1 (List.mem_map.mpr ⟨x, hx, hn⟩)

/-- A queue holds an item with one message. -/
theorem message_eq_of_mem_held {q : QueueRef} {j : List Entry} {n : Nat} {m m' : Message}
    (h : (n, m) ∈ held q j) (h' : (n, m') ∈ held q j) : m' = m := by
  obtain ⟨before, after, hs⟩ := List.append_of_mem h
  rw [hs] at h'
  rcases List.mem_append.mp h' with hmem | hmem
  · exact absurd rfl (ne_of_held_split hs _ (List.mem_append_left _ hmem))
  · rcases List.mem_cons.mp hmem with he | hmem
    · exact (Prod.mk.inj he).2
    · exact absurd rfl (ne_of_held_split hs _ (List.mem_append_right _ hmem))

/-! ## Changing one item where it stands -/

section Split

variable {n : Nat} {m : Message} {before after : List (Nat × Message)}

/-- An update leaves the other items alone. -/
theorem update_append (h : ∀ x ∈ before ++ after, x.1 ≠ n) (f : Message → Message) :
    update n f (before ++ (n, m) :: after) = before ++ (n, f m) :: after := by
  -- On a list without the item, an update is the identity.
  have hid : ∀ items : List (Nat × Message), (∀ x ∈ items, x.1 ≠ n) → update n f items = items := by
    intro items hne
    refine (List.map_congr_left fun x hx => ?_).trans (List.map_id items)
    exact if_neg (hne x hx)
  have hbefore := hid before fun x hx => h x (List.mem_append_left _ hx)
  have hafter := hid after fun x hx => h x (List.mem_append_right _ hx)
  unfold update at *
  rw [List.map_append, List.map_cons, hbefore, hafter, if_pos rfl]

/-- A drop leaves the other items alone. -/
theorem drop_append (h : ∀ x ∈ before ++ after, x.1 ≠ n) :
    drop n (before ++ (n, m) :: after) = before ++ after := by
  unfold drop
  rw [List.filter_append, List.filter_cons_of_neg (by simp), ← List.filter_append]
  exact List.filter_eq_self.mpr fun x hx => decide_eq_true (h x hx)

variable {q : QueueRef} {j : List Entry} (hs : held q j = before ++ (n, m) :: after)
include hs

/-- A lease changes one message where it stands. -/
theorem held_leased (t : Instant) (m' : Message) :
    held q (.leased n q t m' :: j) = before ++ (n, m') :: after := by
  rw [held_cons, Entry.act, if_pos rfl, hs, update_append (ne_of_held_split hs)]

/-- A release changes one message where it stands. -/
theorem held_released (hd : Ident) (m' : Message) :
    held q (.settled n q hd .released m' :: j) = before ++ (n, m.released) :: after := by
  rw [held_cons, Entry.act, if_pos rfl, hs, Verdict.act, update_append (ne_of_held_split hs)]

/-- Every other settlement takes one item out. -/
theorem held_ended (hd : Ident) {v : Verdict} (hv : v ≠ .released) (m' : Message) :
    held q (.settled n q hd v m' :: j) = before ++ after := by
  have hact : v.act n (held q j) = drop n (held q j) := by
    cases v with
    | released => exact absurd rfl hv
    | acknowledged | givenUp => rfl
  rw [held_cons, Entry.act, if_pos rfl, hact, hs, drop_append (ne_of_held_split hs)]

end Split

end MessageBroker.Custody
