import MessageBroker.Proofs.Custody.Accounting

/-!
# Where an item comes from

Every item of a journal was put in by a caller, directly or as a copy of a publication, or it is the
dead letter of an older item. A *register* lists what the callers handed in (`Supply`), each with
the number of the item that it became. `Descends` follows an item back to that list, from dead
letter to dead letter, and collects the names of the queues that gave it up on the way (`Descent`).

What a descent makes of the caller's message is known: `Descent.Yields` gives all of it but the
delivery state, and `Descent.Describes` reads it key by key. If the register is kept with the
journal (`Kept`), then every item that a queue holds has exactly one descent, and is what that
yields (`Kept.descent_of_held`).
-/

namespace MessageBroker.Custody

open Broker

/-! ## Descents -/

/-- What a caller handed in for one item. -/
inductive Supply where
  /-- A message that was put in a queue directly. -/
  | enqueued (message : Message)
  /-- A message that was published: with the name of the topic, and the delivery id with which the
  fan-out stamped this copy. -/
  | published (topic : String) (message : Message) (delivery : Ident)
deriving DecidableEq

namespace Supply

/-- The message as the caller handed it in. -/
def message : Supply → Message
  | .enqueued m | .published _ m _ => m

/-- Where the journal says that the item comes from. -/
def origin : Supply → Origin
  | .enqueued _ => .caller
  | .published .. => .publication

/-- The metadata with which the item is put in. -/
def metadata : Supply → NameTable Ident
  | .enqueued m => m.metadata
  | .published topic m delivery =>
    (m.metadata.insert sourceTopicKey (.text topic)).insert deliveryIdKey delivery

end Supply

/-- How an item descends from what a caller handed in. -/
structure Descent where
  /-- The item that the caller's message became. -/
  root : Nat
  supply : Supply
  /-- The names of the queues that gave it up since, last one first. -/
  givenUpBy : List String

/-- The metadata keys under which the broker makes entries. -/
def brokerKeys : List String := [sourceTopicKey, deliveryIdKey, lastQueueKey, failureReasonKey]

namespace Descent

/-- The descent of the dead letter for an item that a queue of that name gave up. -/
def through (d : Descent) (queue : String) : Descent :=
  { d with givenUpBy := queue :: d.givenUpBy }

/-- The metadata of the item: those it was put in with, under the marks of the queues that gave it
up. -/
def metadata (d : Descent) : NameTable Ident :=
  d.givenUpBy.foldr (fun queue table => (table.insert lastQueueKey (.text queue)).insert
    failureReasonKey (.text retriesExceeded)) d.supply.metadata

/-- The message is what the descent makes of the caller's: its type, payload and time of creation
are those of the caller's message, and its metadata are known. -/
structure Yields (d : Descent) (m : Message) : Prop where
  kind : m.kind = d.supply.message.kind
  payload : m.payload = d.supply.message.payload
  createdAt : m.createdAt = d.supply.message.createdAt
  metadata : m.metadata = d.metadata

/-- What the descent says of the message, key by key: the entries of the caller are kept, a
publication has left its topic and its stamp, and the last queue that gave the message up its name
and its reason. -/
structure Describes (d : Descent) (m : Message) : Prop extends d.Yields m where
  others : ∀ key ∉ brokerKeys, m.metadata.find? key = d.supply.message.metadata.find? key
  published : ∀ topic message delivery, d.supply = .published topic message delivery →
    m.metadata.find? sourceTopicKey = some (.text topic) ∧
      m.metadata.find? deliveryIdKey = some delivery
  givenUp : ∀ queue earlier, d.givenUpBy = queue :: earlier →
    m.metadata.find? lastQueueKey = some (.text queue) ∧
      m.metadata.find? failureReasonKey = some (.text retriesExceeded)

variable {d : Descent} {m old : Message}

/-- The marks of the queues leave all keys but theirs alone. -/
theorem find?_metadata {key : String} (hlast : key ≠ lastQueueKey)
    (hreason : key ≠ failureReasonKey) :
    d.metadata.find? key = d.supply.metadata.find? key := by
  obtain ⟨root, supply, queues⟩ := d
  unfold metadata
  induction queues with
  | nil => rfl
  | cons queue queues ih =>
    rw [List.foldr_cons, NameTable.find?_insert_ne _ hreason, NameTable.find?_insert_ne _ hlast]
    exact ih

/-- What is known of the whole envelope is known key by key. -/
theorem Yields.describes (h : d.Yields m) : d.Describes m := by
  refine ⟨h, ?_, ?_, ?_⟩
  · intro key hkey
    simp only [brokerKeys, List.mem_cons, List.not_mem_nil, or_false, not_or] at hkey
    obtain ⟨hsource, hdelivery, hlast, hreason⟩ := hkey
    rw [h.metadata, find?_metadata hlast hreason]
    cases d.supply with
    | enqueued message => rfl
    | published topic message delivery =>
      calc ((message.metadata.insert sourceTopicKey (.text topic)).insert deliveryIdKey
              delivery).find? key
          = (message.metadata.insert sourceTopicKey (.text topic)).find? key :=
            NameTable.find?_insert_ne _ hdelivery _
        _ = message.metadata.find? key := NameTable.find?_insert_ne _ hsource _
  · intro topic message delivery hs
    rw [h.metadata, find?_metadata (by decide) (by decide), find?_metadata (by decide) (by decide),
      hs, Supply.metadata, NameTable.find?_insert_ne _ (by decide)]
    exact ⟨NameTable.find?_insert_self _ _ _, NameTable.find?_insert_self _ _ _⟩
  · intro queue earlier hq
    rw [h.metadata, Descent.metadata, hq, List.foldr_cons, NameTable.find?_insert_ne _ (by decide)]
    exact ⟨NameTable.find?_insert_self _ _ _, NameTable.find?_insert_self _ _ _⟩

/-- The delivery state does not matter. -/
theorem Yields.of_bare (h : d.Yields old) (hm : m.bare = old.bare) : d.Yields m := by
  have hkind : m.kind = old.kind := (congrArg Message.kind hm :)
  have hpayload : m.payload = old.payload := (congrArg Message.payload hm :)
  have hcreated : m.createdAt = old.createdAt := (congrArg Message.createdAt hm :)
  have hmetadata : m.metadata = old.metadata := (congrArg Message.metadata hm :)
  exact ⟨hkind.trans h.kind, hpayload.trans h.payload, hcreated.trans h.createdAt,
    hmetadata.trans h.metadata⟩

/-- A dead letter is what the longer descent yields. -/
theorem Yields.through {r : QueueRules} (h : d.Yields old) (hm : IsDeadLetterOf m r old) :
    (d.through r.name).Yields m := by
  obtain ⟨id, rfl⟩ := hm
  refine ⟨h.kind, h.payload, h.createdAt, ?_⟩
  show (old.metadata.insert _ _).insert _ _ = (d.metadata.insert _ _).insert _ _
  rw [h.metadata]

end Descent

/-! ## How items were put in -/

/-- The item was put in a queue with that origin and that message. -/
def StoredAs (n : Nat) (q : QueueRef) (o : Origin) (m : Message) (j : List Entry) : Prop :=
  ∃ later earlier, j = later ++ .stored q o m :: earlier ∧ earlier.length = n

section StoredAs

variable {n : Nat} {q : QueueRef} {o : Origin} {m : Message} {j : List Entry}

/-- The last entry puts the item in, or an earlier one does. -/
theorem storedAs_cons_iff {e : Entry} :
    StoredAs n q o m (e :: j) ↔ (j.length = n ∧ e = .stored q o m) ∨ StoredAs n q o m j := by
  constructor
  · rintro ⟨later, earlier, hj, hn⟩
    cases later with
    | nil =>
      obtain ⟨he, rfl⟩ := List.cons.inj hj
      exact .inl ⟨hn, he⟩
    | cons x later =>
      obtain ⟨-, rfl⟩ := List.cons.inj hj
      exact .inr ⟨later, earlier, rfl, hn⟩
  · rintro (⟨hn, rfl⟩ | ⟨later, earlier, rfl, hn⟩)
    · exact ⟨[], j, rfl, hn⟩
    · exact ⟨e :: later, earlier, rfl, hn⟩

/-- An item that was put in is older than the journal is long. -/
theorem StoredAs.lt_length (h : StoredAs n q o m j) : n < j.length := by
  obtain ⟨later, earlier, rfl, rfl⟩ := h
  rw [List.length_append, List.length_cons]
  omega

/-- An item was put in once. -/
theorem StoredAs.unique {q' : QueueRef} {o' : Origin} {m' : Message} (h : StoredAs n q o m j)
    (h' : StoredAs n q' o' m' j) : q = q' ∧ o = o' ∧ m = m' := by
  obtain ⟨later, earlier, rfl, hn⟩ := h
  obtain ⟨later', earlier', hj, hn'⟩ := h'
  have hlen : (Entry.stored q o m :: earlier).length = (Entry.stored q' o' m' :: earlier').length :=
    congrArg (· + 1) (hn.trans hn'.symm)
  obtain ⟨-, htail⟩ := List.append_inj' hj hlen
  cases htail
  exact ⟨rfl, rfl, rfl⟩

/-- What was put in earlier was put in. -/
theorem StoredAs.append (h : StoredAs n q o m j) (later : List Entry) :
    StoredAs n q o m (later ++ j) := by
  obtain ⟨l, earlier, rfl, hn⟩ := h
  exact ⟨later ++ l, earlier, (List.append_assoc _ _ _).symm, hn⟩

/-- An item that is held stands as it was put in, but for its delivery state. -/
theorem Lawful.storedAs_of_held {rules : QueueRef → Option QueueRules} (h : Lawful rules j)
    (hm : (n, m) ∈ held q j) : ∃ o m₀, StoredAs n q o m₀ j ∧ m.bare = m₀.bare := by
  -- Back to the entry that put it in; `mem_act_iff` gives what each entry can do to it.
  induction j generalizing m with
  | nil => exact absurd hm List.not_mem_nil
  | cons e past ih =>
    rcases mem_act_iff.mp hm with
      ⟨hmem, -⟩ | ⟨hn, o, rfl⟩ | ⟨t, -, rfl, -⟩ | ⟨hd, m', old, rfl, hmem, rfl⟩
    · obtain ⟨o, m₀, hstored, hsame⟩ := ih h.2 hmem
      exact ⟨o, m₀, hstored.append [e], hsame⟩
    · exact ⟨o, m, ⟨[], past, rfl, hn.symm⟩, rfl⟩
    · -- A lease changes nothing else.
      obtain ⟨r, old, hd, hold, -, -, rfl, -⟩ := h.1.leased
      obtain ⟨o, m₀, hstored, hsame⟩ := ih h.2 hold
      exact ⟨o, m₀, hstored.append [_], (old.bare_leased hd _).trans hsame⟩
    · -- Nor does a release.
      obtain ⟨o, m₀, hstored, hsame⟩ := ih h.2 hmem
      exact ⟨o, m₀, hstored.append [_], old.bare_released.trans hsame⟩

/-- An item that was settled stood as it was put in, but for its delivery state. -/
theorem Lawful.storedAs_of_settled {rules : QueueRef → Option QueueRules} (h : Lawful rules j)
    {hd : Ident} {v : Verdict} (hm : .settled n q hd v m ∈ j) :
    ∃ o m₀, StoredAs n q o m₀ j ∧ m.bare = m₀.bare := by
  obtain ⟨later, earlier, rfl⟩ := List.append_of_mem hm
  have hpast : Lawful rules (.settled n q hd v m :: earlier) := h.past
  obtain ⟨o, m₀, hstored, hsame⟩ := hpast.2.storedAs_of_held hpast.1.settled.1
  exact ⟨o, m₀, (hstored.append [_]).append later, hsame⟩

end StoredAs

/-! ## Following an item back -/

/-- The item has that descent: it was handed in by a caller, or it is the dead letter of an item
that has the rest of that descent, and that was given up by a queue of that name. -/
inductive Descends (rules : QueueRef → Option QueueRules) (register : List (Nat × Supply))
    (j : List Entry) : Nat → Descent → Prop
  | supplied {n : Nat} {s : Supply} : (n, s) ∈ register → Descends rules register j n ⟨n, s, []⟩
  | copied {n i : Nat} {d : Descent} {q target : QueueRef} {m old : Message} {hd : Ident}
      {r : QueueRules} : StoredAs n target (.deadLetter i) m j →
      .settled i q hd .givenUp old ∈ j → rules q = some r → Descends rules register j i d →
      Descends rules register j n (d.through r.name)

/-- A descent goes back to what is registered. -/
theorem Descends.mem_register {rules : QueueRef → Option QueueRules}
    {register : List (Nat × Supply)} {j : List Entry} {n : Nat} {d : Descent}
    (h : Descends rules register j n d) : (d.root, d.supply) ∈ register := by
  induction h with
  | supplied hs => exact hs
  | copied _ _ _ _ ih => exact ih

/-- The register is kept with the journal: it lists the items that callers handed in, newest first,
and each was put in as what was handed in says. Nothing was put in without an id. -/
inductive Kept : List Entry → List (Nat × Supply) → Prop
  | empty : Kept [] []
  | supplied {j : List Entry} {register : List (Nat × Supply)} {q : QueueRef} {s : Supply}
      {m : Message} : Kept j register → Descent.Yields ⟨j.length, s, []⟩ m → m.id ≠ .blank →
      Kept (.stored q s.origin m :: j) ((j.length, s) :: register)
  | copied {j : List Entry} {register : List (Nat × Supply)} {q : QueueRef} {i : Nat}
      {m : Message} : Kept j register → m.id ≠ .blank →
      Kept (.stored q (.deadLetter i) m :: j) register
  | handled {j : List Entry} {register : List (Nat × Supply)} {e : Entry} : Kept j register →
      (∀ q o m, e ≠ .stored q o m) → Kept (e :: j) register

namespace Kept

variable {j : List Entry} {register : List (Nat × Supply)} {n : Nat} (h : Kept j register)
include h

/-- What the register lists was put in. -/
theorem storedAs {s : Supply} (hs : (n, s) ∈ register) : ∃ q m, StoredAs n q s.origin m j := by
  induction h with
  | empty => exact absurd hs List.not_mem_nil
  | @supplied j register q s' m hk _ _ ih =>
    rcases List.mem_cons.mp hs with he | hs
    · cases he
      exact ⟨q, m, [], j, rfl, rfl⟩
    · obtain ⟨q', m', hstored⟩ := ih hs
      exact ⟨q', m', hstored.append [_]⟩
  | copied _ _ ih | handled _ _ ih =>
    obtain ⟨q', m', hstored⟩ := ih hs
    exact ⟨q', m', hstored.append [_]⟩

/-- The register lists an item once. -/
theorem supply_unique {s s' : Supply} (hs : (n, s) ∈ register) (hs' : (n, s') ∈ register) :
    s = s' := by
  induction h with
  | empty => exact absurd hs List.not_mem_nil
  | @supplied j register q new m hk _ _ ih =>
    -- Those listed before are older than the new item.
    have hnew : ∀ x, (j.length, x) ∉ register := by
      intro x hx
      obtain ⟨_, _, hstored⟩ := hk.storedAs hx
      exact Nat.lt_irrefl _ hstored.lt_length
    rcases List.mem_cons.mp hs with he | hs <;> rcases List.mem_cons.mp hs' with he' | hs'
    · exact (Prod.mk.inj he).2.trans (Prod.mk.inj he').2.symm
    · exact absurd ((Prod.mk.inj he).1 ▸ hs') (hnew s')
    · exact absurd ((Prod.mk.inj he').1 ▸ hs) (hnew s)
    · exact ih hs hs'
  | copied _ _ ih | handled _ _ ih => exact ih hs hs'

/-- What was put in has an id; it is a dead letter, or the register lists it, and then it was put in
as what was handed in says. -/
theorem of_storedAs {q : QueueRef} {o : Origin} {m : Message} (hm : StoredAs n q o m j) :
    m.id ≠ .blank ∧ ((∃ i, o = .deadLetter i) ∨
      ∃ s, (n, s) ∈ register ∧ Descent.Yields ⟨n, s, []⟩ m) := by
  induction h with
  | empty => exact absurd hm.lt_length (Nat.not_lt_zero n)
  | supplied hk hy hid ih =>
    rcases storedAs_cons_iff.mp hm with ⟨rfl, he⟩ | hm
    · cases he
      exact ⟨hid, .inr ⟨_, List.mem_cons_self, hy⟩⟩
    · obtain ⟨hid', ho⟩ := ih hm
      exact ⟨hid', ho.imp_right fun ⟨s, hs, hy⟩ => ⟨s, List.mem_cons_of_mem _ hs, hy⟩⟩
  | copied hk hid ih =>
    rcases storedAs_cons_iff.mp hm with ⟨rfl, he⟩ | hm
    · cases he
      exact ⟨hid, .inl ⟨_, rfl⟩⟩
    · exact ih hm
  | handled hk hne ih =>
    rcases storedAs_cons_iff.mp hm with ⟨-, he⟩ | hm
    · exact absurd he (hne q o m)
    · exact ih hm

/-- What a caller handed in is no dead letter. -/
theorem not_deadLetter {s : Supply} (hs : (n, s) ∈ register) {q : QueueRef} {i : Nat}
    {m : Message} : ¬ StoredAs n q (.deadLetter i) m j := by
  intro hm
  obtain ⟨q', m', hstored⟩ := h.storedAs hs
  have ho := (hstored.unique hm).2.1
  cases s with
  | enqueued | published => cases ho

variable {rules : QueueRef → Option QueueRules} (hl : Lawful rules j)
include hl

/-- Every item that was put in has a descent, and is what that yields. -/
theorem exists_descent {q : QueueRef} {o : Origin} {m : Message} (hm : StoredAs n q o m j) :
    ∃ d, Descends rules register j n d ∧ d.Yields m := by
  -- A dead letter is younger than the item that it is for.
  induction n using Nat.strongRecOn generalizing q o m with
  | ind n ih =>
    rcases (h.of_storedAs hm).2 with ⟨i, rfl⟩ | ⟨s, hs, hy⟩
    · -- It follows upon an item that was given up, and that had a descent.
      obtain ⟨later, earlier, rfl, rfl⟩ := id hm
      obtain ⟨q', hd, r, old, hgone, hr, -, hletter⟩ := hl.follows
      have hpast : Lawful rules (.stored q (.deadLetter i) m :: earlier) := hl.past
      obtain ⟨o₀, m₀, hstored, hsame⟩ := hpast.2.storedAs_of_settled hgone
      obtain ⟨d, hd₀, hy⟩ := ih i hstored.lt_length ((hstored.append [_]).append later)
      have hgone' : .settled i q' hd .givenUp old ∈ later ++ .stored q (.deadLetter i) m :: earlier :=
        List.mem_append_right later (List.mem_cons_of_mem _ hgone)
      exact ⟨d.through r.name, .copied hm hgone' hr hd₀, (hy.of_bare hsame).through hletter⟩
    · exact ⟨_, .supplied hs, hy⟩

/-- An item has one descent. -/
theorem descent_unique {d d' : Descent} (hd : Descends rules register j n d)
    (hd' : Descends rules register j n d') : d = d' := by
  induction hd generalizing d' with
  | @supplied n s hs =>
    cases hd' with
    | supplied hs' => rw [h.supply_unique hs hs']
    | copied hstored => exact absurd hstored (h.not_deadLetter hs)
  | @copied n i d q target m old hd r hstored hgone hr _ ih =>
    cases hd' with
    | supplied hs => exact absurd hstored (h.not_deadLetter hs)
    | copied hstored' hgone' hr' hd' =>
      -- Both were given up as the same item, and so by the same queue.
      obtain ⟨-, ho, -⟩ := hstored.unique hstored'
      cases ho
      have hq := (hl.storedIn_of_settled hgone).symm.trans (hl.storedIn_of_settled hgone')
      cases hq
      rw [hr] at hr'
      cases hr'
      rw [ih hd']

/-- An item that a queue holds has one descent, and is what that yields. -/
theorem descent_of_held {q : QueueRef} {m : Message} (hm : (n, m) ∈ held q j) :
    m.id ≠ .blank ∧ ∃ d, Descends rules register j n d ∧
      (∀ d', Descends rules register j n d' → d' = d) ∧ d.Yields m := by
  obtain ⟨o, m₀, hstored, hsame⟩ := hl.storedAs_of_held hm
  obtain ⟨d, hd, hy⟩ := h.exists_descent hl hstored
  have hid : m.id = m₀.id := (congrArg Message.id hsame :)
  exact ⟨hid ▸ (h.of_storedAs hstored).1, d, hd, fun d' hd' => h.descent_unique hl hd' hd,
    hy.of_bare hsame⟩

end Kept

end MessageBroker.Custody
