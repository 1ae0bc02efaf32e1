import MessageBroker.Proofs.Broker.DeadLetters
import MessageBroker.Proofs.Broker.LetterChain
import MessageBroker.Proofs.Custody.Registrations

/-!
# Dead letters do not come back

An item that is given up may become a dead letter, that may be given up again, and so on. The queues
that the item and its successive dead letters are in follow the chain of dead letters that starts
from the queue of the item (`Chronicle.Reachable.sendsTo_of_trail`), and this chain visits no queue
twice and comes to an end. So no message comes back to a queue that gave it up or gave up one of its
forerunners, and it can be moved only so often (`Chronicle.dead_letters_cannot_loop`). For the same
reason the arrival of a letter, whenever it comes, does not touch the queue that sent it
(`Chronicle.contents_land`).
-/

namespace MessageBroker

open Broker

namespace Custody

variable {rules : QueueRef → Option QueueRules} {j : List Entry} {n : Nat} {q : QueueRef}

/-! ## From item to dead letter -/

/-- The item `x.1` became a dead letter: the item `y.1`, which was put in the queue `y.2`. -/
def Becomes (j : List Entry) (x y : Nat × QueueRef) : Prop :=
  ∃ m, StoredAs y.1 y.2 (.deadLetter x.1) m j

/-- What was put in as an item of a queue is an item of that queue. -/
theorem StoredAs.storedIn {o : Origin} {m : Message} (h : StoredAs n q o m j) :
    storedIn n j = some q := by
  obtain ⟨later, earlier, rfl, rfl⟩ := h
  refine storedIn_append ?_ later
  unfold Custody.storedIn
  rw [if_pos rfl]

/-- A dead letter is in the queue for the dead letters of the queue that gave the item up. -/
theorem Lawful.sendsTo_of_becomes (h : Lawful rules j) {x y : Nat × QueueRef}
    (hx : Custody.storedIn x.1 j = some x.2) (hy : Becomes j x y) :
    ∃ r, rules x.2 = some r ∧ r.deadLetters = some y.2 := by
  obtain ⟨m, later, earlier, rfl, -⟩ := hy
  obtain ⟨q, hd, r, old, hgone, hr, ht, -⟩ := h.follows
  have hstored := storedIn_append (h.past.2.storedIn_of_settled hgone)
    (later ++ [.stored y.2 (.deadLetter x.1) m])
  rw [List.append_assoc] at hstored
  obtain rfl := Option.some.inj (hx.symm.trans hstored)
  exact ⟨r, hr, ht⟩

/-- Where an item was copied once at most, it has one dead letter at most. -/
theorem becomes_unique {x y y' : Nat × QueueRef} (hone : j.countP (Entry.copies x.1) ≤ 1)
    (hy : Becomes j x y) (hy' : Becomes j x y') : y = y' := by
  -- Back to the last entry that puts a dead letter for the item in; there is no other.
  induction j with
  | nil =>
    obtain ⟨m, later, earlier, hj, -⟩ := hy
    exact absurd hj.symm (List.append_ne_nil_of_right_ne_nil _ (List.cons_ne_nil _ _))
  | cons e past ih =>
    have hpos : ∀ {z}, Becomes past x z → 0 < past.countP (Entry.copies x.1) := by
      rintro z ⟨m, later, earlier, hj, -⟩
      refine List.countP_pos_iff.mpr ⟨.stored z.2 (.deadLetter x.1) m, ?_, decide_eq_true rfl⟩
      rw [hj]
      exact List.mem_append_right _ List.mem_cons_self
    have hhead : ∀ {z : Nat × QueueRef} {m : Message}, e = .stored z.2 (.deadLetter x.1) m →
        e.copies x.1 = true := by
      rintro z m rfl
      exact decide_eq_true rfl
    rw [List.countP_cons] at hone
    obtain ⟨m, hm⟩ := hy
    obtain ⟨m', hm'⟩ := hy'
    rcases storedAs_cons_iff.mp hm with ⟨hn, he⟩ | hm
    · rcases storedAs_cons_iff.mp hm' with ⟨hn', he'⟩ | hm'
      · injection he.symm.trans he' with hq
        exact Prod.ext (hn.symm.trans hn') hq
      · rw [if_pos (hhead he)] at hone
        have hmore := hpos ⟨m', hm'⟩
        omega
    · rcases storedAs_cons_iff.mp hm' with ⟨-, he'⟩ | hm'
      · rw [if_pos (hhead he')] at hone
        have hmore := hpos ⟨m, hm⟩
        omega
      · exact ih (by omega) ⟨m, hm⟩ ⟨m', hm'⟩

end Custody

namespace Chronicle

open Custody

/-! ## The way of dead letters -/

section Trail

variable {c : Chronicle} (hs : c.Sound)
include hs

/-- No item has two dead letters. -/
theorem Sound.becomes_unique {x y y' : Nat × QueueRef} (hy : Becomes c.journal x y)
    (hy' : Becomes c.journal x y') : y = y' := by
  refine Custody.becomes_unique ?_ hy hy'
  -- What was copied had been put in, and what was put in comes to one end only.
  obtain ⟨m, later, earlier, hj, -⟩ := hy
  obtain ⟨q, hd, r, old, hgone, -⟩ := Lawful.follows (hj ▸ hs.lawful)
  have hmem : .settled x.1 q hd .givenUp old ∈ c.journal := by
    rw [hj]
    exact List.mem_append_right _ (List.mem_cons_of_mem _ hgone)
  have hone := situations hs (hs.lawful.storedIn_of_settled hmem)
  omega

/-- The queues of an item and its successive dead letters follow the way of dead letters. -/
theorem Sound.sendsTo_of_trail {n : Nat} {q : QueueRef} {rest : List (Nat × QueueRef)}
    (hn : storedIn n c.journal = some q) (htrail : ((n, q) :: rest).IsChain (Becomes c.journal)) :
    (q :: rest.map Prod.snd).IsChain c.broker.SendsTo := by
  induction rest generalizing n q with
  | nil => exact List.isChain_singleton q
  | cons y rest ih =>
    obtain ⟨hy, hrest⟩ := List.isChain_cons_cons.mp htrail
    obtain ⟨m, hm⟩ := id hy
    exact List.isChain_cons_cons.mpr
      ⟨hs.lawful.sendsTo_of_becomes hn hy, ih hm.storedIn hrest⟩

end Trail

/-! ## What a nack does to its queue -/

/-- A queue without the first message that carries a handle, or with that message released. -/
def Gives (h : Ident) (old new : List Message) : Prop :=
  ∃ before m after, old = before ++ m :: after ∧ m.receipt = some h ∧
    (∀ x ∈ before, x.receipt ≠ some h) ∧
      (new = before ++ m.released :: after ∨ new = before ++ after)

variable {c : Chronicle}

/-- An accepted first half of a nack takes one message out of its queue, or releases it where it
stands. A letter that it sends is the first of those on their way, and names that queue. -/
theorem gives_giveBack (hs : c.Sound) {q : QueueRef} {h : Ident} {b : Broker}
    {letter : Option DeadLetter} (he : c.broker.giveBack q h = .ok (b, letter)) :
    Gives h (c.broker.contents q) ((c.giveBack q h).broker.contents q) ∧
      ∀ x, letter = some x →
        x.source = q ∧ ∃ n, (c.giveBack q h).flying[0]? = some (n, x) := by
  rcases hs.toRecords.giveBack q h with hb | ⟨n, m, v, letter', b', hb, hv, hf, hrec⟩
  · cases he.symm.trans hb
  · cases hb.symm.trans he
    have hbroker : (c.giveBack q h).broker = b := by
      unfold giveBack
      rw [he]
      cases letter <;> rfl
    obtain ⟨r, hfirst, -⟩ := hf
    obtain ⟨hm, before, after, hsplit, hbefore⟩ := first_eq_some_iff.mp hfirst
    refine ⟨⟨before.map Prod.snd, m, after.map Prod.snd, ?_, hm, ?_, ?_⟩, ?_⟩
    · rw [hs.replay, hsplit, List.map_append]
      rfl
    · intro x hx
      obtain ⟨y, hy, rfl⟩ := List.mem_map.mp hx
      exact hbefore y hy
    · rw [hbroker, hrec.replay]
      rcases hv with ⟨rfl, -⟩ | ⟨rfl, -⟩
      · rw [held_released hsplit, List.map_append]
        exact .inl rfl
      · rw [held_ended (v := .givenUp) hsplit h (by decide), List.map_append]
        exact .inr rfl
    · rintro x rfl
      rcases hv with ⟨-, hnone⟩ | ⟨-, hsome⟩
      · cases hnone
      · obtain rfl := Option.some.inj hsome
        unfold giveBack
        rw [he]
        exact ⟨rfl, _, rfl⟩

/-- The first half of a nack is refused, or it takes one message out of its queue or releases it
where it stands. -/
theorem contents_giveBack (hs : c.Sound) (q : QueueRef) (h : Ident) : c.giveBack q h = c ∨
    Gives h (c.broker.contents q) ((c.giveBack q h).broker.contents q) := by
  cases he : c.broker.giveBack q h with
  | ok result => exact .inr (gives_giveBack hs he).1
  | error fault =>
    left
    unfold giveBack
    rw [he]

/-- The arrival of a letter leaves the queue alone that sent it, whatever has happened since. -/
theorem contents_land (hc : c.Reachable) {i n : Nat} {letter : DeadLetter}
    (hi : c.flying[i]? = some (n, letter)) :
    (c.land i).broker.contents letter.source = c.broker.contents letter.source := by
  have hland : (c.land i).broker = c.broker.deposit letter := by
    unfold land
    rw [hi]
  rw [hland]
  cases hq : c.broker.queue? letter.source with
  | none =>
    unfold deposit
    rw [hq]
  | some q =>
    -- The queue for its dead letters is an older one.
    have hother : q.deadLetters ≠ some letter.source := fun he =>
      Nat.lt_irrefl _ (hc.descending _ _ _ (rules?_of_queue? hq) he)
    unfold contents
    rw [(queue?_deposit hc.sound.closed letter hq).1 _ hother]

/-- A nack is refused, or it takes one message out of its queue or releases it where it stands. -/
theorem contents_nack (hc : c.Reachable) (q : QueueRef) (h : Ident) : c.nack q h = c ∨
    Gives h (c.broker.contents q) ((c.nack q h).broker.contents q) := by
  unfold nack
  split
  · -- The letter arrives at once, and does not touch the queue either.
    rename_i b letter he
    obtain ⟨hgives, hletter⟩ := gives_giveBack hc.sound he
    obtain ⟨hsource, n, hflying⟩ := hletter letter rfl
    have hback : (c.giveBack q h).Reachable := hc.apply (v := .giveBack q h) trivial
    have hland := contents_land hback hflying
    rw [hsource] at hland
    rw [hland]
    exact .inr hgives
  · exact contents_giveBack hc.sound q h

/-- In every state of every run, whatever queues it has created, by name or not, and however they
share their queues for dead letters: no queue's dead letters lead back to it, and from every queue
there is one chain of queues that dead letters can go through, which visits no queue twice and never
changes.

An item and its successive dead letters are in queues that are all different, and follow the chain
from the queue of the item; so there are at most as many dead letters as the chain has queues, for
no item becomes two dead letters.

A nack is refused, and then nothing changes, or its queue loses the one message that it settles, or
has it released where it stands; a letter that arrives later leaves the queue alone that sent it. -/
theorem dead_letters_cannot_loop (hc : c.Reachable) :
    (∀ q, ¬ Relation.TransGen c.broker.SendsTo q q) ∧
    (∀ q, ∃ l, LetterChain c.broker q l ∧ (∀ l', LetterChain c.broker q l' → l' = l) ∧
      (q :: l).Nodup ∧
      (c.broker.HasQueue q → ∀ moves, c.Admits moves → LetterChain (c.run moves).broker q l) ∧
      ∀ n rest, storedIn n c.journal = some q → ((n, q) :: rest).IsChain (Becomes c.journal) →
        (((n, q) :: rest).map Prod.snd).Nodup ∧ rest.map Prod.snd <+: l ∧
          rest.length ≤ l.length) ∧
    (∀ x y y', Becomes c.journal x y → Becomes c.journal x y' → y = y') ∧
    (∀ q h v, v = .giveBack q h ∨ v = .call (.nack q h) → c.apply v = c ∨
      Gives h (c.broker.contents q) ((c.apply v).broker.contents q)) ∧
    ∀ i n letter, c.flying[i]? = some (n, letter) →
      (c.land i).broker.contents letter.source = c.broker.contents letter.source := by
  have hs := hc.sound
  refine ⟨hc.descending.not_transGen, fun q => ?_, fun x y y' => hs.becomes_unique, ?_,
    fun i n letter => contents_land hc⟩
  · obtain ⟨l, hl⟩ := hc.descending.exists_letterChain q
    refine ⟨l, hl, fun l' hl' => hl'.unique hl, hl.nodup hc.descending, fun hq moves hv => ?_,
      fun n rest hn htrail => ?_⟩
    · exact (grows_run hc hv).letterChain hs.closed hq hl
    · have hbegins := hl.isPrefix (hs.sendsTo_of_trail hn htrail)
      refine ⟨?_, hbegins, ?_⟩
      · have hsub : (((n, q) :: rest).map Prod.snd).Sublist (q :: l) :=
          (List.cons_prefix_cons.mpr ⟨rfl, hbegins⟩ :
            q :: rest.map Prod.snd <+: q :: l).sublist
        exact (hl.nodup hc.descending).sublist hsub
      · rw [← List.length_map (f := Prod.snd)]
        exact hbegins.length_le
  · rintro q h v (rfl | rfl)
    · exact contents_giveBack hs q h
    · exact contents_nack hc q h

/-- A run in which a message goes through two queues for dead letters, one of them made outside the
registry under the name of a registered one, after an attempt to close the chain to a loop. -/
def chainedRun : List Move :=
  [.call (.createQueue "morgue" {}),
    .call (.addQueue "work" .zero 1 (some ⟨0⟩)),
    .call (.createQueue "work" { maxRetries := some 1, deadLetters := some ⟨1⟩ }),
    .call (.createQueue "morgue" { deadLetters := some ⟨2⟩ }),
    .call (.enqueue ⟨2⟩ (.create (.text "m") "order" [] .first)),
    .call (.receive ⟨2⟩ .first),
    .call (.nack ⟨2⟩ (.generated 0)),
    .call (.receive ⟨1⟩ .first),
    .giveBack ⟨1⟩ (.generated 2),
    .land 0]

/-- In that run the message was moved twice, through queues that are all different, and it cannot be
moved more often than the chain allows. -/
theorem dead_letters_cannot_loop_chainedRun :
    ∃ c, c = (create .standard).run chainedRun ∧
      [(0, ⟨2⟩), (3, ⟨1⟩), (6, ⟨0⟩)].IsChain (Becomes c.journal) ∧
      [(⟨2⟩ : QueueRef), ⟨1⟩, ⟨0⟩].Nodup ∧ ∃ l, LetterChain c.broker ⟨2⟩ l ∧ 2 ≤ l.length := by
  have hc : ((create .standard).run chainedRun).Reachable :=
    (Reachable.create .standard).run (by decide)
  have htrail : [(0, ⟨2⟩), (3, ⟨1⟩), (6, ⟨0⟩)].IsChain
      (Becomes ((create .standard).run chainedRun).journal) := by
    refine List.isChain_cons_cons.mpr ⟨?_, List.isChain_cons_cons.mpr
      ⟨?_, List.isChain_singleton _⟩⟩
    · exact ⟨_, [_, _, _], [_, _, _], rfl, rfl⟩
    · exact ⟨_, [], [_, _, _, _, _, _], rfl, rfl⟩
  obtain ⟨-, hchain, -⟩ := dead_letters_cannot_loop hc
  obtain ⟨l, hl, -, -, -, hitems⟩ := hchain ⟨2⟩
  obtain ⟨hnodup, -, hlength⟩ := hitems 0 _ (by decide) htrail
  exact ⟨_, rfl, htrail, hnodup, l, hl, hlength⟩

end Chronicle

end MessageBroker
