import MessageBroker.Proofs.Custody.Accounting

/-!
# Insertion order

`arrivals` lists the items ever put in a queue, in the order in which they were put in. Later
entries of a journal only add to its end. What a queue holds is a part of that list in the same
order (`held_sublist_arrivals`): removals leave gaps, leases and releases happen in place, and a
lapse is no event at all. A receive takes the first visible item of this order and stamps it where
it stands, so whatever it passes over is older and hidden (`Chronicle.insertion_order_kept`).
-/

namespace MessageBroker

/-- A message that is not visible is hidden until a later instant. -/
theorem Message.not_visibleAt_iff {m : Message} {t : Instant} :
    ¬ m.VisibleAt t ↔ ∃ deadline, m.hiddenUntil = some deadline ∧ t < deadline := by
  unfold Message.VisibleAt
  cases m.hiddenUntil with
  | none => simp
  | some deadline => simp [Instant.lt_iff_not_le]

open Broker

namespace Custody

/-- The items ever put in a queue, oldest first. -/
def arrivals (q : QueueRef) : List Entry → List Nat
  | [] => []
  | .stored q' _ _ :: past => arrivals q past ++ if q' = q then [past.length] else []
  | .leased .. :: past | .settled .. :: past | .discarded _ :: past => arrivals q past

/-- An entry leaves what arrived before it as it was. -/
theorem arrivals_prefix_cons (q : QueueRef) (e : Entry) (past : List Entry) :
    arrivals q past <+: arrivals q (e :: past) := by
  cases e with
  | stored q' o m => exact List.prefix_append _ _
  | leased | settled | discarded => exact List.prefix_refl _

/-- What arrived by some time is the beginning of what has arrived later. -/
theorem arrivals_prefix (q : QueueRef) (later earlier : List Entry) :
    arrivals q earlier <+: arrivals q (later ++ earlier) := by
  induction later with
  | nil => exact List.prefix_refl _
  | cons e later ih => exact ih.trans (arrivals_prefix_cons q e (later ++ earlier))

/-- An item arrived in the queue that it was put in, and in no other. -/
theorem mem_arrivals_iff {q : QueueRef} {j : List Entry} {n : Nat} :
    n ∈ arrivals q j ↔ storedIn n j = some q := by
  induction j with
  | nil => simp [arrivals, storedIn]
  | cons e past ih =>
    unfold storedIn
    by_cases hn : n = past.length
    · -- The number of the entry is that of no older item.
      have hold : n ∉ arrivals q past := fun hmem =>
        Nat.lt_irrefl _ (hn ▸ lt_length_of_storedIn (ih.mp hmem))
      rw [if_pos hn]
      cases e with
      | stored q' o m => by_cases hq : q' = q <;> simp [arrivals, hq, hn ▸ hold, hn]
      | leased | settled | discarded => simpa [arrivals] using hold
    · rw [if_neg hn, ← ih]
      cases e with
      | stored q' o m => by_cases hq : q' = q <;> simp [arrivals, hq, hn]
      | leased | settled | discarded => rfl

/-- A queue holds its items in the order of their arrival. -/
theorem held_sublist_arrivals (q : QueueRef) (j : List Entry) :
    ((held q j).map Prod.fst).Sublist (arrivals q j) := by
  induction j with
  | nil => exact List.Sublist.refl _
  | cons e past ih =>
    rw [held_cons]
    rcases map_fst_act q past.length (held q past) e with hs | ⟨⟨o, m, rfl⟩, he⟩
    · exact (hs.trans ih).trans (arrivals_prefix_cons q e past).sublist
    · have hlast : arrivals q (.stored q o m :: past) = arrivals q past ++ [past.length] := by
        rw [arrivals, if_pos rfl]
      rw [he, hlast]
      exact ih.append_right _

/-- What a queue holds in front of an item is what it holds of those that arrived earlier. -/
theorem mem_before_iff {q : QueueRef} {j : List Entry} {before after : List (Nat × Message)}
    {n : Nat} {m : Message} (h : held q j = before ++ (n, m) :: after) {x : Nat × Message}
    (hx : x ∈ held q j) : x ∈ before ↔ x.1 < n := by
  have hincreasing := held_increasing q j
  rw [h, List.map_append, List.map_cons, List.pairwise_append, List.pairwise_cons] at hincreasing
  obtain ⟨-, ⟨hafter, -⟩, hbefore⟩ := hincreasing
  constructor
  · intro hmem
    exact hbefore x.1 (List.mem_map_of_mem hmem) n List.mem_cons_self
  · intro hlt
    rw [h] at hx
    rcases List.mem_append.mp hx with hmem | hmem
    · exact hmem
    · -- The item itself and those behind it have no smaller number.
      rcases List.mem_cons.mp hmem with rfl | hmem
      · exact absurd hlt (Nat.lt_irrefl _)
      · exact absurd hlt (Nat.lt_asymm (hafter x.1 (List.mem_map_of_mem hmem)))

end Custody

namespace Chronicle

open Custody

/-- A receive finds every message of the queue hidden and changes nothing, or it stamps the first
visible item where it stands and returns it so. -/
theorem receive_stamps {c : Chronicle} (hs : c.Sound) (q : QueueRef) (t : Instant) :
    (c.broker.receive q t = (none, c.broker) ∧ c.receive q t = c ∧
      ∀ m ∈ c.broker.contents q, ¬ m.VisibleAt t) ∨
    ∃ qu before n old after, c.broker.queue? q = some qu ∧
      held q c.journal = before ++ (n, old) :: after ∧
      (∀ x ∈ before, ¬ x.2.VisibleAt t) ∧ old.VisibleAt t ∧
      let m := old.leased c.broker.mint.next (t.deadline qu.visibilityTimeout)
      c.broker.receive q t = (some m, { c.broker.setQueue q { qu with
        messages := before.map Prod.snd ++ m :: after.map Prod.snd }
          with mint := c.broker.mint.advance }) ∧
      held q (c.receive q t).journal = before ++ (n, m) :: after := by
  rcases hs.toRecords.first_split q (·.VisibleAt t) with
    hnone | ⟨qu, before, n, old, after, hqu, hfirst, hheld, hmessages, hbefore, hvisible⟩
  · left
    have hreceive := receive_eq_none hnone
    refine ⟨hreceive, ?_, hnone⟩
    unfold receive
    rw [hreceive]
  · right
    have hreceive := receive_eq_some hqu hmessages hbefore hvisible
    refine ⟨qu, before, n, old, after, hqu, hheld,
      fun x hx => hbefore x.2 (List.mem_map_of_mem hx), hvisible, hreceive, ?_⟩
    unfold receive item
    rw [hreceive, hfirst]
    exact held_leased hheld t _

/-- In every state of every run: what a queue holds is a part, in the same order, of the items ever
put in it, whose list only grows at its end.

A receive that returns nothing has found every message hidden beyond its reading of the clock, and
changes nothing. A receive that returns a message has found it visible, and every item put in
earlier that is still held hidden beyond its reading. It changes nothing but the lease and the
number of leases of that item, which stays in its place, and it returns the message as it stands
then. -/
theorem insertion_order_kept {c : Chronicle} (hc : c.Reachable) :
    (∀ q, c.broker.contents q = (held q c.journal).map Prod.snd ∧
      ((held q c.journal).map Prod.fst).Sublist (arrivals q c.journal) ∧
      (∀ n, n ∈ arrivals q c.journal ↔ storedIn n c.journal = some q) ∧
      ∀ later earlier, c.journal = later ++ earlier →
        arrivals q earlier <+: arrivals q c.journal) ∧
    (∀ q t b', c.broker.receive q t = (none, b') → b' = c.broker ∧
      ∀ m ∈ c.broker.contents q, ∃ deadline, m.hiddenUntil = some deadline ∧ t < deadline) ∧
    ∀ q t m b', c.broker.receive q t = (some m, b') →
      ∃ qu before n old after, c.broker.queue? q = some qu ∧
        held q c.journal = before ++ (n, old) :: after ∧ old.VisibleAt t ∧
        (∀ x ∈ held q c.journal, x.1 < n →
          ∃ deadline, x.2.hiddenUntil = some deadline ∧ t < deadline) ∧
        m = { old with
          hiddenUntil := m.hiddenUntil, receipt := m.receipt, retryCount := m.retryCount } ∧
        b' = { c.broker.setQueue q { qu with
          messages := before.map Prod.snd ++ m :: after.map Prod.snd }
            with mint := c.broker.mint.advance } ∧
        held q (c.apply (.call (.receive q t))).journal = before ++ (n, m) :: after := by
  have hs := hc.sound
  refine ⟨fun q => ⟨hs.replay q, held_sublist_arrivals q c.journal, fun n => mem_arrivals_iff, ?_⟩,
    ?_, ?_⟩
  · intro later earlier hj
    rw [hj]
    exact arrivals_prefix q later earlier
  · intro q t b' hreceive
    rcases receive_stamps hs q t with
      ⟨hnone, -, hhidden⟩ | ⟨qu, before, n, old, after, -, -, -, -, hsome, -⟩
    · rw [hnone] at hreceive
      cases hreceive
      exact ⟨rfl, fun m hm => Message.not_visibleAt_iff.mp (hhidden m hm)⟩
    · rw [hsome] at hreceive
      cases hreceive
  · intro q t m b' hreceive
    rcases receive_stamps hs q t with
      ⟨hnone, -, -⟩ | ⟨qu, before, n, old, after, hqu, hheld, hbefore, hvisible, hsome, hafter⟩
    · rw [hnone] at hreceive
      cases hreceive
    · rw [hsome] at hreceive
      cases hreceive
      refine ⟨qu, before, n, old, after, hqu, hheld, hvisible, fun x hx hlt => ?_, rfl, rfl, hafter⟩
      exact Message.not_visibleAt_iff.mp (hbefore x ((mem_before_iff hheld hx).mpr hlt))

/-- A run that puts three messages in a queue, leases the first two, and acknowledges the second. -/
def gapRun : List Move :=
  [.call (.createQueue "work" {}),
    .call (.enqueue ⟨0⟩ (.create (.text "a") "order" [] .first)),
    .call (.enqueue ⟨0⟩ (.create (.text "b") "order" [] .first)),
    .call (.enqueue ⟨0⟩ (.create (.text "c") "order" [] .first)),
    .call (.receive ⟨0⟩ .first),
    .call (.receive ⟨0⟩ .first),
    .call (.acknowledge ⟨0⟩ (.generated 1))]

/-- After that run the first and the third item are held, and the next receive passes over the
first, which is hidden, to the third. -/
theorem insertion_order_kept_gapRun :
    let c := (create .standard).run gapRun
    arrivals ⟨0⟩ c.journal = [0, 1, 2] ∧
      [0, 2].Sublist (arrivals ⟨0⟩ c.journal) ∧
      ∃ m b', c.broker.receive ⟨0⟩ .first = (some m, b') ∧ m.id = .text "c" ∧
        ∃ x ∈ held ⟨0⟩ c.journal, x.1 = 0 ∧
          ∃ deadline, x.2.hiddenUntil = some deadline ∧ Instant.first < deadline := by
  have hc : ((create .standard).run gapRun).Reachable :=
    (Reachable.create .standard).run (by decide)
  obtain ⟨horder, -, hsome⟩ := insertion_order_kept hc
  refine ⟨by decide, (horder ⟨0⟩).2.1, ?_⟩
  obtain ⟨qu, before, n, old, after, -, hheld, hvisible, hhidden, -⟩ :=
    hsome ⟨0⟩ .first _ _ rfl
  obtain ⟨x, hx, hleased⟩ : ∃ x, (0, x) ∈ held ⟨0⟩ ((create .standard).run gapRun).journal ∧
    ¬ x.VisibleAt .first := ⟨_, List.mem_cons_self, by decide⟩
  -- The item that is returned is not the first one, which is hidden.
  have hlater : 0 < n := by
    refine Nat.pos_of_ne_zero fun hn => hleased ?_
    subst hn
    have hmem := hheld ▸ List.mem_append_right before List.mem_cons_self
    rwa [message_eq_of_mem_held hmem hx]
  exact ⟨_, _, rfl, rfl, (0, x), hx, rfl, hhidden (0, x) hx hlater⟩

end Chronicle

end MessageBroker
