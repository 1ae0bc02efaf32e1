import Mathlib.Data.List.Chain
import Mathlib.Logic.Relation
import MessageBroker.Proofs.Broker.Growth

/-!
# Chains of dead letters

Each queue sends its dead letters to one queue at most, and where dead letters go to older queues
only, nobody's come back to it (`Descending.not_transGen`). So from every queue there is one chain
of queues that dead letters can go through (`Descending.exists_letterChain`), it visits no queue
twice (`LetterChain.nodup`), and any way of dead letters from that queue is the beginning of it
(`LetterChain.isPrefix`). A growing broker keeps the chains of its queues (`Grows.letterChain`).
-/

namespace MessageBroker.Broker

/-- The queue `q` sends its dead letters to `t`. -/
def SendsTo (b : Broker) (q t : QueueRef) : Prop :=
  ∃ r, b.rules? q = some r ∧ r.deadLetters = some t

/-- The list of queues that dead letters of a queue can go through, as far as it goes. -/
inductive LetterChain (b : Broker) : QueueRef → List QueueRef → Prop
  | last {q : QueueRef} : (∀ t, ¬ b.SendsTo q t) → LetterChain b q []
  | next {q t : QueueRef} {l : List QueueRef} : b.SendsTo q t → LetterChain b t l →
      LetterChain b q (t :: l)

variable {b b' : Broker} {q t t' : QueueRef} {l l' : List QueueRef}

/-- A queue sends its dead letters to one queue only. -/
theorem SendsTo.unique (h : b.SendsTo q t) (h' : b.SendsTo q t') : t = t' := by
  obtain ⟨r, hr, hd⟩ := h
  obtain ⟨r', hr', hd'⟩ := h'
  obtain rfl := Option.some.inj (hr.symm.trans hr')
  exact Option.some.inj (hd.symm.trans hd')

/-- There is one chain from a queue. -/
theorem LetterChain.unique (h : LetterChain b q l) (h' : LetterChain b q l') : l = l' := by
  induction h generalizing l' with
  | last hnone =>
    cases h' with
    | last => rfl
    | next hs => exact absurd hs (hnone _)
  | next hs _ ih =>
    cases h' with
    | last hnone => exact absurd hs (hnone _)
    | next hs' hrest =>
      obtain rfl := hs.unique hs'
      rw [ih hrest]

/-- Any way of dead letters from a queue is the beginning of its chain. -/
theorem LetterChain.isPrefix (h : LetterChain b q l) {path : List QueueRef}
    (hpath : (q :: path).IsChain b.SendsTo) : path <+: l := by
  induction path generalizing q l with
  | nil => exact List.nil_prefix
  | cons t path ih =>
    obtain ⟨hs, hrest⟩ := List.isChain_cons_cons.mp hpath
    cases h with
    | last hnone => exact absurd hs (hnone t)
    | next hs' hchain =>
      obtain rfl := hs.unique hs'
      exact List.cons_prefix_cons.mpr ⟨rfl, ih hchain hrest⟩

namespace Descending

variable (hb : b.Descending)
include hb

/-- Dead letters go to an older queue. -/
theorem index_lt (h : b.SendsTo q t) : t.index < q.index := by
  obtain ⟨r, hr, hd⟩ := h
  exact hb q r t hr hd

/-- The dead letters of a queue never come back to it. -/
theorem not_transGen (q : QueueRef) : ¬ Relation.TransGen b.SendsTo q q := by
  have hlt : ∀ {q t}, Relation.TransGen b.SendsTo q t → t.index < q.index := by
    intro q t h
    induction h with
    | single hs => exact hb.index_lt hs
    | tail _ hs ih => exact Nat.lt_trans (hb.index_lt hs) ih
  exact fun h => Nat.lt_irrefl _ (hlt h)

/-- From every queue there is a chain, and it comes to an end. -/
theorem exists_letterChain (q : QueueRef) : ∃ l, LetterChain b q l := by
  -- Each queue of the chain is older than the one before.
  induction hi : q.index using Nat.strong_induction_on generalizing q with
  | _ i ih =>
    by_cases hsends : ∃ t, b.SendsTo q t
    · obtain ⟨t, hs⟩ := hsends
      obtain ⟨l, hl⟩ := ih t.index (hi ▸ hb.index_lt hs) t rfl
      exact ⟨t :: l, .next hs hl⟩
    · exact ⟨[], .last (not_exists.mp hsends)⟩

end Descending

/-- The queues of a chain are older and older. -/
theorem LetterChain.descending (hb : b.Descending) (h : LetterChain b q l) :
    (q :: l).Pairwise fun newer older => older.index < newer.index := by
  induction h with
  | last => exact List.pairwise_singleton _ _
  | @next q t l hs _ ih =>
    refine List.pairwise_cons.mpr ⟨fun x hx => ?_, ih⟩
    rcases List.mem_cons.mp hx with rfl | hx
    · exact hb.index_lt hs
    · exact Nat.lt_trans ((List.pairwise_cons.mp ih).1 x hx) (hb.index_lt hs)

/-- A chain visits no queue twice, and not the one that it starts from. -/
theorem LetterChain.nodup (hb : b.Descending) (h : LetterChain b q l) : (q :: l).Nodup := by
  refine List.Pairwise.imp ?_ (h.descending hb)
  intro newer older hlt he
  exact Nat.lt_irrefl _ (he ▸ hlt)

/-- A growing broker keeps the chains of the queues that it has. -/
theorem Grows.letterChain (h : Grows b b') (hb : b.Closed) (hq : b.HasQueue q)
    (hl : LetterChain b q l) : LetterChain b' q l := by
  induction hl with
  | @last q hnone =>
    refine .last fun t ⟨r, hr, hd⟩ => ?_
    obtain ⟨x, hx⟩ := hq.queue?
    have hold := rules?_of_queue? hx
    obtain rfl := Option.some.inj ((h.rules q _ hold).symm.trans hr)
    exact hnone t ⟨x.rules, hold, hd⟩
  | next hs _ ih =>
    obtain ⟨r, hr, hd⟩ := hs
    exact .next ⟨r, h.rules _ r hr, hd⟩ (ih (hb.deadLetters _ r _ hr hd))

end MessageBroker.Broker
