import MessageBroker.Proofs.Broker.Copies
import MessageBroker.Proofs.Broker.Registry
import MessageBroker.Proofs.Custody.Ancestry

/-!
# Payload and provenance

Every message in a broker descends from what some caller handed in. `Chronicle.register` lists, for
a run, what the callers handed in, with the numbers of the items that it became; what a publication
hands in is listed once for each copy, with the delivery id stamped on that. Each move keeps the
register with the journal (`kept_apply`), and so the theory of descents applies to every run:
`Chronicle.provenance_is_kept` says of every message that a queue holds, and of every message that a
`receive` returns, which caller's message it descends from, and that it still has its type, payload,
time of creation and metadata, under the marks of the publication and of the queues that gave it up.
-/

namespace MessageBroker.Chronicle

open Broker Custody

/-! ## What callers hand in -/

/-- The copies that a publication puts in the listed queues, newest first: their items are numbered
from `n` on, and their delivery ids come from that mint. -/
def stamped (topic : String) (m : Message) : Nat → Mint → List QueueRef → List (Nat × Supply)
  | _, _, [] => []
  | n, mint, _ :: rest =>
    stamped topic m (n + 1) mint.advance.advance rest ++
      [(n, .published topic m mint.advance.next)]

/-- What a move hands in, newest first, with the numbers of the items that it becomes. -/
def supplies (c : Chronicle) : Move → List (Nat × Supply)
  | .call (.enqueue _ m) => [(c.journal.length, .enqueued m)]
  | .call (.publish topic m deadline clock) =>
    stamped topic m c.journal.length c.broker.mint
      (Operation.reached c.broker (.publish topic m deadline clock))
  | .call (.publishTo topic m deadline clock) =>
    stamped (c.broker.nameOf topic) m c.journal.length c.broker.mint
      (Operation.reached c.broker (.publishTo topic m deadline clock))
  | .deliver topic m target => stamped topic m c.journal.length c.broker.mint [target]
  | _ => []

/-- What the moves of a run hand in, newest first. -/
def register (c : Chronicle) : List Move → List (Nat × Supply)
  | [] => []
  | v :: rest => (c.apply v).register rest ++ c.supplies v

/-- The move is a call, or the step of one, in which a caller hands that in: a message for a queue,
or a publication on the topic of that name. -/
def Move.HandsIn (b : Broker) : Move → Supply → Prop
  | .call (.enqueue _ m), s => s = .enqueued m
  | .call (.publish topic m _ _), s => ∃ delivery, s = .published topic m delivery
  | .call (.publishTo topic m _ _), s => ∃ delivery, s = .published (b.nameOf topic) m delivery
  | .deliver topic m _, s => ∃ delivery, s = .published topic m delivery
  | _, _ => False

/-- The copies that a publication puts in queues are copies of its message. -/
theorem published_of_mem_stamped {topic : String} {m : Message} {n : Nat} {mint : Mint}
    {targets : List QueueRef} {x : Nat × Supply} (h : x ∈ stamped topic m n mint targets) :
    ∃ delivery, x.2 = .published topic m delivery := by
  induction targets generalizing n mint with
  | nil => exact absurd h List.not_mem_nil
  | cons target rest ih =>
    rcases List.mem_append.mp h with h | h
    · exact ih h
    · rw [List.mem_singleton.mp h]
      exact ⟨_, rfl⟩

/-- What is listed for a move is what it hands in. -/
theorem handsIn_of_mem_supplies {c : Chronicle} {v : Move} {x : Nat × Supply}
    (h : x ∈ c.supplies v) : v.HandsIn c.broker x.2 := by
  cases v with
  | giveBack | land => exact absurd h List.not_mem_nil
  | deliver topic m target => exact published_of_mem_stamped h
  | call op =>
    cases op with
    | enqueue q m =>
      rw [List.mem_singleton.mp h]
      exact rfl
    | publish | publishTo => exact published_of_mem_stamped h
    | _ => exact absurd h List.not_mem_nil

/-- What is in the register was handed in by a move of the run. -/
theorem handsIn_of_mem_register {c : Chronicle} {moves : List Move} {x : Nat × Supply}
    (h : x ∈ c.register moves) : ∃ before v after, moves = before ++ v :: after ∧
      v.HandsIn (c.run before).broker x.2 := by
  induction moves generalizing c with
  | nil => exact absurd h List.not_mem_nil
  | cons v rest ih =>
    rcases List.mem_append.mp h with h | h
    · obtain ⟨before, w, after, rfl, hw⟩ := ih h
      exact ⟨v :: before, w, after, rfl, hw⟩
    · exact ⟨[], v, rest, rfl, handsIn_of_mem_supplies h⟩

/-- A publication by name stamps its copies with that name. -/
theorem stamped_mark {b : Broker} (ht : b.Titled) (topic : String) (m : Message)
    (deadline : Option Span) (clock : Nat → Span) (n : Nat) (mint : Mint) :
    stamped (Operation.mark b (.publish topic m deadline clock)) m n mint
        (Operation.reached b (.publish topic m deadline clock)) =
      stamped topic m n mint (Operation.reached b (.publish topic m deadline clock)) := by
  -- A name that leads nowhere reaches no queue, and then there is nothing to mark.
  cases hr : Operation.reached b (.publish topic m deadline clock) with
  | nil => rfl
  | cons target rest =>
    have hmem : target ∈ Operation.reached b (.publish topic m deadline clock) := by
      rw [hr]
      exact List.mem_cons_self
    rw [ht.mark_of_mem_reached hmem]

/-! ## Each move keeps the register -/

section Steps

variable {c : Chronicle} {register : List (Nat × Supply)} (h : Kept c.journal register)
  (hs : c.Sound)
include h

/-- A message put in directly is listed. -/
theorem kept_enqueue (q : QueueRef) (m : Message) :
    Kept (c.enqueue q m).journal ((c.journal.length, .enqueued m) :: register) := by
  refine .supplied (s := .enqueued m) h ?_ (id_identify_ne_blank _ _)
  -- A new id is all that the message may get.
  obtain ⟨id, hid⟩ := c.broker.identify_fst m
  rw [hid]
  exact ⟨rfl, rfl, rfl, rfl⟩

/-- A copy of a publication is listed with its stamp. -/
theorem kept_deliver (topic : String) (m : Message) (target : QueueRef) :
    Kept (c.deliver topic m target).journal
      ((c.journal.length, .published topic m c.broker.mint.advance.next) :: register) := by
  refine .supplied (s := .published topic m c.broker.mint.advance.next) h ?_
    (id_identify_ne_blank _ _)
  rw [identify_eq_self (by rintro ⟨⟩)]
  exact ⟨rfl, rfl, rfl, rfl⟩

include hs

/-- The copies of a publication are listed with their stamps. -/
theorem kept_deliverAll (topic : String) (m : Message) {targets : List QueueRef}
    (ht : ∀ target ∈ targets, c.broker.HasQueue target) :
    Kept (c.deliverAll topic m targets).journal
      (stamped topic m c.journal.length c.broker.mint targets ++ register) := by
  induction targets generalizing c register with
  | nil => exact h
  | cons target rest ih =>
    obtain ⟨q, hq⟩ := (ht target List.mem_cons_self).queue?
    obtain ⟨hsound, hhas⟩ := hs.deliver topic m (ht target List.mem_cons_self)
    -- A delivery takes two identifiers, one for the copy and one for its stamp.
    have hmint : (c.deliver topic m target).broker.mint = c.broker.mint.advance.advance := by
      show (c.broker.deliver topic m target).mint = _
      rw [deliver_eq hq]
    have hrest := ih (kept_deliver h topic m target) hsound fun r hr =>
      (hhas r).mpr (ht r (List.mem_cons_of_mem _ hr))
    rw [hmint] at hrest
    rw [stamped, List.append_assoc]
    exact hrest

/-- A lease hands in nothing. -/
theorem kept_receive (q : QueueRef) (t : Instant) : Kept (c.receive q t).journal register := by
  rcases receive_cases hs q t with hn | ⟨n, m, b', hc, -⟩
  · rw [hn]
    exact h
  · rw [hc]
    exact .handled h (by rintro _ _ _ ⟨⟩)

/-- An acknowledgement hands in nothing. -/
theorem kept_acknowledge (q : QueueRef) (hd : Ident) :
    Kept (c.acknowledge q hd).journal register := by
  rcases acknowledge_cases hs q hd with hn | ⟨n, m, b', hc, -⟩
  · rw [hn]
    exact h
  · rw [hc]
    exact .handled h (by rintro _ _ _ ⟨⟩)

/-- The first half of a nack hands in nothing. -/
theorem kept_giveBack (q : QueueRef) (hd : Ident) : Kept (c.giveBack q hd).journal register := by
  rcases giveBack_cases hs q hd with hn | ⟨n, m, v, b', flying, hc, -⟩
  · rw [hn]
    exact h
  · rw [hc]
    exact .handled h (by rintro _ _ _ ⟨⟩)

omit hs in
/-- The arrival of a letter hands in nothing. -/
theorem kept_land (i : Nat) : Kept (c.land i).journal register := by
  unfold Chronicle.land
  cases c.flying[i]? with
  | none => exact h
  | some x =>
    obtain ⟨n, letter⟩ := x
    show Kept (arrival c.broker n letter :: c.journal) register
    unfold arrival
    split
    · exact .copied h (id_identify_ne_blank _ _)
    · exact .handled h (by rintro _ _ _ ⟨⟩)

/-- A nack hands in nothing. -/
theorem kept_nack (q : QueueRef) (hd : Ident) : Kept (c.nack q hd).journal register := by
  have hgive := kept_giveBack h hs q hd
  rcases c.nack_cases q hd with hn | hn
  · rw [hn]
    exact hgive
  · rw [hn]
    exact kept_land hgive 0

/-- What a call hands in is listed. -/
theorem kept_perform (ht : c.broker.Titled) {op : Operation} (hv : op.Valid c.broker) :
    Kept (c.perform op).journal (c.supplies (.call op) ++ register) := by
  cases op with
  | createTopic | addTopic | createQueue | addQueue | subscribe | subscribeTo => exact h
  | enqueue q m => exact kept_enqueue h q m
  | publish topic m deadline clock =>
    show Kept _ (stamped topic m _ _ _ ++ register)
    rw [← stamped_mark ht]
    exact kept_deliverAll h hs _ m fun target hr => hs.closed.hasQueue_of_mem_reached hr
  | publishTo topic m deadline clock =>
    exact kept_deliverAll h hs _ m fun target hr => hs.closed.hasQueue_of_mem_reached hr
  | receive q t => exact kept_receive h hs q t
  | acknowledge q hd => exact kept_acknowledge h hs q hd
  | nack q hd => exact kept_nack h hs q hd

/-- What a move hands in is listed. -/
theorem kept_apply (ht : c.broker.Titled) {v : Move} (hv : v.Valid c.broker) :
    Kept (c.apply v).journal (c.supplies v ++ register) := by
  cases v with
  | call op => exact kept_perform h hs ht hv
  | deliver topic m target => exact kept_deliver h topic m target
  | giveBack q hd => exact kept_giveBack h hs q hd
  | land i => exact kept_land h i

end Steps

/-- In every state of every run, topics have the names that lead to them. -/
theorem Reachable.titled {c : Chronicle} (hc : c.Reachable) : c.broker.Titled := by
  induction hc with
  | create defaults => exact titled_create defaults
  | @apply c v hc hv ih =>
    rcases hc.sound.broker_apply_cases hv with ⟨-, hsame⟩ | ⟨op, -, hop, hb⟩
    · exact hsame.titled ih hc.sound.closed
    · rw [hb]
      exact ih.perform hc.sound.closed hop

/-- Every run keeps its register with its journal. -/
theorem kept_run {c : Chronicle} (hc : c.Reachable) {register : List (Nat × Supply)}
    (h : Kept c.journal register) {moves : List Move} (hv : c.Admits moves) :
    Kept (c.run moves).journal (c.register moves ++ register) := by
  induction moves generalizing c register with
  | nil => exact h
  | cons v rest ih =>
    have hstep := kept_apply h hc.sound hc.titled hv.1
    rw [Chronicle.register, List.append_assoc]
    exact ih (hc.apply hv.1) hstep hv.2

/-! ## Every message -/

/-- A message of an item: the item has exactly one descent, and that describes the message, which
has an id. -/
structure Traced (c : Chronicle) (register : List (Nat × Supply)) (n : Nat) (m : Message) :
    Prop where
  unique : ∃! d, Descends c.broker.rules? register c.journal n d
  described : ∀ d, Descends c.broker.rules? register c.journal n d → d.Describes m
  identified : m.id ≠ .blank

/-- In a run, whatever is held is traced. -/
theorem traced_of_held {c : Chronicle} (hs : c.Sound) {register : List (Nat × Supply)}
    (h : Kept c.journal register) {q : QueueRef} {n : Nat} {m : Message}
    (hm : (n, m) ∈ held q c.journal) : c.Traced register n m := by
  obtain ⟨hid, d, hd, honly, hy⟩ := h.descent_of_held hs.lawful hm
  refine ⟨⟨d, hd, honly⟩, fun d' hd' => ?_, hid⟩
  rw [honly d' hd']
  exact hy.describes

/-- After any run, every message that a queue holds, and every message that a `receive` would
return, is that of an item which descends from exactly one message that a caller handed in during
the run. It has the type, the payload and the time of creation of that message, and its metadata but
for the broker's own keys. If it was published, it bears the name of the topic and the delivery id
with which it was stamped, however often it was given up since; if it was given up, it bears the
name of the last queue that did so, and the reason. It has an id. -/
theorem provenance_is_kept {defaults : QueueDefaults} {moves : List Move}
    (hv : (create defaults).Admits moves) {c : Chronicle} (hc : c = (create defaults).run moves)
    {register : List (Nat × Supply)} (hr : register = (create defaults).register moves) :
    (∀ q, c.broker.contents q = (held q c.journal).map Prod.snd) ∧
    (∀ q, ∀ x ∈ held q c.journal, c.Traced register x.1 x.2) ∧
    (∀ q t m b, c.broker.receive q t = (some m, b) →
      ∃ n old, (n, old) ∈ held q c.journal ∧ c.Traced register n m) ∧
    ∀ n d, Descends c.broker.rules? register c.journal n d →
      ∃ before v after, moves = before ++ v :: after ∧
        v.HandsIn ((create defaults).run before).broker d.supply := by
  have hnew : (create defaults).Reachable := .create defaults
  have hs : c.Sound := hc ▸ (hnew.run hv).sound
  have hkept : Kept c.journal register := by
    have hrun := kept_run hnew .empty hv
    rw [List.append_nil, ← hr, ← hc] at hrun
    exact hrun
  refine ⟨hs.replay, fun q x hx => traced_of_held hs hkept hx, fun q t m b hb => ?_,
    fun n d hd => handsIn_of_mem_register (hr ▸ hd.mem_register)⟩
  -- What is returned is what the queue holds then, under a lease.
  rcases hs.toRecords.receive q t with hn | ⟨n, m', b', hb', hf, -⟩
  · rw [hn] at hb
    cases hb
  · rw [hb'] at hb
    cases hb
    obtain ⟨r, old, hd, hold, -, -, rfl, -⟩ := hf.leased
    obtain ⟨hunique, hdesc, hid⟩ := traced_of_held hs hkept hold
    refine ⟨n, old, hold, hunique, fun d hd' => ?_, hid⟩
    have hy := (hdesc d hd').toYields.of_bare (old.bare_leased hd (t.deadline r.visibilityTimeout))
    exact hy.describes

/-- A message that a caller publishes. -/
def orderPlaced : Message :=
  ((Message.create (.text "m") "order" [123, 125] .first).setMetadata "tenant"
    (.text "acme")).setMetadata lastQueueKey (.text "elsewhere")

/-- A run in which one queue gives a published message up, and then the queue for its dead letters
does. -/
def twiceGivenUp : List Move :=
  [.call (.createQueue "morgue" {}),
    .call (.createQueue "dead" { maxRetries := some 1, deadLetters := some ⟨0⟩ }),
    .call (.createQueue "work" { maxRetries := some 1, deadLetters := some ⟨1⟩ }),
    .call (.createTopic "orders"),
    .call (.subscribe "orders" "work"),
    .call (.publish "orders" orderPlaced none fun _ => .zero),
    .call (.receive ⟨2⟩ .first),
    .call (.nack ⟨2⟩ (.generated 2)),
    .call (.receive ⟨1⟩ .first),
    .call (.nack ⟨1⟩ (.generated 4))]

/-- The message arrives in the last queue with what the caller gave it, with the topic and the stamp
of its publication, and with the name of the second queue in place of the caller's entry. -/
theorem provenance_is_kept_twiceGivenUp :
    ∃ (m : Message) (d : Descent),
      ((create .standard).run twiceGivenUp).broker.contents ⟨0⟩ = [m] ∧
      d.supply = .published "orders" orderPlaced (.generated 1) ∧ d.Describes m ∧
      m.metadata.find? lastQueueKey = some (.text "dead") := by
  have hv : (create .standard).Admits twiceGivenUp := by decide
  obtain ⟨hreplay, htraced, -, -⟩ := provenance_is_kept hv rfl rfl
  have hregister : (create .standard).register twiceGivenUp =
      [(0, .published "orders" orderPlaced (.generated 1))] := by decide
  have hmarks : (((create .standard).run twiceGivenUp).broker.contents ⟨0⟩).map
      (·.metadata.find? lastQueueKey) = [some (.text "dead")] := by decide
  obtain ⟨m, hcontents, hmark⟩ := List.map_eq_singleton_iff.mp hmarks
  obtain ⟨x, hheld, rfl⟩ := List.map_eq_singleton_iff.mp ((hreplay ⟨0⟩).symm.trans hcontents)
  have htrace := htraced ⟨0⟩ x (by rw [hheld]; exact List.mem_singleton_self x)
  obtain ⟨d, hd, -⟩ := htrace.unique
  have hsupply := hd.mem_register
  rw [hregister] at hsupply
  have hroot := List.mem_singleton.mp hsupply
  exact ⟨x.2, d, hcontents, (Prod.mk.inj hroot).2, htrace.described d hd, hmark⟩

end MessageBroker.Chronicle
