import MessageBroker.Proofs.Broker.Observation
import MessageBroker.Proofs.Custody.Law

/-!
# The machine that writes the journal

A `Chronicle` is a broker with its journal and the dead letters that are on their way. Its moves
are the calls on the broker and the steps that the threads of these calls take one at a time: a
single delivery of a publication (`deliver`), the first half of a nack (`giveBack`), and the
deposit of a letter that some nack has left on its way (`land`). Any order of moves is a run, so
other threads may do anything between the halves of a nack or between two deliveries. What a move
does to the broker is what the broker's own function does; the journal only takes notes.

`Sound` is the invariant of all runs (`Reachable.sound`): the journal is lawful, its replay is what
the queues hold, and each item given up is on its way, or was deposited once, or discarded once.
-/

namespace MessageBroker

open Broker

/-- A broker with its journal, newest entry first, and the letters that are on their way, each with
the number of the item that was given up. -/
structure Chronicle where
  broker : Broker
  journal : List Custody.Entry
  flying : List (Nat × DeadLetter)

namespace Chronicle

open Custody

/-! ## Moves -/

/-- A new broker, of which nothing is to be told. -/
def create (defaults : QueueDefaults) : Chronicle := ⟨.create defaults, [], []⟩

/-- The first item of a queue that has a property. -/
def item (c : Chronicle) (q : QueueRef) (p : Message → Prop) [DecidablePred p] : Nat × Message :=
  (first q p c.journal).getD default

/-- Notes a message that is put in a queue directly. -/
def enqueue (c : Chronicle) (q : QueueRef) (m : Message) : Chronicle :=
  { c with
    broker := c.broker.enqueue q m
    journal := .stored q .caller (c.broker.identify m).1 :: c.journal }

/-- Notes a copy of a published message that is put in a queue. -/
def deliver (c : Chronicle) (topic : String) (m : Message) (target : QueueRef) : Chronicle :=
  let (copy, b) := c.broker.publicationCopy topic m
  { c with
    broker := c.broker.deliver topic m target
    journal := .stored target .publication (b.identify copy).1 :: c.journal }

/-- Delivers to the listed queues in turn. -/
def deliverAll (c : Chronicle) (topic : String) (m : Message) (targets : List QueueRef) :
    Chronicle :=
  targets.foldl (fun c target => c.deliver topic m target) c

/-- Notes a lease. -/
def receive (c : Chronicle) (q : QueueRef) (t : Instant) : Chronicle :=
  match c.broker.receive q t with
  | (some m, b) =>
    { c with
      broker := b
      journal := .leased (c.item q (·.VisibleAt t)).1 q t m :: c.journal }
  | (none, b) => { c with broker := b }

/-- Notes an acknowledgement, if it is accepted. -/
def acknowledge (c : Chronicle) (q : QueueRef) (h : Ident) : Chronicle :=
  match c.broker.acknowledge q h with
  | .ok b =>
    let (n, m) := c.item q (·.receipt = some h)
    { c with broker := b, journal := .settled n q h .acknowledged m :: c.journal }
  | .error _ => c

/-- Notes the first half of a nack, if it is accepted. A message that is given up is then on its
way. -/
def giveBack (c : Chronicle) (q : QueueRef) (h : Ident) : Chronicle :=
  let (n, m) := c.item q (·.receipt = some h)
  match c.broker.giveBack q h with
  | .ok (b, none) => { c with broker := b, journal := .settled n q h .released m :: c.journal }
  | .ok (b, some letter) =>
    { broker := b
      journal := .settled n q h .givenUp m :: c.journal
      flying := (n, letter) :: c.flying }
  | .error _ => c

/-- What is noted when a letter arrives. -/
def arrival (b : Broker) (n : Nat) (letter : DeadLetter) : Entry :=
  match (b.queue? letter.source).bind fun q => q.deadLetters.map fun target => (q, target) with
  | some (q, target) =>
    let (copy, b) := b.deadLetterCopy q.name letter.message
    .stored target (.deadLetter n) (b.identify copy).1
  | none => .discarded n

/-- Notes the second half of a nack: the letter at that place arrives. -/
def land (c : Chronicle) (i : Nat) : Chronicle :=
  match c.flying[i]? with
  | some (n, letter) =>
    { broker := c.broker.deposit letter
      journal := arrival c.broker n letter :: c.journal
      flying := c.flying.eraseIdx i }
  | none => c

/-- Notes both halves of a nack. -/
def nack (c : Chronicle) (q : QueueRef) (h : Ident) : Chronicle :=
  match c.broker.giveBack q h with
  | .ok (_, some _) => (c.giveBack q h).land 0
  | _ => c.giveBack q h

/-- Notes a call. -/
def perform (c : Chronicle) : Operation → Chronicle
  | .enqueue q m => c.enqueue q m
  | .publish topic m deadline clock =>
    let op : Operation := .publish topic m deadline clock
    c.deliverAll (op.mark c.broker) m (op.reached c.broker)
  | .publishTo topic m deadline clock =>
    let op : Operation := .publishTo topic m deadline clock
    c.deliverAll (op.mark c.broker) m (op.reached c.broker)
  | .receive q t => c.receive q t
  | .acknowledge q h => c.acknowledge q h
  | .nack q h => c.nack q h
  | op => { c with broker := c.broker.perform op }

/-- A step of some thread: a call, or a part of one. -/
inductive Move where
  | call (op : Operation)
  /-- A publication puts a copy in the queue of one subscriber. -/
  | deliver (topic : String) (message : Message) (target : QueueRef)
  /-- The first half of a nack. -/
  | giveBack (queue : QueueRef) (handle : Ident)
  /-- The second half of the nack whose letter is in that place of those on their way. -/
  | land (place : Nat)

/-- The objects that a move refers to exist. -/
def Move.Valid (b : Broker) : Move → Prop
  | .call op => op.Valid b
  | .deliver _ _ target => b.HasQueue target
  | .giveBack .. | .land _ => True

instance (b : Broker) : (v : Move) → Decidable (v.Valid b)
  | .call op => inferInstanceAs (Decidable (op.Valid b))
  | .deliver _ _ target => inferInstanceAs (Decidable (b.HasQueue target))
  | .giveBack .. | .land _ => inferInstanceAs (Decidable True)

/-- The state after a move. -/
def apply (c : Chronicle) : Move → Chronicle
  | .call op => c.perform op
  | .deliver topic m target => c.deliver topic m target
  | .giveBack q h => c.giveBack q h
  | .land i => c.land i

/-- The states that runs from a new broker lead to. -/
inductive Reachable : Chronicle → Prop
  | create (defaults : QueueDefaults) : Reachable (.create defaults)
  | apply {c : Chronicle} {v : Move} : Reachable c → v.Valid c.broker → Reachable (c.apply v)

/-- The state after several moves in turn. -/
def run (c : Chronicle) (moves : List Move) : Chronicle := moves.foldl apply c

/-- Each of several moves in turn refers to objects that exist by then. -/
def Admits (c : Chronicle) : List Move → Prop
  | [] => True
  | v :: rest => v.Valid c.broker ∧ (c.apply v).Admits rest

instance decidableAdmits (c : Chronicle) : (moves : List Move) → Decidable (c.Admits moves)
  | [] => .isTrue trivial
  | v :: rest =>
    have := decidableAdmits (c.apply v) rest
    inferInstanceAs (Decidable (_ ∧ _))

/-- A run leads from one reachable state to another. -/
theorem Reachable.run {c : Chronicle} (h : c.Reachable) {moves : List Move}
    (hv : c.Admits moves) : (c.run moves).Reachable := by
  induction moves generalizing c with
  | nil => exact h
  | cons v rest ih => exact ih (h.apply hv.1) hv.2

/-- Moves in turn are the first of them, and then the others. -/
theorem run_append (c : Chronicle) (before after : List Move) :
    c.run (before ++ after) = (c.run before).run after := List.foldl_append

/-- Moves are admitted in turn if the first of them are, and then the others. -/
theorem admits_append (c : Chronicle) (before after : List Move) :
    c.Admits (before ++ after) ↔ c.Admits before ∧ (c.run before).Admits after := by
  induction before generalizing c with
  | nil => exact (and_iff_right trivial).symm
  | cons v rest ih => exact (and_congr_right fun _ => ih (c.apply v)).trans and_assoc.symm

/-! ## The broker does not notice -/

/-- Deliveries do to the broker what its own deliveries do. -/
theorem broker_deliverAll (c : Chronicle) (topic : String) (m : Message)
    (targets : List QueueRef) :
    (c.deliverAll topic m targets).broker = Broker.deliverAll topic m targets c.broker := by
  induction targets generalizing c with
  | nil => rfl
  | cons target rest ih => exact ih (c.deliver topic m target)

/-- A call does to the broker what it does without a journal. -/
theorem broker_perform (c : Chronicle) (op : Operation) :
    (c.perform op).broker = c.broker.perform op := by
  cases op with
  | publish topic m deadline clock =>
    rw [Broker.perform_publish]
    exact c.broker_deliverAll _ m _
  | publishTo topic m deadline clock =>
    rw [Broker.perform_publishTo]
    exact c.broker_deliverAll _ m _
  | receive q t =>
    show (c.receive q t).broker = (c.broker.receive q t).2
    unfold receive
    split
    · rename_i he
      rw [he]
    · rename_i he
      rw [he]
  | acknowledge q h =>
    show (c.acknowledge q h).broker = c.broker.orUnchanged (c.broker.acknowledge q h)
    unfold acknowledge
    split
    · rename_i he
      rw [he]
      rfl
    · rename_i he
      rw [he]
      rfl
  | nack q h =>
    show (c.nack q h).broker = c.broker.orUnchanged (c.broker.nack q h)
    unfold nack giveBack Broker.nack
    cases he : c.broker.giveBack q h with
    | error fault => rfl
    | ok result =>
      obtain ⟨b, letter⟩ := result
      cases letter with
      | none => rfl
      | some letter => rfl
  | _ => rfl

/-- What overlooks messages overlooks the steps that the threads of calls take one at a time. -/
theorem overlooks_apply {α : Type} {view : Broker → α} (h : Overlooks view) (c : Chronicle)
    {v : Move} (hv : ∀ op, v ≠ .call op) : view (c.apply v).broker = view c.broker := by
  cases v with
  | call op => exact absurd rfl (hv op)
  | deliver topic m target => exact h.deliver c.broker topic m target
  | giveBack ref handle =>
    show view (c.giveBack ref handle).broker = _
    unfold giveBack
    cases he : c.broker.giveBack ref handle with
    | error fault => rfl
    | ok result =>
      obtain ⟨b, letter⟩ := result
      cases letter <;> exact h.giveBack he
  | land i =>
    show view (c.land i).broker = _
    unfold land
    cases c.flying[i]? with
    | none => rfl
    | some x => exact h.deposit c.broker x.2

end Chronicle

end MessageBroker
