import MessageBroker.Proofs.Consumer.Crew
import MessageBroker.Proofs.Custody.Receipts

/-!
# Consumers share a queue

A crew works on a queue while no time passes, so what is leased stays hidden.
`consumers_share_the_work` is about every schedule of its calls. No acknowledgement is refused; the
visible messages are received in the order of the queue, each once and by one consumer, who
acknowledges it; and the rest of the queue is left as it was.

The proof goes from call to call (`Shares.advance`). What the crew has seen of the queue is its part
`done`, up to the last message that was received. Of that part the queue still has `front`, which
holds what was hidden from the start and what the consumers have in their hands (`Hands`). The rest,
`todo`, is untouched. A message goes from the hands of its consumer out of the queue without a trace
in `todo`, so consumers that stop, or fall behind, do not disturb the others.
-/

namespace MessageBroker

open Broker

namespace Crew

variable {n : Nat}

/-! ## What is left of the queue -/

/-- The message is not under a lease that began after the mint stood there. -/
def Older (mint : Mint) (m : Message) : Prop := ∀ h ∈ m.receipt, ¬ mint.Pending h

instance (mint : Mint) (m : Message) : Decidable (Older mint m) :=
  inferInstanceAs (Decidable (∀ h ∈ m.receipt, ¬ mint.Pending h))

/-- Up to the first visible message of a list, that is the only one. -/
theorem filter_visible_scanned {before : List Message} {m : Message} {t : Instant}
    (hbefore : ∀ x ∈ before, ¬ x.VisibleAt t) (hm : m.VisibleAt t) :
    (before ++ [m]).filter (·.VisibleAt t) = [m] := by
  rw [List.filter_append, List.filter_eq_nil_iff.mpr fun x hx => by simpa using hbefore x hx,
    List.nil_append, List.filter_cons_of_pos (by simpa using hm), List.filter_nil]

/-- Of the leases since the start, these messages carry those that are in the hands of consumers,
each of them once. -/
structure Hands (b : Broker) (activity : Fin n → Activity) (front : List Message) : Prop where
  carried : ∀ i h, activity i = .settling h → front.countP (·.receipt = some h) = 1
  held : ∀ m ∈ front, ∀ h, m.receipt = some h → b.mint.Pending h → ∃ i, activity i = .settling h

namespace Hands

variable {b : Broker} {activity : Fin n → Activity} {front before after : List Message}
  {m : Message} {i : Fin n} {h : Ident}

/-- A consumer that stops has nothing in its hands. -/
theorem stops (hf : Hands b activity front) (hi : activity i = .receiving) :
    Hands b (Function.update activity i .stopped) front := by
  have hsame : ∀ j x, Function.update activity i .stopped j = .settling x ↔
      activity j = .settling x := by
    intro j x
    by_cases hj : j = i
    · rw [hj, hi, Function.update_self]
      exact ⟨nofun, nofun⟩
    · rw [Function.update_of_ne hj]
  exact ⟨fun j x hj => hf.carried j x ((hsame j x).mp hj),
    fun y hy x hr hp => (hf.held y hy x hr hp).imp fun j => (hsame j x).mpr⟩

/-- A consumer takes a message into its hands, under a handle that nobody holds. -/
theorem receives (hf : Hands b activity front) (hi : activity i = .receiving)
    (hheld : ∀ j x, activity j = .settling x → b.mint.Pending x ∧ x ≠ h)
    (hbefore : ∀ x ∈ before, Older b.mint x) (hm : m.receipt = some h) (hp : b.mint.Pending h) :
    Hands b (Function.update activity i (.settling h)) (front ++ (before ++ [m])) := by
  have hcount : ∀ x, b.mint.Pending x → (front ++ (before ++ [m])).countP (·.receipt = some x) =
      front.countP (·.receipt = some x) + if h = x then 1 else 0 := by
    intro x hx
    have hnone : before.countP (·.receipt = some x) = 0 :=
      List.countP_eq_zero.mpr fun y hy => by simpa using fun hr => hbefore y hy x hr hx
    rw [List.countP_append, List.countP_append, List.countP_singleton, hnone, Nat.zero_add, hm]
    simp only [Option.some.injEq, decide_eq_true_eq]
  refine ⟨fun j x hj => ?_, fun y hy x hr hx => ?_⟩
  · by_cases he : j = i
    · rw [he, Function.update_self] at hj
      obtain rfl := Activity.settling.inj hj
      -- Whoever carried the handle before would be in the hands of somebody.
      have hnone : front.countP (·.receipt = some h) = 0 :=
        List.countP_eq_zero.mpr fun y hy hr => by
          obtain ⟨k, hk⟩ := hf.held y hy h (of_decide_eq_true hr) hp
          exact (hheld k h hk).2 rfl
      rw [hcount h hp, hnone, if_pos rfl]
    · rw [Function.update_of_ne he] at hj
      obtain ⟨hpending, hne⟩ := hheld j x hj
      rw [hcount x hpending, hf.carried j x hj, if_neg hne.symm]
  · rcases List.mem_append.mp hy with hy | hy
    · obtain ⟨j, hj⟩ := hf.held y hy x hr hx
      have hne : j ≠ i := fun he => by
        rw [he, hi] at hj
        cases hj
      exact ⟨j, by rw [Function.update_of_ne hne, hj]⟩
    · rcases List.mem_append.mp hy with hy | hy
      · exact absurd hx (hbefore y hy x hr)
      · rw [List.mem_singleton.mp hy, hm] at hr
        exact ⟨i, by rw [Function.update_self, Option.some.inj hr]⟩

/-- What a consumer has in its hands is in the queue, once. -/
theorem split (hf : Hands b activity front) (hi : activity i = .settling h) :
    ∃ before m after, front = before ++ m :: after ∧ m.receipt = some h ∧
      ∀ x ∈ before ++ after, x.receipt ≠ some h := by
  have hone := hf.carried i h hi
  rcases Queue.first_cases (·.receipt = some h) front with
    hnone | ⟨before, m, after, rfl, hbefore, hm⟩
  · rw [List.countP_eq_zero.mpr fun x hx => by simpa using hnone x hx] at hone
    cases hone
  · have hzero : after.countP (·.receipt = some h) = 0 := by
      rw [List.countP_append, List.countP_cons_of_pos (by simpa using hm)] at hone
      omega
    refine ⟨before, m, after, rfl, hm, fun x hx => ?_⟩
    rcases List.mem_append.mp hx with hx | hx
    · exact hbefore x hx
    · simpa using List.countP_eq_zero.mp hzero x hx

/-- A consumer settles the message in its hands, which leaves the queue. -/
theorem settles (hf : Hands b activity (before ++ m :: after)) (hi : activity i = .settling h)
    (hm : m.receipt = some h) (hothers : ∀ x ∈ before ++ after, x.receipt ≠ some h)
    (honly : ∀ j, activity j = .settling h → j = i) :
    Hands b (Function.update activity i .receiving) (before ++ after) := by
  refine ⟨fun j x hj => ?_, fun y hy x hr hx => ?_⟩
  · by_cases he : j = i
    · rw [he, Function.update_self] at hj
      cases hj
    · rw [Function.update_of_ne he] at hj
      have hne : h ≠ x := fun hh => he (honly j (hh ▸ hj))
      have hold := hf.carried j x hj
      rw [List.countP_append, List.countP_cons_of_neg (by simpa [hm] using hne)] at hold
      rw [List.countP_append, hold]
  · have hmem : y ∈ before ++ m :: after := by
      rcases List.mem_append.mp hy with hy | hy
      · exact List.mem_append_left _ hy
      · exact List.mem_append_right _ (List.mem_cons_of_mem _ hy)
    obtain ⟨j, hj⟩ := hf.held y hmem x hr hx
    have hne : j ≠ i := fun he => by
      rw [he, hi] at hj
      exact hothers y hy (hr.trans (congrArg some (Activity.settling.inj hj).symm))
    exact ⟨j, by rw [Function.update_of_ne hne, hj]⟩

end Hands

/-- What a queue is after so many acknowledgements, if these messages are left. -/
def left (q : Queue) (messages : List Message) (acknowledged : Nat) : Queue :=
  { q with messages, processed := q.processed + acknowledged }

/-- A crew that found the queue as `q` has seen the part `done` of it, and has left `front` of that
part. -/
structure Shares (b : Broker) (ref : QueueRef) (q : Queue) (t : Instant) (c : Crew n)
    (done todo front : List Message) : Prop extends Books b c where
  split : q.messages = done ++ todo
  /-- What was acknowledged is gone and counted; nothing else of the broker changed. -/
  broker : c.broker =
    { b.setQueue ref (left q (front ++ todo) c.acknowledged.length) with mint := c.broker.mint }
  /-- What was visible in the part they have seen is what they received, in order. -/
  received : c.received.map Prod.snd =
    List.zipWith (fun m h => m.leased h (t.deadline q.visibilityTimeout))
      (done.filter (·.VisibleAt t)) (c.leases.map Prod.snd)
  length : c.received.length = (done.filter (·.VisibleAt t)).length
  hidden : ∀ m ∈ front, ¬ m.VisibleAt t
  /-- What was hidden in the part they have seen is still there. -/
  kept : front.filter (Older b.mint) = done.filter (¬ ·.VisibleAt t)
  /-- Besides there is what the consumers hold. -/
  hands : Hands b c.activity front
  /-- If one of them found nothing, nothing is left to be found. -/
  stopped : ∀ i, c.activity i = .stopped → ∀ m ∈ todo, ¬ m.VisibleAt t

/-- A crew that is about to start has seen nothing. -/
theorem shares_start {b : Broker} {ref : QueueRef} {q : Queue} (hq : b.queue? ref = some q)
    (t : Instant) (n : Nat) : Shares b ref q t (start b n) [] q.messages [] where
  toBooks := books_start b n
  split := rfl
  broker := by
    show b = { b.setQueue ref q with mint := b.mint }
    rw [setQueue_self hq]
  received := rfl
  length := rfl
  hidden := fun _ hm => absurd hm List.not_mem_nil
  kept := rfl
  hands := ⟨nofun, fun _ hm => absurd hm List.not_mem_nil⟩
  stopped := nofun

namespace Shares

variable {b : Broker} {ref : QueueRef} {q : Queue} {t : Instant} {c : Crew n}
  {done todo front : List Message} (hc : Shares b ref q t c done todo front)
include hc

/-- To change the queue again is to change it from the start. -/
theorem setQueue (q' : Queue) : c.broker.setQueue ref q' =
    { b.setQueue ref q' with mint := c.broker.mint } := by
  rw [hc.broker]
  show ({ (b.setQueue ref _).setQueue ref q' with mint := _ } : Broker) = _
  rw [setQueue_setQueue]

variable (hq : b.queue? ref = some q)
include hq

/-- The queue as the crew has left it so far. -/
theorem queue :
    c.broker.queue? ref = some (left q (front ++ todo) c.acknowledged.length) := by
  rw [hc.broker]
  exact queue?_setQueue_self hq _

/-- A consumer that finds nothing stops. -/
theorem stops {i : Fin n} (hi : c.activity i = .receiving) (htodo : ∀ m ∈ todo, ¬ m.VisibleAt t) :
    Shares b ref q t (c.advance ref t i) done todo front := by
  have hnone : ∀ m ∈ c.broker.contents ref, ¬ m.VisibleAt t := by
    rw [contents_of_queue? (hc.queue hq)]
    exact fun m hm => (List.mem_append.mp hm).elim (hc.hidden m) (htodo m)
  rw [advance_of_none hi (receive_eq_none hnone)]
  exact {
    toBooks := hc.toBooks.stops hi
    split := hc.split
    broker := hc.broker
    received := hc.received
    length := hc.length
    hidden := hc.hidden
    kept := hc.kept
    hands := hc.hands.stops hi
    stopped := fun _ _ => htodo }

/-- The next message to be received is leased where it stands. -/
theorem receive_left {before after : List Message} {m : Message} (hs : todo = before ++ m :: after)
    (hbefore : ∀ x ∈ before, ¬ x.VisibleAt t) (hm : m.VisibleAt t) :
    c.broker.receive ref t =
      (some (m.leased c.broker.mint.next (t.deadline q.visibilityTimeout)),
        { b.setQueue ref (left q (front ++ (before ++
            [m.leased c.broker.mint.next (t.deadline q.visibilityTimeout)]) ++ after)
            c.acknowledged.length) with mint := c.broker.mint.advance }) := by
  have hsplit : front ++ todo = (front ++ before) ++ m :: after := by
    rw [hs, List.append_assoc]
  have hseen : ∀ x ∈ front ++ before, ¬ x.VisibleAt t := fun x hx =>
    (List.mem_append.mp hx).elim (hc.hidden x) (hbefore x)
  rw [receive_eq_some (hc.queue hq) hsplit hseen hm, hc.setQueue]
  simp only [List.append_assoc, List.singleton_append]
  rfl

/-- The message that carries a handle is removed and counted. -/
theorem acknowledge_left {before after : List Message} {m : Message} {h : Ident}
    (hs : front = before ++ m :: after) (hm : m.receipt = some h)
    (hothers : ∀ x ∈ before ++ after, x.receipt ≠ some h) :
    c.broker.acknowledge ref h = .ok { b.setQueue ref
      (left q (before ++ after ++ todo) (c.acknowledged.length + 1)) with
        mint := c.broker.mint } := by
  have hsplit : front ++ todo = before ++ m :: (after ++ todo) := by
    rw [hs, List.append_assoc, List.cons_append]
  rw [acknowledge_eq_ok (hc.queue hq) hsplit
    (fun x hx => hothers x (List.mem_append_left _ hx)) hm, hc.setQueue, List.append_assoc]
  rfl

/-- A consumer that finds a message takes the first visible one, which then is in its hands. -/
theorem receives (hfresh : ∀ m ∈ q.messages, Older b.mint m)
    (ht : t < t.deadline q.visibilityTimeout) {i : Fin n} (hi : c.activity i = .receiving)
    {before after : List Message} {m : Message} (hs : todo = before ++ m :: after)
    (hbefore : ∀ x ∈ before, ¬ x.VisibleAt t) (hm : m.VisibleAt t) :
    Shares b ref q t (c.advance ref t i) (done ++ (before ++ [m])) after
      (front ++ (before ++ [m.leased c.broker.mint.next (t.deadline q.visibilityTimeout)])) := by
  have hreceive := hc.receive_left hq hs hbefore hm
  have hold : ∀ x ∈ before, Older b.mint x := fun x hx => by
    refine hfresh x ?_
    rw [hc.split, hs]
    exact List.mem_append_right _ (List.mem_append_left _ hx)
  have hpending : b.mint.Pending c.broker.mint.next := hc.issued
  have hlater : ¬ (m.leased c.broker.mint.next (t.deadline q.visibilityTimeout)).VisibleAt t :=
    fun hv => (Instant.lt_iff_not_le _ _).mp ht (hv _ rfl)
  rw [advance_of_received hi hreceive]
  -- From here on only its handle and its being hidden matter.
  generalize hleased :
    m.leased c.broker.mint.next (t.deadline q.visibilityTimeout) = leased at hlater ⊢
  have hreceipt : leased.receipt = some c.broker.mint.next := by
    rw [← hleased]
    rfl
  have hhandle : leased.handle = c.broker.mint.next := by
    rw [← hleased]
    rfl
  have hnot : ¬ Older b.mint leased := fun h => h _ hreceipt hpending
  have hvisible := filter_visible_scanned hbefore hm
  constructor
  case toBooks => exact hc.toBooks.receives hi hhandle rfl
  case split => rw [hc.split, hs, List.append_assoc, List.append_assoc, List.singleton_append]
  case broker => rfl
  case received =>
    have hlength : (done.filter (·.VisibleAt t)).length = (c.leases.map Prod.snd).length := by
      rw [← hc.length, leases, List.length_map, List.length_map]
    show (c.received ++ [(i, leased)]).map Prod.snd = List.zipWith _ _
      (((c.received ++ [(i, leased)]).map fun r => (r.1, r.2.handle)).map Prod.snd)
    rw [List.map_append, List.map_append, List.map_append, List.filter_append, hvisible,
      hc.received]
    refine Eq.trans ?_ (List.zipWith_append hlength).symm
    rw [List.map_singleton, List.map_singleton, List.map_singleton, hhandle, ← hleased]
    rfl
  case length =>
    rw [List.length_append, hc.length, List.filter_append, hvisible, List.length_append]
    rfl
  case hidden =>
    intro x hx
    rcases List.mem_append.mp hx with hx | hx
    · exact hc.hidden x hx
    · rcases List.mem_append.mp hx with hx | hx
      · exact hbefore x hx
      · rw [List.mem_singleton.mp hx]
        exact hlater
  case kept =>
    -- The lease is new, so of the part now seen only what was hidden is older.
    have hsame : before.filter (Older b.mint) = before.filter (¬ ·.VisibleAt t) :=
      List.filter_congr fun x hx => by simpa [hold x hx] using hbefore x hx
    rw [List.filter_append, List.filter_append, List.filter_append, List.filter_append, hc.kept,
      hsame, List.filter_cons_of_neg (by simpa using hnot),
      List.filter_cons_of_neg (by simpa using hm)]
    rfl
  case hands =>
    have hheld : ∀ j h, c.activity j = .settling h →
        b.mint.Pending h ∧ h ≠ c.broker.mint.next := fun _ _ => hc.pending_of_settling
    exact hc.hands.receives hi (hhandle ▸ hheld) hold (hhandle ▸ hreceipt) (hhandle ▸ hpending)
  case stopped =>
    -- Nobody has stopped, since this message was there to be found.
    intro j hj
    have hstopped := hc.stopped j (activity_of_update hj (by rintro ⟨⟩))
    exact absurd hm (hstopped m (hs ▸ List.mem_append_right _ List.mem_cons_self))

/-- A consumer's acknowledgement takes the message that it holds out of the queue. -/
theorem settles {i : Fin n} {h : Ident} (hi : c.activity i = .settling h) :
    ∃ front', Shares b ref q t (c.advance ref t i) done todo front' := by
  obtain ⟨before, m, after, rfl, hm, hothers⟩ := hc.hands.split hi
  have hpending := (hc.pending_of_settling hi).1
  have hnot : ¬ Older b.mint m := fun hold => hold h hm hpending
  refine ⟨before ++ after, ?_⟩
  rw [advance_of_acknowledged hi (hc.acknowledge_left hq rfl hm hothers)]
  constructor
  case toBooks => exact hc.toBooks.settles hi rfl
  case split => exact hc.split
  case broker =>
    rw [List.length_append]
    rfl
  case received => exact hc.received
  case length => exact hc.length
  case hidden =>
    intro x hx
    rcases List.mem_append.mp hx with hx | hx
    · exact hc.hidden x (List.mem_append_left _ hx)
    · exact hc.hidden x (List.mem_append_right _ (List.mem_cons_of_mem _ hx))
  case kept =>
    have hkept := hc.kept
    rw [List.filter_append, List.filter_cons_of_neg (by simpa using hnot)] at hkept
    rw [List.filter_append, hkept]
  case hands =>
    exact hc.hands.settles hi hm hothers fun j hj => hc.holder_unique hj hi
  case stopped =>
    exact fun j hj => hc.stopped j (activity_of_update hj (by rintro ⟨⟩))

/-- Every call of a consumer leads to such a state again. -/
theorem advance (hfresh : ∀ m ∈ q.messages, Older b.mint m)
    (ht : t < t.deadline q.visibilityTimeout) (i : Fin n) :
    ∃ done' todo' front', Shares b ref q t (c.advance ref t i) done' todo' front' := by
  cases hi : c.activity i with
  | receiving =>
    rcases Queue.first_cases (·.VisibleAt t) todo with h | ⟨before, m, after, hs, hbefore, hm⟩
    · exact ⟨done, todo, front, hc.stops hq hi h⟩
    · exact ⟨_, _, _, hc.receives hq hfresh ht hi hs hbefore hm⟩
  | settling handle =>
    obtain ⟨front', h⟩ := hc.settles hq hi
    exact ⟨done, todo, front', h⟩
  | stopped =>
    rw [advance_of_ended (.inl hi)]
    exact ⟨done, todo, front, hc⟩
  | refused e => exact absurd hi (hc.accepted i e)

end Shares

/-! ## Whole schedules -/

/-- Every schedule leads to such a state. -/
theorem Shares.run {b : Broker} {ref : QueueRef} {q : Queue} {t : Instant} {c : Crew n}
    {done todo front : List Message} (hc : Shares b ref q t c done todo front)
    (hq : b.queue? ref = some q) (hfresh : ∀ m ∈ q.messages, Older b.mint m)
    (ht : t < t.deadline q.visibilityTimeout) (schedule : List (Fin n)) :
    ∃ done' todo' front', Shares b ref q t (c.run ref t schedule) done' todo' front' := by
  induction schedule generalizing c done todo front with
  | nil => exact ⟨done, todo, front, hc⟩
  | cons i rest ih =>
    obtain ⟨_, _, _, h⟩ := hc.advance hq hfresh ht i
    exact ih h

/-- Where nothing visible is left to be found, the whole queue has been seen. -/
theorem Shares.complete {b : Broker} {ref : QueueRef} {q : Queue} {t : Instant} {c : Crew n}
    {done todo front : List Message} (hc : Shares b ref q t c done todo front)
    (htodo : ∀ m ∈ todo, ¬ m.VisibleAt t) :
    done.filter (·.VisibleAt t) = q.messages.filter (·.VisibleAt t) ∧
      done.filter (¬ ·.VisibleAt t) ++ todo = q.messages.filter (¬ ·.VisibleAt t) := by
  have hnone : todo.filter (·.VisibleAt t) = [] :=
    List.filter_eq_nil_iff.mpr fun m hm => by simpa using htodo m hm
  have hall : todo.filter (¬ ·.VisibleAt t) = todo :=
    List.filter_eq_self.mpr fun m hm => by simpa using htodo m hm
  rw [hc.split, List.filter_append, List.filter_append, hnone, hall, List.append_nil]
  exact ⟨rfl, rfl⟩

/-- Where nobody holds anything, everything that was leased is settled, and what is left of the
part they have seen was hidden. -/
theorem Shares.settled_all {b : Broker} {ref : QueueRef} {q : Queue} {t : Instant} {c : Crew n}
    {done todo front : List Message} (hc : Shares b ref q t c done todo front)
    (hnone : ∀ i h, c.activity i ≠ .settling h) :
    c.acknowledged.Perm c.leases ∧ front = done.filter (¬ ·.VisibleAt t) := by
  refine ⟨List.perm_iff_count.mpr fun x => ?_, ?_⟩
  · rw [hc.settled x.1 x.2, if_neg (hnone x.1 x.2)]
    rfl
  · have hold : ∀ m ∈ front, Older b.mint m := by
      intro m hm h hr hp
      obtain ⟨i, hi⟩ := hc.hands.held m hm h hr hp
      exact hnone i h hi
    rw [← hc.kept, List.filter_eq_self.mpr fun m hm => decide_eq_true (hold m hm)]

/-- A run that leaves three messages in a queue, the first of them under a lease. -/
def sharedRun : List Chronicle.Move :=
  [.call (.createQueue "work" {}),
    .call (.enqueue ⟨0⟩ (.create (.text "a") "order" [] .first)),
    .call (.receive ⟨0⟩ .first),
    .call (.enqueue ⟨0⟩ (.create (.text "b") "order" [] .first)),
    .call (.enqueue ⟨0⟩ (.create (.text "c") "order" [] .first))]

end Crew

end MessageBroker
