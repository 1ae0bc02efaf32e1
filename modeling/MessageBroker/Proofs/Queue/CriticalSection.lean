import MessageBroker.Queue

/-!
# What the critical sections of a queue do

Every section but `enqueue` acts on the first message that has some property: `receive` on the first
visible one, `acknowledge` and `nack` on the first that carries the handle. `first_cases` splits a
list of messages at that message. The lemmas after it say what each section does to a list that is
split in this way, so that no later proof has to follow a scan.

What the sections do to a message concerns its delivery state only; the rest of it is
`Message.bare`.
-/

namespace MessageBroker

namespace Message

/-- The message without its delivery state. -/
def bare (m : Message) : Message := m.fork m.id

@[simp] theorem bare_leased (m : Message) (handle : Ident) (deadline : Instant) :
    (m.leased handle deadline).bare = m.bare := rfl

@[simp] theorem bare_released (m : Message) : m.released.bare = m.bare := rfl

/-- Below the greatest count, a lease counts one. -/
theorem nextCount_of_lt {m : Message} (h : m.retryCount < greatestCount) :
    m.nextCount = m.retryCount + 1 := by
  unfold nextCount
  exact Nat.mod_eq_of_lt (Nat.succ_lt_succ h)

end Message

namespace Queue

/-- A list has no message with a property, or it splits at the first one. -/
theorem first_cases (p : Message → Prop) [DecidablePred p] (messages : List Message) :
    (∀ m ∈ messages, ¬ p m) ∨
      ∃ before m after, messages = before ++ m :: after ∧ (∀ x ∈ before, ¬ p x) ∧ p m := by
  cases hfind : messages.find? (fun m => decide (p m)) with
  | none =>
    left
    intro m hm
    simpa using List.find?_eq_none.mp hfind m hm
  | some m =>
    right
    obtain ⟨hp, before, after, hsplit, hbefore⟩ := List.find?_eq_some_iff_append.mp hfind
    exact ⟨before, m, after, hsplit, fun x hx => by simpa using hbefore x hx, by simpa using hp⟩

/-! ## `receive` -/

/-- Without a visible message there is no lease. -/
theorem leaseFirst_eq_none {now : Instant} {messages : List Message}
    (h : ∀ m ∈ messages, ¬ m.VisibleAt now) (handle : Ident) (deadline : Instant) :
    leaseFirst now handle deadline messages = none := by
  induction messages with
  | nil => rfl
  | cons m rest ih =>
    unfold leaseFirst
    rw [if_neg (h m List.mem_cons_self), ih fun x hx => h x (List.mem_cons_of_mem _ hx)]
    rfl

/-- A lease changes the first visible message where it stands. -/
theorem leaseFirst_append {now : Instant} {before after : List Message} {m : Message}
    (hbefore : ∀ x ∈ before, ¬ x.VisibleAt now) (hm : m.VisibleAt now) (handle : Ident)
    (deadline : Instant) :
    leaseFirst now handle deadline (before ++ m :: after) =
      some (m.leased handle deadline, before ++ m.leased handle deadline :: after) := by
  induction before with
  | nil =>
    show leaseFirst now handle deadline (m :: after) = _
    unfold leaseFirst
    rw [if_pos hm]
    rfl
  | cons x before ih =>
    show leaseFirst now handle deadline (x :: (before ++ m :: after)) = _
    unfold leaseFirst
    rw [if_neg (hbefore x List.mem_cons_self),
      ih fun y hy => hbefore y (List.mem_cons_of_mem _ hy)]
    rfl

/-- Nothing is received from a queue without a visible message. -/
theorem receive_eq_none {q : Queue} {now : Instant} (h : ∀ m ∈ q.messages, ¬ m.VisibleAt now)
    (handle : Ident) : q.receive now handle = none := by
  unfold receive
  rw [leaseFirst_eq_none h]
  rfl

/-- The first visible message is received, and stays where it stands. -/
theorem receive_eq_some {q : Queue} {now : Instant} {before after : List Message} {m : Message}
    (hq : q.messages = before ++ m :: after) (hbefore : ∀ x ∈ before, ¬ x.VisibleAt now)
    (hm : m.VisibleAt now) (handle : Ident) :
    q.receive now handle = some (m.leased handle (now.deadline q.visibilityTimeout),
      { q with messages :=
          before ++ m.leased handle (now.deadline q.visibilityTimeout) :: after }) := by
  unfold receive
  rw [hq, leaseFirst_append hbefore hm]
  rfl

/-! ## `acknowledge` and `nack` -/

/-- A message carries a handle exactly if that handle is its receipt. -/
theorem carries_iff {handle : Ident} {m : Message} :
    carries handle m = true ↔ m.receipt = some handle := by
  unfold carries
  exact decide_eq_true_iff

/-- A handle that no message carries is not held. -/
theorem held?_eq_none {q : Queue} {handle : Ident}
    (h : ∀ m ∈ q.messages, m.receipt ≠ some handle) : q.held? handle = none := by
  unfold held?
  rw [List.find?_eq_none]
  intro m hm hc
  exact h m hm (carries_iff.mp hc)

/-- The first message that carries a handle holds it. -/
theorem held?_eq_some {q : Queue} {handle : Ident} {before after : List Message} {m : Message}
    (hq : q.messages = before ++ m :: after) (hbefore : ∀ x ∈ before, x.receipt ≠ some handle)
    (hm : m.receipt = some handle) : q.held? handle = some m := by
  unfold held?
  rw [hq, List.find?_append, List.find?_eq_none.mpr fun x hx hc => hbefore x hx (carries_iff.mp hc),
    List.find?_cons_of_pos (carries_iff.mpr hm)]
  rfl

/-- Removal takes the first message that carries the handle out of the list. -/
theorem removeFirst_append {handle : Ident} {before after : List Message} {m : Message}
    (hbefore : ∀ x ∈ before, x.receipt ≠ some handle) (hm : m.receipt = some handle) :
    removeFirst handle (before ++ m :: after) = before ++ after := by
  unfold removeFirst
  rw [List.eraseP_append_right _ fun x hx hc => hbefore x hx (carries_iff.mp hc),
    List.eraseP_cons_of_pos (carries_iff.mpr hm)]

/-- Release changes the first message that carries the handle where it stands. -/
theorem releaseFirst_append {handle : Ident} {before after : List Message} {m : Message}
    (hbefore : ∀ x ∈ before, x.receipt ≠ some handle) (hm : m.receipt = some handle) :
    releaseFirst handle (before ++ m :: after) = before ++ m.released :: after := by
  induction before with
  | nil =>
    show releaseFirst handle (m :: after) = _
    unfold releaseFirst
    rw [if_pos (carries_iff.mpr hm)]
    rfl
  | cons x before ih =>
    show releaseFirst handle (x :: (before ++ m :: after)) = _
    unfold releaseFirst
    rw [if_neg fun hc => hbefore x List.mem_cons_self (carries_iff.mp hc),
      ih fun y hy => hbefore y (List.mem_cons_of_mem _ hy)]
    rfl

section Held

variable {q : Queue} {handle : Ident} {before after : List Message} {m : Message}

/-- A handle that no message carries acknowledges nothing. -/
theorem acknowledge_eq_none (h : ∀ m ∈ q.messages, m.receipt ≠ some handle) :
    q.acknowledge handle = none := by
  unfold acknowledge
  rw [held?_eq_none h]
  rfl

/-- A handle that no message carries gives nothing back. -/
theorem nack_eq_none (h : ∀ m ∈ q.messages, m.receipt ≠ some handle) : q.nack handle = none := by
  unfold nack
  rw [held?_eq_none h]
  rfl

variable (hq : q.messages = before ++ m :: after)
  (hbefore : ∀ x ∈ before, x.receipt ≠ some handle) (hm : m.receipt = some handle)
include hq hbefore hm

/-- The message that carries the handle is removed and counted. -/
theorem acknowledge_eq_some : q.acknowledge handle =
    some { q with messages := before ++ after, processed := q.processed + 1 } := by
  unfold acknowledge
  rw [held?_eq_some hq hbefore hm, hq, removeFirst_append hbefore hm]
  rfl

/-- Below the budget, the message that carries the handle is released where it stands. -/
theorem nack_eq_release (hlt : m.retryCount < q.maxRetries) : q.nack handle =
    some ({ q with messages := before ++ m.released :: after }, none) := by
  unfold nack
  rw [held?_eq_some hq hbefore hm, hq, releaseFirst_append hbefore hm]
  simp only [Option.map_some, if_pos hlt]

/-- At the budget or beyond, the message that carries the handle is removed and given up. -/
theorem nack_eq_giveUp (hge : q.maxRetries ≤ m.retryCount) : q.nack handle =
    some ({ q with messages := before ++ after, failed := q.failed + 1 }, some m) := by
  unfold nack
  rw [held?_eq_some hq hbefore hm, hq, removeFirst_append hbefore hm]
  simp only [Option.map_some, if_neg (Nat.not_lt.mpr hge)]

end Held

end Queue

end MessageBroker
