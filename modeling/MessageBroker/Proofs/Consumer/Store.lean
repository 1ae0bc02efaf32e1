import MessageBroker.Idempotency

/-!
# What a store remembers

A store drops a mark only when the retention time has passed since. So it remembers each mark: it
holds that one or a later one of the same id, or the mark has expired. `Remembers.expired` is what a
guard gets out of that: an id that does not count as processed has expired marks only.

Hence dropping marks cannot be noticed. `Reflects` relates a store to a log of all marks, and
`Reflects.isProcessed_iff` says that the store answers as the log does.
-/

namespace MessageBroker.IdempotencyStore

variable {s : IdempotencyStore} {id : Ident} {now marked : Span}

/-- A mark still counts until the retention time has passed. -/
theorem fresh_iff :
    s.fresh now marked = true ↔ now.nanos ≤ marked.nanos + s.retention.nanos := by
  unfold fresh Span.since
  rw [decide_eq_true_iff, Span.le_iff]
  show now.nanos - marked.nanos ≤ s.retention.nanos ↔ _
  omega

/-- An id that has just been marked has that mark. -/
theorem mark?_markProcessed_self (s : IdempotencyStore) (id : Ident) (now : Span) :
    (s.markProcessed id now).mark? id = some now := by
  unfold markProcessed mark?
  rw [List.find?_cons_of_pos (by simp)]
  rfl

/-- When another id is marked, a mark that still counts is kept. -/
theorem mark?_markProcessed_of_fresh {other : Ident} (hne : id ≠ other)
    (hmark : s.mark? id = some marked) (hfresh : s.fresh now marked = true) :
    (s.markProcessed other now).mark? id = some marked := by
  obtain ⟨entry, hfind, rfl⟩ := Option.map_eq_some_iff.mp hmark
  obtain ⟨hid, before, after, hmarks, hbefore⟩ := List.find?_eq_some_iff_append.mp hfind
  have hid' : entry.1 = id := of_decide_eq_true hid
  -- The first entry of the id passes the filter, and those before it are still of other ids.
  have hkept : (s.marks.filter fun entry => s.fresh now entry.2 && entry.1 ≠ other).find?
      (fun entry => entry.1 = id) = some entry := by
    rw [hmarks, List.filter_append, List.filter_cons_of_pos (by simp [hfresh, hid', hne])]
    refine List.find?_eq_some_iff_append.mpr ⟨hid, _, _, rfl, fun e he => ?_⟩
    exact hbefore e (List.mem_filter.mp he).1
  unfold markProcessed mark?
  rw [List.find?_cons_of_neg (by simpa using hne.symm), hkept]
  rfl

/-- A store remembers a mark: it holds that one or a later one of the same id, or the mark has
expired. -/
def Remembers (s : IdempotencyStore) (now : Span) (id : Ident) (marked : Span) : Prop :=
  (∃ latest, s.mark? id = some latest ∧ marked ≤ latest) ∨ marked + s.retention < now

/-- A store remembers the mark it has just been given. -/
theorem remembers_markProcessed (s : IdempotencyStore) (id : Ident) (now later : Span) :
    (s.markProcessed id now).Remembers later id now :=
  .inl ⟨now, s.mark?_markProcessed_self id now, Nat.le_refl _⟩

namespace Remembers

variable (h : s.Remembers now id marked)
include h

/-- Time does not make a store forget. -/
theorem mono {later : Span} (hle : now ≤ later) : s.Remembers later id marked :=
  h.imp_right fun hexpired => Nat.lt_of_lt_of_le hexpired hle

/-- No mark makes a store forget another. -/
theorem markProcessed (other : Ident) (hpast : marked ≤ now) :
    (s.markProcessed other now).Remembers now id marked := by
  by_cases hother : id = other
  · subst hother
    exact .inl ⟨now, s.mark?_markProcessed_self id now, hpast⟩
  · rcases h with ⟨latest, hmark, hle⟩ | hexpired
    · cases hfresh : s.fresh now latest with
      | true => exact .inl ⟨latest, mark?_markProcessed_of_fresh hother hmark hfresh, hle⟩
      | false =>
        right
        have hold := mt fresh_iff.mpr (Bool.eq_false_iff.mp hfresh)
        rw [Span.le_iff] at hle
        show marked.nanos + s.retention.nanos < now.nanos
        omega
    · exact .inr hexpired

/-- The marks of an id that does not count as processed have expired. -/
theorem expired (hnot : s.isProcessed id now = false) : marked + s.retention < now := by
  rcases h with ⟨latest, hmark, hle⟩ | hexpired
  · unfold isProcessed at hnot
    rw [hmark] at hnot
    have hold := mt fresh_iff.mpr (Bool.eq_false_iff.mp hnot)
    rw [Span.le_iff] at hle
    show marked.nanos + s.retention.nanos < now.nanos
    omega
  · exact hexpired

end Remembers

/-! ## A log of all marks -/

/-- A store reflects a log of past marks, each with its clock reading: what it holds is in the log,
and it remembers all that is in the log. -/
structure Reflects (s : IdempotencyStore) (log : List (Ident × Span)) (now : Span) : Prop where
  held : ∀ e ∈ s.marks, e ∈ log
  past : ∀ e ∈ log, e.2 ≤ now
  remembers : ∀ e ∈ log, s.Remembers now e.1 e.2

/-- A new store reflects the empty log. -/
theorem reflects_create (retention now : Span) : (create retention).Reflects [] now :=
  ⟨fun _ he => he, fun _ he => absurd he List.not_mem_nil, fun _ he => absurd he List.not_mem_nil⟩

namespace Reflects

variable {log : List (Ident × Span)} (h : s.Reflects log now)
include h

/-- Time does not change what a store reflects. -/
theorem mono {later : Span} (hle : now ≤ later) : s.Reflects log later :=
  ⟨h.held, fun e he => Nat.le_trans (h.past e he) hle, fun e he => (h.remembers e he).mono hle⟩

/-- A mark goes to the log. -/
theorem markProcessed (id : Ident) :
    (s.markProcessed id now).Reflects (log ++ [(id, now)]) now := by
  refine ⟨fun e he => ?_, fun e he => ?_, fun e he => ?_⟩
  · rcases List.mem_cons.mp he with rfl | he
    · exact List.mem_append_right _ List.mem_cons_self
    · exact List.mem_append_left _ (h.held e (List.mem_filter.mp he).1)
  · rcases List.mem_append.mp he with he | he
    · exact h.past e he
    · rw [List.mem_singleton.mp he]
      exact Nat.le_refl _
  · rcases List.mem_append.mp he with he | he
    · exact (h.remembers e he).markProcessed id (h.past e he)
    · rw [List.mem_singleton.mp he]
      exact s.remembers_markProcessed id now now

/-- An id counts as processed exactly if the log has a mark of it from which no more than the
retention time has passed. -/
theorem isProcessed_iff (id : Ident) :
    s.isProcessed id now = true ↔
      ∃ marked, (id, marked) ∈ log ∧ now.since marked ≤ s.retention := by
  constructor
  · intro hold
    obtain ⟨marked, hmark, hfresh⟩ := (Option.any_eq_true _ _).mp hold
    obtain ⟨entry, hfind, rfl⟩ := Option.map_eq_some_iff.mp hmark
    have hid : entry.1 = id := by simpa using List.find?_some hfind
    have hlog : entry ∈ log := h.held entry (List.mem_of_find?_eq_some hfind)
    exact ⟨entry.2, hid ▸ hlog, of_decide_eq_true hfresh⟩
  · rintro ⟨marked, hlog, hfresh⟩
    cases hnot : s.isProcessed id now with
    | true => rfl
    | false =>
      have hexpired : marked.nanos + s.retention.nanos < now.nanos :=
        (h.remembers _ hlog).expired hnot
      have hpassed : now.nanos - marked.nanos ≤ s.retention.nanos := hfresh
      omega

end Reflects

end MessageBroker.IdempotencyStore
