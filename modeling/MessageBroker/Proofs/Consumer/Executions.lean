import MessageBroker.Proofs.Consumer.Guarding

/-!
# Executions that succeed

A guard asks its store before the handler acts, and marks the id only after the handler has returned
without an error. So a mark holds off the executions that are admitted after it, and only those.

`Recorded` is what the notes on executions say in every state of every run: a note is written only
when those before it allow it (`Fleet.Justifies`), and the stores still remember what was marked. A
second admission of an id therefore comes after all earlier marks have expired
(`expired_of_admitted`), and two executions of one id that both succeed return more than the
retention time apart (`successes_apart`), unless they overlap: each was admitted before the other
was marked. Without that exception the statement is false (`overlapping_successes`).
-/

namespace MessageBroker

/-! ## Notes that follow from others -/

/-- The notes tell that the store admitted a caller to the execution of that number, for the id. -/
def Admitted (notes : List GuardNote) (n : Nat) (caller : Caller) (store : StoreRef) (id : Ident) :
    Prop :=
  ∃ time, notes[n]? = some ⟨caller, time, .admitted store id⟩

namespace Admitted

variable {notes : List GuardNote} {n : Nat} {caller caller' : Caller} {store store' : StoreRef}
  {id id' : Ident}

/-- Of each execution only one admission is noted. -/
theorem unique (h : Admitted notes n caller store id) (h' : Admitted notes n caller' store' id') :
    caller' = caller ∧ store' = store ∧ id' = id := by
  obtain ⟨time, h⟩ := h
  obtain ⟨time', h'⟩ := h'
  cases h.symm.trans h'
  exact ⟨rfl, rfl, rfl⟩

/-- An execution that was admitted has a number below the length of the notes. -/
theorem lt_length (h : Admitted notes n caller store id) : n < notes.length := by
  obtain ⟨time, h⟩ := h
  exact (List.getElem?_eq_some_iff.mp h).1

/-- More notes leave an admission noted. -/
theorem append (h : Admitted notes n caller store id) (news : List GuardNote) :
    Admitted (notes ++ news) n caller store id := by
  have hlt := h.lt_length
  obtain ⟨time, h⟩ := h
  exact ⟨time, (List.getElem?_append_left hlt).trans h⟩

/-- An admission that is noted with one note more was noted before, or is that note. -/
theorem of_concat {note : GuardNote} (h : Admitted (notes ++ [note]) n caller store id) :
    Admitted notes n caller store id ∨
      n = notes.length ∧ note.caller = caller ∧ note.deed = .admitted store id := by
  have hlt := h.lt_length
  obtain ⟨time, h⟩ := h
  rw [List.length_append, List.length_singleton] at hlt
  rcases Nat.lt_or_eq_of_le (Nat.le_of_lt_succ hlt) with hold | rfl
  · rw [List.getElem?_append_left hold] at h
    exact .inl ⟨time, h⟩
  · rw [List.getElem?_concat_length] at h
    cases h
    exact .inr ⟨rfl, rfl, rfl⟩

/-- What the first notes tell, all tell. -/
theorem of_take {i : Nat} (h : Admitted (notes.take i) n caller store id) :
    n < i ∧ Admitted notes n caller store id := by
  have hlt := h.lt_length
  rw [List.length_take] at hlt
  have hi : n < i := Nat.lt_of_lt_of_le hlt (Nat.min_le_left _ _)
  obtain ⟨time, h⟩ := h
  rw [List.getElem?_take_of_lt hi] at h
  exact ⟨hi, time, h⟩

end Admitted

namespace Fleet

/-- The store of a reference. -/
def store? (f : Fleet) (ref : StoreRef) : Option IdempotencyStore := f.stores[ref.index]?

/-- A note can be written behind the earlier ones: its time is not before theirs; an id is admitted
when all earlier marks of it have expired; and a caller succeeds, or marks, in an execution it was
admitted to, and it succeeds before it marks. -/
def Justifies (f : Fleet) (past : List GuardNote) (note : GuardNote) : Prop :=
  (∀ earlier ∈ past, earlier.time ≤ note.time) ∧
  match note.deed with
  | .admitted store id => ∃ st, f.store? store = some st ∧
    ∀ n caller, Admitted past n caller store id →
      ∀ earlier ∈ past, earlier.deed = .marked n → earlier.time + st.retention < note.time
  | .succeeded n => (∃ store id, Admitted past n note.caller store id) ∧
    ∀ earlier ∈ past, earlier.deed ≠ .marked n
  | .marked n => ∃ store id, Admitted past n note.caller store id

/-- Every note is justified by those before it. -/
def Justified (f : Fleet) (notes : List GuardNote) : Prop :=
  ∀ i note, notes[i]? = some note → f.Justifies (notes.take i) note

/-- One more note. -/
theorem Justified.concat {f : Fleet} {notes : List GuardNote} (h : f.Justified notes)
    {note : GuardNote} (hnote : f.Justifies notes note) : f.Justified (notes ++ [note]) := by
  intro i other hi
  have hlt := (List.getElem?_eq_some_iff.mp hi).1
  rw [List.length_append, List.length_singleton] at hlt
  rcases Nat.lt_or_eq_of_le (Nat.le_of_lt_succ hlt) with hold | rfl
  · rw [List.getElem?_append_left hold] at hi
    rw [List.take_append_of_le_length (Nat.le_of_lt hold)]
    exact h i other hi
  · rw [List.getElem?_concat_length] at hi
    cases hi
    rw [List.take_left]
    exact hnote

namespace Justified

variable {f : Fleet} {notes : List GuardNote} (h : f.Justified notes)
include h

/-- The times of the notes are in order. -/
theorem time_le {i j : Nat} {a b : GuardNote} (ha : notes[i]? = some a) (hb : notes[j]? = some b)
    (hle : i ≤ j) : a.time ≤ b.time := by
  rcases Nat.lt_or_eq_of_le hle with hlt | rfl
  · refine (h j b hb).1 a (List.mem_of_getElem? (i := i) ?_)
    rw [List.getElem?_take_of_lt hlt]
    exact ha
  · cases ha.symm.trans hb
    exact Nat.le_refl _

/-- An execution is marked after it was admitted, by its caller. -/
theorem of_marked {i n : Nat} {note : GuardNote} (hi : notes[i]? = some note)
    (hdeed : note.deed = .marked n) :
    n < i ∧ ∃ store id, Admitted notes n note.caller store id := by
  obtain ⟨-, hjust⟩ := h i note hi
  rw [hdeed] at hjust
  obtain ⟨store, id, hadmitted⟩ := hjust
  exact ⟨hadmitted.of_take.1, store, id, hadmitted.of_take.2⟩

/-- An execution succeeds after it was admitted. -/
theorem of_succeeded {i n : Nat} {note : GuardNote} (hi : notes[i]? = some note)
    (hdeed : note.deed = .succeeded n) : n < i := by
  obtain ⟨-, hjust⟩ := h i note hi
  rw [hdeed] at hjust
  obtain ⟨⟨store, id, hadmitted⟩, -⟩ := hjust
  exact hadmitted.of_take.1

/-- An execution succeeds before it is marked. -/
theorem succeeded_lt_marked {i j n : Nat} {a b : GuardNote} (ha : notes[i]? = some a)
    (hb : notes[j]? = some b) (hdone : a.deed = .succeeded n) (hmarked : b.deed = .marked n) :
    i < j := by
  by_contra hge
  rcases Nat.lt_or_eq_of_le (Nat.le_of_not_lt hge) with hlt | rfl
  · obtain ⟨-, hjust⟩ := h i a ha
    rw [hdone] at hjust
    refine hjust.2 b (List.mem_of_getElem? (i := j) ?_) hmarked
    rw [List.getElem?_take_of_lt hlt]
    exact hb
  · cases ha.symm.trans hb
    cases hdone.symm.trans hmarked

/-- A store that admitted an execution exists. -/
theorem store {n : Nat} {caller : Caller} {store : StoreRef} {id : Ident}
    (hadmitted : Admitted notes n caller store id) : ∃ st, f.store? store = some st := by
  obtain ⟨time, hn⟩ := hadmitted
  obtain ⟨-, st, hst, -⟩ := h n _ hn
  exact ⟨st, hst⟩

/-- The number in a mark is below the length of the notes. -/
theorem marked_lt {note : GuardNote} (hmem : note ∈ notes) {n : Nat}
    (hdeed : note.deed = .marked n) : n < notes.length := by
  obtain ⟨i, hi⟩ := List.getElem?_of_mem hmem
  exact Nat.lt_trans (h.of_marked hi hdeed).1 (List.getElem?_eq_some_iff.mp hi).1

end Justified

/-! ## Stores that remember -/

/-- Time goes on, and stores are kept; at most one id is marked in each. -/
structure Keeps (f g : Fleet) : Prop where
  uptime : f.clock.uptime ≤ g.clock.uptime
  store : ∀ ref st, f.store? ref = some st → g.store? ref = some st ∨
    ∃ id, g.store? ref = some (st.markProcessed id f.clock.uptime)

/-- A store exists and remembers a mark. -/
def Remembers (f : Fleet) (store : StoreRef) (id : Ident) (marked : Span) : Prop :=
  ∃ st, f.store? store = some st ∧ st.Remembers f.clock.uptime id marked

/-- The stores after a mark. -/
theorem store?_markProcessed (f : Fleet) (store : StoreRef) (id : Ident) (ref : StoreRef) :
    (f.markProcessed store id).store? ref =
      if ref = store then (f.store? ref).map (·.markProcessed id f.clock.uptime)
      else f.store? ref := by
  obtain ⟨i⟩ := store
  obtain ⟨j⟩ := ref
  unfold store? markProcessed
  dsimp only
  rw [getElem?_modify_if]
  simp only [StoreRef.mk.injEq]

namespace Keeps

variable {f g : Fleet} (h : f.Keeps g)
include h

/-- A store keeps its retention time. -/
theorem retention {ref : StoreRef} {st : IdempotencyStore} (hst : f.store? ref = some st) :
    ∃ st', g.store? ref = some st' ∧ st'.retention = st.retention := by
  rcases h.store ref st hst with hsame | ⟨id, hmark⟩
  · exact ⟨st, hsame, rfl⟩
  · exact ⟨_, hmark, rfl⟩

/-- A note stays justified. -/
theorem justifies {past : List GuardNote} {note : GuardNote} (hnote : f.Justifies past note) :
    g.Justifies past note := by
  obtain ⟨htimes, hjust⟩ := hnote
  refine ⟨htimes, ?_⟩
  cases hdeed : note.deed with
  | succeeded n | marked n =>
    rw [hdeed] at hjust
    exact hjust
  | admitted store id =>
    rw [hdeed] at hjust
    obtain ⟨st, hst, hexpired⟩ := hjust
    obtain ⟨st', hst', hretention⟩ := h.retention hst
    refine ⟨st', hst', ?_⟩
    rw [hretention]
    exact hexpired

/-- A mark stays remembered. -/
theorem remembers {store : StoreRef} {id : Ident} {marked : Span}
    (hremembers : f.Remembers store id marked) (hpast : marked ≤ f.clock.uptime) :
    g.Remembers store id marked := by
  obtain ⟨st, hst, hmark⟩ := hremembers
  rcases h.store store st hst with hsame | ⟨other, hother⟩
  · exact ⟨st, hsame, hmark.mono h.uptime⟩
  · exact ⟨_, hother, (hmark.markProcessed other hpast).mono h.uptime⟩

end Keeps

end Fleet

namespace Shift

/-- The monotonic clock of a shift does not run backwards. -/
theorem uptime_apply (s : Shift) (v : Move) :
    s.fleet.clock.uptime ≤ (s.apply v).fleet.clock.uptime := by
  have hkind := s.kind v
  generalize s.apply v = s' at hkind ⊢
  cases hkind with
  | steps hv h =>
    obtain ⟨b, hfleet⟩ := h.fleet
    rw [hfleet]
    exact h.effect.uptime_le
  | elapse span => exact Nat.le_add_right _ _
  | start worker =>
    show _ ≤ (s.fleet.launch worker).clock.uptime
    rw [(launch_frame s.fleet worker).2.1]
    exact Nat.le_refl _
  | _ => exact Nat.le_refl _

/-- A valid move lets time go on and keeps the stores. -/
theorem Reachable.keeps {s : Shift} (hs : s.Reachable) {v : Move} (hv : v.Valid s.fleet) :
    s.fleet.Keeps (s.apply v).fleet := by
  refine ⟨s.uptime_apply v, fun ref st hst => ?_⟩
  rcases hs.guards_cases hv with hrests | ⟨caller, deed, hguards⟩
  · obtain ⟨new, hnew⟩ := hrests.stores
    left
    unfold Fleet.store? at hst ⊢
    rw [hnew, List.getElem?_append_left (List.getElem?_eq_some_iff.mp hst).1]
    exact hst
  · unfold Fleet.store?
    rcases hguards.guarding.stores with hsame | ⟨store, id, hmark⟩
    · rw [hsame]
      exact .inl hst
    · rw [hmark]
      have hafter := s.fleet.store?_markProcessed store id ref
      by_cases href : ref = store
      · rw [if_pos href, hst] at hafter
        exact .inr ⟨id, hafter⟩
      · rw [if_neg href, hst] at hafter
        exact .inl hafter

/-! ## What is recorded -/

/-- One note more is that note, or was there before. -/
theorem mem_notes {notes : List GuardNote} {note new : GuardNote} (h : note ∈ notes ++ [new]) :
    note ∈ notes ∨ note = new :=
  (List.mem_append.mp h).imp_right List.mem_singleton.mp

/-- What the notes on executions say of the state. -/
structure Recorded (s : Shift) : Prop where
  justified : s.fleet.Justified s.guardNotes
  /-- No note is from the future. -/
  past : ∀ note ∈ s.guardNotes, note.time ≤ s.fleet.clock.uptime
  /-- A caller was admitted to the execution it is in. -/
  engaged : ∀ c e, s.engaged? c = some e → Admitted s.guardNotes (s.execution c) c e.store e.id
  /-- An execution in progress is not marked yet. -/
  unmarked : ∀ c e, s.engaged? c = some e → ∀ note ∈ s.guardNotes,
    note.deed ≠ .marked (s.execution c)
  /-- The stores remember what was marked. -/
  remembered : ∀ n caller store id, Admitted s.guardNotes n caller store id →
    ∀ note ∈ s.guardNotes, note.deed = .marked n → s.fleet.Remembers store id note.time

namespace Recorded

variable {s s' : Shift} (h : s.Recorded) (hkeeps : s.fleet.Keeps s'.fleet)
include h hkeeps

/-- Nothing is noted, and executions only end. -/
theorem of_quiet (hengaged : ∀ c e, s'.engaged? c = some e → s.engaged? c = some e)
    (hnotes : s'.guardNotes = s.guardNotes) (hexecution : s'.execution = s.execution) :
    s'.Recorded := by
  refine ⟨?_, ?_, fun c e he => ?_, fun c e he => ?_, ?_⟩
  · rw [hnotes]
    exact fun i note hi => hkeeps.justifies (h.justified i note hi)
  · rw [hnotes]
    exact fun note hmem => Nat.le_trans (h.past note hmem) hkeeps.uptime
  · rw [hnotes, hexecution]
    exact h.engaged c e (hengaged c e he)
  · rw [hnotes, hexecution]
    exact h.unmarked c e (hengaged c e he)
  · rw [hnotes]
    exact fun n c store id hadmitted note hmem hdeed =>
      hkeeps.remembers (h.remembered n c store id hadmitted note hmem hdeed) (h.past note hmem)

/-- A note is added. What is to be shown concerns the note and the caller alone. -/
theorem of_note {caller : Caller} {deed : GuardDeed} (hguards : Guards s s' caller (some deed))
    (hjust : s.fleet.Justifies s.guardNotes ⟨caller, s.fleet.clock.uptime, deed⟩)
    (hmark : ∀ n, deed = .marked n → n = s.execution caller ∧ (s.engaged? caller).isSome ∧
      ∀ store id, Admitted s.guardNotes n caller store id →
        s'.fleet.Remembers store id s.fleet.clock.uptime)
    (hown : ∀ e, s'.engaged? caller = some e →
      Admitted s'.guardNotes (s'.execution caller) caller e.store e.id ∧
        ∀ note ∈ s'.guardNotes, note.deed ≠ .marked (s'.execution caller)) : s'.Recorded := by
  have hnotes : s'.guardNotes = s.guardNotes ++ [⟨caller, s.fleet.clock.uptime, deed⟩] :=
    hguards.notes
  have hexecution : ∀ c ≠ caller, s'.execution c = s.execution c := fun c hc => by
    rw [hguards.execution]
    cases deed with
    | admitted store id => exact Function.update_of_ne hc _ _
    | _ => rfl
  refine ⟨?_, ?_, fun c e he => ?_, fun c e he => ?_, ?_⟩
  · rw [hnotes]
    exact Fleet.Justified.concat (fun i note hi => hkeeps.justifies (h.justified i note hi))
      (hkeeps.justifies hjust)
  · intro note hmem
    rw [hnotes] at hmem
    rcases mem_notes hmem with hold | rfl
    · exact Nat.le_trans (h.past note hold) hkeeps.uptime
    · exact hkeeps.uptime
  · by_cases hc : c = caller
    · subst hc
      exact (hown e he).1
    · rw [hguards.others c hc] at he
      rw [hnotes, hexecution c hc]
      exact (h.engaged c e he).append _
  · by_cases hc : c = caller
    · subst hc
      exact (hown e he).2
    · rw [hguards.others c hc] at he
      rw [hnotes, hexecution c hc]
      intro note hmem
      rcases mem_notes hmem with hold | rfl
      · exact h.unmarked c e he note hold
      · -- Two callers are never in one execution.
        intro hdeed
        obtain ⟨hn, hsome, -⟩ := hmark _ hdeed
        obtain ⟨e', he'⟩ := Option.isSome_iff_exists.mp hsome
        have hadmitted := h.engaged c e he
        rw [hn] at hadmitted
        exact hc ((h.engaged caller e' he').unique hadmitted).1
  · intro n c store id hadmitted note hmem hdeed
    rw [hnotes] at hadmitted hmem
    rcases mem_notes hmem with hold | rfl
    · rcases hadmitted.of_concat with hadmitted | ⟨hn, -⟩
      · exact hkeeps.remembers (h.remembered n c store id hadmitted note hold hdeed)
          (h.past note hold)
      · exact absurd hn (Nat.ne_of_lt (h.justified.marked_lt hold hdeed))
    · rcases hadmitted.of_concat with hadmitted | ⟨-, -, hother⟩
      · obtain ⟨hn, hsome, hremembers⟩ := hmark n hdeed
        obtain ⟨e, he⟩ := Option.isSome_iff_exists.mp hsome
        have hcaller := ((h.engaged caller e he).unique (hn ▸ hadmitted)).1
        exact hremembers store id (hcaller ▸ hadmitted)
      · cases hdeed.symm.trans hother

/-- A step of a caller keeps the record. -/
theorem of_guards {caller : Caller} {deed : Option GuardDeed} (hguards : Guards s s' caller deed) :
    s'.Recorded := by
  have hguarding := hguards.guarding
  generalize hbefore : s.engaged? caller = before at hguarding
  generalize hafter : s'.engaged? caller = after at hguarding
  generalize hstores : s'.fleet.stores = stores at hguarding
  have hothers : ∀ c e, c ≠ caller → s'.engaged? c = some e → s.engaged? c = some e :=
    fun c e hc he => (hguards.others c hc) ▸ he
  have hpast : ∀ earlier ∈ s.guardNotes, earlier.time ≤ s.fleet.clock.uptime := h.past
  cases hguarding with
  | stays =>
    refine h.of_quiet hkeeps (fun c e he => ?_) hguards.notes hguards.execution
    by_cases hc : c = caller
    · subst hc
      exact hbefore.trans (hafter.symm.trans he)
    · exact hothers c e hc he
  | fails =>
    refine h.of_quiet hkeeps (fun c e he => ?_) hguards.notes hguards.execution
    by_cases hc : c = caller
    · subst hc
      cases hafter.symm.trans he
    · exact hothers c e hc he
  | @admits store id hstore hnew =>
    have hst : s.fleet.store? store = some s.fleet.stores[store.index] :=
      List.getElem?_eq_getElem hstore
    refine h.of_note hkeeps hguards ⟨hpast, _, hst, ?_⟩ (by simp) (fun e he => ?_)
    · intro n c hadmitted earlier hmem hdeed
      obtain ⟨st, hst', hremembers⟩ := h.remembered n c store id hadmitted earlier hmem hdeed
      obtain rfl := Option.some.inj (hst.symm.trans hst')
      refine hremembers.expired ?_
      unfold Fleet.isProcessed at hnew
      rw [show s.fleet.stores[store.index]? = some _ from hst] at hnew
      exact hnew
    · cases hafter.symm.trans he
      have hnotes : s'.guardNotes = s.guardNotes ++ [⟨caller, s.fleet.clock.uptime, _⟩] :=
        hguards.notes
      have hnumber : s'.execution caller = s.guardNotes.length := by
        rw [hguards.execution]
        exact Function.update_self _ _ _
      rw [hnotes, hnumber]
      refine ⟨⟨_, List.getElem?_concat_length⟩, fun note hmem hdeed => ?_⟩
      rcases mem_notes hmem with hold | rfl
      · exact Nat.lt_irrefl _ (h.justified.marked_lt hold hdeed)
      · cases hdeed
  | @succeeds store id =>
    have hin := h.engaged caller _ hbefore
    have hunmarked := h.unmarked caller _ hbefore
    refine h.of_note hkeeps hguards ⟨hpast, ⟨_, _, hin⟩, hunmarked⟩ (by simp) (fun e he => ?_)
    cases hafter.symm.trans he
    rw [show s'.guardNotes = s.guardNotes ++ [_] from hguards.notes,
      show s'.execution = s.execution from hguards.execution]
    refine ⟨hin.append _, fun note hmem => ?_⟩
    rcases mem_notes hmem with hold | rfl
    · exact hunmarked note hold
    · simp
  | @marks store id =>
    have hin := h.engaged caller _ hbefore
    refine h.of_note hkeeps hguards ⟨hpast, _, _, hin⟩ (fun n hn => ?_) (fun e he => ?_)
    · cases hn
      refine ⟨rfl, by rw [hbefore]; rfl, fun store' id' hadmitted => ?_⟩
      obtain ⟨-, rfl, rfl⟩ := hin.unique hadmitted
      obtain ⟨st, hst⟩ := h.justified.store hin
      have hafter := s.fleet.store?_markProcessed store' id' store'
      rw [if_pos rfl, hst] at hafter
      refine ⟨_, ?_, st.remembers_markProcessed id' _ _⟩
      unfold Fleet.store?
      rw [hstores]
      exact hafter
    · cases hafter.symm.trans he

end Recorded

/-- The notes are right in every state of every run. -/
theorem Reachable.recorded {s : Shift} (hs : s.Reachable) : s.Recorded := by
  induction hs with
  | create defaults clock =>
    have hempty : ∀ note, note ∉ (Shift.create defaults clock).guardNotes :=
      fun _ => List.not_mem_nil
    have hidle : ∀ c e, (Shift.create defaults clock).engaged? c ≠ some e := by
      intro c e he
      cases c <;> cases he
    exact ⟨fun i note hi => absurd (List.mem_of_getElem? hi) (hempty note),
      fun note hmem => absurd hmem (hempty note), fun c e he => absurd he (hidle c e),
      fun c e he => absurd he (hidle c e),
      fun _ _ _ _ _ note hmem => absurd hmem (hempty note)⟩
  | @apply s v hs hv ih =>
    rcases hs.guards_cases hv with hrests | ⟨caller, deed, hguards⟩
    · exact ih.of_quiet (hs.keeps hv) (fun c e he => (hrests.engaged c) ▸ he) hrests.notes
        hrests.execution
    · exact ih.of_guards (hs.keeps hv) hguards

/-! ## Executions of one id -/

/-- An execution was admitted by the store for the id, and its handler returned without an error at
that reading. -/
def Completes (s : Shift) (store : StoreRef) (id : Ident) (n : Nat) (time : Span) : Prop :=
  ∃ caller, Admitted s.guardNotes n caller store id ∧
    ⟨caller, time, .succeeded n⟩ ∈ s.guardNotes

/-- One execution was marked before the other was admitted. -/
def MarkedBefore (s : Shift) (n m : Nat) : Prop :=
  ∃ note ∈ s.guardNotes.take m, note.deed = .marked n

instance (s : Shift) (n m : Nat) : Decidable (s.MarkedBefore n m) :=
  inferInstanceAs (Decidable (∃ note ∈ _, _))

/-- Two executions overlap: each was admitted before the other was marked. -/
def Overlap (s : Shift) (n m : Nat) : Prop := ¬ s.MarkedBefore n m ∧ ¬ s.MarkedBefore m n

instance (s : Shift) (n m : Nat) : Decidable (s.Overlap n m) := inferInstanceAs (Decidable (_ ∧ _))

/-- An id is admitted again only after every mark of it has expired. -/
theorem expired_of_admitted {s : Shift} (hs : s.Reachable) {store : StoreRef}
    {st : IdempotencyStore} (hst : s.fleet.store? store = some st) {id : Ident} {n m : Nat}
    {c c' : Caller} {began : Span} (hn : Admitted s.guardNotes n c store id)
    (hm : s.guardNotes[m]? = some ⟨c', began, .admitted store id⟩) {note : GuardNote}
    (hmem : note ∈ s.guardNotes.take m) (hdeed : note.deed = .marked n) :
    note.time + st.retention < began := by
  have hjustified := hs.recorded.justified
  obtain ⟨-, st', hst', hexpired⟩ := hjustified m _ hm
  obtain rfl := Option.some.inj (hst.symm.trans hst')
  obtain ⟨i, hi⟩ := List.getElem?_of_mem hmem
  have him : i < m := by
    have hlt := (List.getElem?_eq_some_iff.mp hi).1
    rw [List.length_take] at hlt
    exact Nat.lt_of_lt_of_le hlt (Nat.min_le_left _ _)
  rw [List.getElem?_take_of_lt him] at hi
  have hnm : n < m := Nat.lt_trans (hjustified.of_marked hi hdeed).1 him
  refine hexpired n c ?_ note hmem hdeed
  obtain ⟨time, hn⟩ := hn
  refine ⟨time, ?_⟩
  rw [List.getElem?_take_of_lt hnm]
  exact hn

/-- Where one execution was marked before the other was admitted, they return more than the
retention time apart. -/
theorem apart_of_markedBefore {s : Shift} (hs : s.Reachable) {store : StoreRef}
    {st : IdempotencyStore} (hst : s.fleet.store? store = some st) {id : Ident} {n m : Nat}
    {cn cm : Span} (hn : s.Completes store id n cn) (hm : s.Completes store id m cm)
    (hbefore : s.MarkedBefore n m) : cn + st.retention < cm := by
  have hjustified := hs.recorded.justified
  obtain ⟨c, hadmitted, hdone⟩ := hn
  obtain ⟨c', ⟨began, hadmitted'⟩, hdone'⟩ := hm
  obtain ⟨note, hmem, hdeed⟩ := hbefore
  have hexpired := expired_of_admitted hs hst hadmitted hadmitted' hmem hdeed
  obtain ⟨i, hi⟩ := List.getElem?_of_mem hdone
  obtain ⟨j, hj⟩ := List.getElem?_of_mem (List.mem_of_mem_take hmem)
  obtain ⟨k, hk⟩ := List.getElem?_of_mem hdone'
  -- The first returns before its mark, and the second after its admission.
  have hfirst : cn ≤ note.time :=
    hjustified.time_le hi hj (Nat.le_of_lt (hjustified.succeeded_lt_marked hi hj rfl hdeed))
  have hsecond : began ≤ cm :=
    hjustified.time_le hadmitted' hk (Nat.le_of_lt (hjustified.of_succeeded hk rfl))
  exact Nat.lt_of_le_of_lt (Nat.add_le_add_right hfirst _) (Nat.lt_of_lt_of_le hexpired hsecond)

/-- In every state of every run, two executions of one id that a store admitted and whose handlers
returned without an error, returned more than the retention time apart, unless they overlap. -/
theorem successes_apart {s : Shift} (hs : s.Reachable) {store : StoreRef} {st : IdempotencyStore}
    (hst : s.fleet.store? store = some st) {id : Ident} {n m : Nat} {cn cm : Span}
    (hn : s.Completes store id n cn) (hm : s.Completes store id m cm) :
    s.Overlap n m ∨ cn + st.retention < cm ∨ cm + st.retention < cn := by
  by_cases hnm : s.MarkedBefore n m
  · exact .inr (.inl (apart_of_markedBefore hs hst hn hm hnm))
  · by_cases hmn : s.MarkedBefore m n
    · exact .inr (.inr (apart_of_markedBefore hs hst hm hn hmn))
    · exact .inl ⟨hnm, hmn⟩

/-- A run in which a message is handled, and an equal one after the mark has expired: first by a
worker, then by a guest. -/
def expiredRun : List Move :=
  [.addStore (.ofMillis 10),
    .broker (.call (.createQueue "work" {})),
    .broker (.call (.enqueue ⟨0⟩ (.create (.text "m") "order" [] .first))),
    .addWorker "worker" ⟨0⟩ ⟨fun _ _ => [.pause (.ofMillis 5)], some ⟨0⟩⟩
      Worker.standardPollInterval,
    .start ⟨0⟩, .step ⟨0⟩, .step ⟨0⟩, .step ⟨0⟩, .elapse (.ofMillis 5), .wake ⟨0⟩,
    .step ⟨0⟩, .step ⟨0⟩, .ask ⟨0⟩ (.text "m"), .elapse (.ofMillis 11), .ask ⟨0⟩ (.text "m"),
    .reply 0 true]

/-- In that run both executions succeed and do not overlap; the second returns after 16 ms, which is
more than 10 ms after the first. -/
theorem successes_apart_expiredRun :
    let s := (create .standard ⟨.first, .zero⟩).run expiredRun
    s.Completes ⟨0⟩ (.text "m") 0 (.ofMillis 5) ∧ s.Completes ⟨0⟩ (.text "m") 3 (.ofMillis 16) ∧
      ¬ s.Overlap 0 3 ∧ (.ofMillis 5 + .ofMillis 10 < Span.ofMillis 16 ∨
        .ofMillis 16 + .ofMillis 10 < Span.ofMillis 5) := by
  have hs : ((create .standard ⟨.first, .zero⟩).run expiredRun).Reachable :=
    (Reachable.create .standard ⟨.first, .zero⟩).run (by decide)
  have hfirst : ((create .standard ⟨.first, .zero⟩).run expiredRun).Completes ⟨0⟩ (.text "m") 0
      (.ofMillis 5) := ⟨.run ⟨0⟩, ⟨.zero, rfl⟩, by decide⟩
  have hsecond : ((create .standard ⟨.first, .zero⟩).run expiredRun).Completes ⟨0⟩ (.text "m") 3
      (.ofMillis 16) := ⟨.guest 0, ⟨.ofMillis 16, rfl⟩, by decide⟩
  have hapart : ¬ ((create .standard ⟨.first, .zero⟩).run expiredRun).Overlap 0 3 := by decide
  exact ⟨hfirst, hsecond, hapart, (successes_apart hs rfl hfirst hsecond).resolve_left hapart⟩

/-- A run in which the lease of a message lapses while one worker handles it, and another worker
with the same store leases and handles it too. -/
def overlappingRun : List Move :=
  [.addStore (.ofSeconds 60),
    .broker (.call (.createQueue "work" { visibilityTimeout := some (.ofMillis 15) })),
    .broker (.call (.enqueue ⟨0⟩ (.create (.text "m") "order" [] .first))),
    .addWorker "a" ⟨0⟩ ⟨fun _ _ => [.pause (.ofMillis 20)], some ⟨0⟩⟩ Worker.standardPollInterval,
    .addWorker "b" ⟨0⟩ ⟨fun _ _ => [.pause (.ofMillis 10)], some ⟨0⟩⟩ Worker.standardPollInterval,
    .start ⟨0⟩, .step ⟨0⟩, .step ⟨0⟩, .step ⟨0⟩, .elapse (.ofMillis 16),
    .start ⟨1⟩, .step ⟨1⟩, .step ⟨1⟩, .step ⟨1⟩, .elapse (.ofMillis 4),
    .wake ⟨0⟩, .step ⟨0⟩, .step ⟨0⟩, .elapse (.ofMillis 6), .wake ⟨1⟩, .step ⟨1⟩, .step ⟨1⟩]

/-- Executions that overlap need not return more than the retention time apart: after that run both
workers have handled the message with success, 6 ms apart, though the store keeps marks for 60 s. -/
theorem overlapping_successes :
    ¬ ∀ s : Shift, s.Reachable → ∀ store st, s.fleet.store? store = some st →
      ∀ id n m cn cm, n ≠ m → s.Completes store id n cn → s.Completes store id m cm →
        cn + st.retention < cm ∨ cm + st.retention < cn := by
  intro hall
  have hs : ((create .standard ⟨.first, .zero⟩).run overlappingRun).Reachable :=
    (Reachable.create .standard ⟨.first, .zero⟩).run (by decide)
  have hfirst : ((create .standard ⟨.first, .zero⟩).run overlappingRun).Completes ⟨0⟩ (.text "m") 0
      (.ofMillis 20) := ⟨.run ⟨0⟩, ⟨.zero, rfl⟩, by decide⟩
  have hsecond : ((create .standard ⟨.first, .zero⟩).run overlappingRun).Completes ⟨0⟩ (.text "m") 1
      (.ofMillis 26) := ⟨.run ⟨1⟩, ⟨.ofMillis 16, rfl⟩, by decide⟩
  exact absurd (hall _ hs ⟨0⟩ _ rfl (.text "m") 0 1 _ _ (by decide) hfirst hsecond) (by decide)

end Shift

end MessageBroker
